import PgTest.Operations.Ddl
import PgTest.Operations.Sweep

/-!
# Names that fit

`truncate` cuts the name of a template at the last boundary of a character within
25 bytes, and PostgreSQL cuts an identifier in the same way, within 63 bytes.  Both
are a `clip`.  No generated name is long enough for the second one, so a database
has the name that the manager returns.
-/

namespace PgTest.Operations

open PgTest.Lib PgTest.Lib.Sql

/-- What `text[..cut]` leaves of a text, with the last boundary up to the limit. -/
def clip (limit : Nat) (text : List Char) : List Char :=
  (sliceTo text (floorBoundary text limit)).getD []

/-- The loop of `truncate` in so many steps, `none` where more are needed or a
subtraction underflows. -/
def searchBoundary (text : List Char) : Nat → Nat → Option Nat
  | 0, cut => if isCharBoundary text cut then some cut else none
  | steps + 1, cut =>
    if isCharBoundary text cut then some cut
    else if cut = 0 then none
    else searchBoundary text steps (cut - 1)

/-- No prefix within the limit is longer. -/
def LongestPrefix (limit : Nat) (text kept : List Char) : Prop :=
  kept <+: text ∧ byteLen kept ≤ limit ∧
    ∀ other, other <+: text → byteLen other ≤ limit → other <+: kept

/-! ### Prefixes and boundaries -/

theorem byteLen_cons (c : Char) (text : List Char) :
    byteLen (c :: text) = c.utf8Size + byteLen text := rfl

theorem isCharBoundary_byteLen {front : List Char} : ∀ {text : List Char}, front <+: text →
    isCharBoundary text (byteLen front) = true := by
  induction front with
  | nil =>
    intro text _
    cases text with
    | nil => rfl
    | cons c text => rfl
  | cons c front ih =>
    rintro text ⟨rest, rfl⟩
    have hc := c.utf8Size_pos
    obtain ⟨index, hindex⟩ : ∃ index, byteLen (c :: front) = index + 1 :=
      Nat.exists_eq_add_one.mpr (by rw [byteLen_cons]; omega)
    rw [hindex, List.cons_append, isCharBoundary, Bool.and_eq_true, decide_eq_true_eq]
    rw [byteLen_cons] at hindex
    have hrest : index + 1 - c.utf8Size = byteLen front := by omega
    rw [hrest]
    exact ⟨by omega, ih (List.prefix_append _ _)⟩

theorem le_floorBoundary {text : List Char} {index cut : Nat}
    (h : isCharBoundary text index = true) (hle : index ≤ cut) :
    index ≤ floorBoundary text cut := by
  induction cut with
  | zero => exact hle
  | succ cut ih =>
    rw [floorBoundary]
    split
    case isTrue _ => exact hle
    case isFalse hcut =>
      rcases Nat.le_succ_iff.mp hle with hle | rfl
      · exact ih hle
      · exact absurd h hcut

theorem prefix_of_byteLen_le {text front other : List Char} (hf : front <+: text)
    (ho : other <+: text) (h : byteLen front ≤ byteLen other) : front <+: other := by
  rcases List.prefix_or_prefix_of_prefix hf ho with hfront | ⟨rest, rfl⟩
  · exact hfront
  · have hrest := length_le_byteLen rest
    rw [byteLen_append] at h
    have hnil : rest = [] := List.eq_nil_of_length_eq_zero (by omega)
    rw [hnil, List.append_nil]

theorem clip_eq (limit : Nat) (text : List Char) :
    sliceTo text (floorBoundary text limit) = some (clip limit text) ∧
      clip limit text <+: text ∧ byteLen (clip limit text) = floorBoundary text limit := by
  obtain ⟨kept, hslice, hfront, hlen⟩ :=
    sliceTo_of_boundary (isCharBoundary_floorBoundary text limit)
  have hkept : clip limit text = kept := by rw [clip, hslice]; rfl
  rw [hkept]
  exact ⟨hslice, hfront, hlen⟩

/-- **A text is cut as late as its characters allow.** -/
theorem longestPrefix_clip (limit : Nat) (text : List Char) :
    LongestPrefix limit text (clip limit text) := by
  obtain ⟨_, hfront, hlen⟩ := clip_eq limit text
  refine ⟨hfront, hlen ▸ floorBoundary_le text limit, fun other ho hle => ?_⟩
  refine prefix_of_byteLen_le ho hfront ?_
  rw [hlen]
  exact le_floorBoundary (isCharBoundary_byteLen ho) hle

theorem clip_of_fits {limit : Nat} {text : List Char} (h : byteLen text ≤ limit) :
    clip limit text = text := by
  obtain ⟨hfront, _, hlongest⟩ := longestPrefix_clip limit text
  exact hfront.eq_of_length_le (hlongest text (List.prefix_refl _) h).length_le

/-- A character has at most 4 bytes. -/
theorem limit_lt_clip {limit : Nat} {text : List Char} (h : limit < byteLen text) :
    limit < floorBoundary text limit + 4 := by
  obtain ⟨⟨rest, hrest⟩, hle, hlongest⟩ := longestPrefix_clip limit text
  obtain ⟨_, _, hlen⟩ := clip_eq limit text
  cases rest with
  | nil =>
    rw [List.append_nil] at hrest
    rw [hrest] at hle
    omega
  | cons c rest =>
    by_contra hfar
    have hc := c.utf8Size_le_four
    have hnext : clip limit text ++ [c] <+: clip limit text := by
      refine hlongest _ ⟨rest, by rw [List.append_assoc]; exact hrest⟩ ?_
      rw [byteLen_append, hlen, byteLen_cons]
      have hnil : byteLen [] = 0 := rfl
      omega
    have hlength := hnext.length_le
    rw [List.length_append, List.length_singleton] at hlength
    omega

theorem searchBoundary_eq {text : List Char} : ∀ {steps cut : Nat},
    cut ≤ floorBoundary text cut + steps →
    searchBoundary text steps cut = some (floorBoundary text cut) := by
  intro steps
  induction steps with
  | zero =>
    intro cut h
    have hcut : floorBoundary text cut = cut := Nat.le_antisymm (floorBoundary_le text cut) h
    have hboundary := isCharBoundary_floorBoundary text cut
    rw [hcut] at hboundary ⊢
    rw [searchBoundary, if_pos hboundary]
  | succ steps ih =>
    intro cut h
    rw [searchBoundary]
    by_cases hcut : isCharBoundary text cut = true
    · have heq := Nat.le_antisymm (floorBoundary_le text cut) (le_floorBoundary hcut le_rfl)
      rw [if_pos hcut, heq]
    · rw [if_neg hcut]
      cases cut with
      | zero => exact absurd (isCharBoundary_floorBoundary text 0) hcut
      | succ cut =>
        rw [floorBoundary, if_neg hcut] at h ⊢
        rw [if_neg (Nat.succ_ne_zero cut), Nat.add_sub_cancel]
        exact ih (by omega)

/-! ### Letters -/

theorem isAlpha_of_letters {n : Nat} {choices : Choices n} {c : Char} (h : c ∈ letters choices) :
    c.isAlpha = true := by
  have hall : charset.all Char.isAlpha = true := by decide
  exact List.all_eq_true.mp hall c (mem_charset_of_letters h)

theorem byteLen_letters {n : Nat} (choices : Choices n) : byteLen (letters choices) = n := by
  have hall : (charset.all fun d => decide (d.utf8Size = 1)) = true := by decide
  rw [List.all_eq_true] at hall
  have hone : ∀ text : List Char, (∀ d ∈ text, d.utf8Size = 1) → byteLen text = text.length := by
    intro text h
    induction text with
    | nil => rfl
    | cons c text ih =>
      rw [byteLen_cons, h c List.mem_cons_self,
        ih fun d hd => h d (List.mem_cons_of_mem _ hd), List.length_cons, Nat.add_comm]
  have hletters : ∀ d ∈ letters choices, d.utf8Size = 1 :=
    fun d hd => of_decide_eq_true (hall d (mem_charset_of_letters hd))
  rw [hone _ hletters, length_letters]

theorem nul_notMem_letters {n : Nat} (choices : Choices n) : '\x00' ∉ letters choices := by
  intro h
  exact absurd (mem_charset_of_letters h) (by decide)

/-! ### What the server stores -/

/-- An identifier without its bytes after the 63rd. -/
def truncateIdentifier (ident : List Char) : List Char := clip 63 ident

def identOf : Lexeme → Option (List Char)
  | .ident name => some name
  | _ => none

/-- The database that a statement names first, as the server stores it. -/
def target (statement : List Char) : Option (List Char) := do
  let read ← lexemes statement
  return truncateIdentifier (← read.findSome? identOf)

section Generated

variable {parallelTestId : Choices 4} {template : List Char}

/-- What `new` keeps of a template, with the letters that it adds to a long one. -/
def templatePrefix (parallelTestId : Choices 4) (template : List Char) : List Char :=
  if byteLen template ≤ maxPrefixLen then template
  else clip maxPrefixLen template ++ '_' :: letters parallelTestId

theorem new_templatePrefix (parallelTestId : Choices 4) (template : List Char) :
    PostgresDatabaseName.new parallelTestId template =
      some ⟨template, templatePrefix parallelTestId template⟩ := new_eq parallelTestId template

theorem byteLen_templatePrefix (parallelTestId : Choices 4) (template : List Char) :
    byteLen (templatePrefix parallelTestId template) ≤ maxPrefixLen + 5 := by
  rw [templatePrefix]
  split
  case isTrue h => exact Nat.le_add_right_of_le h
  case isFalse _ =>
    have hclip := (longestPrefix_clip maxPrefixLen template).2.1
    have hmark : '_'.utf8Size = 1 := by decide
    rw [byteLen_append, byteLen_cons, byteLen_letters, hmark]
    omega

/-- A generated name, with the prefix of its template. -/
def generated (parallelTestId : Choices 4) (template : List Char) (id : Choices generatedIdLen) :
    List Char := templatePrefix parallelTestId template ++ '_' :: letters id

variable {id : Choices generatedIdLen}

theorem byteLen_generated : byteLen (generated parallelTestId template id) ≤ 63 := by
  have hfront := byteLen_templatePrefix parallelTestId template
  have hmark : '_'.utf8Size = 1 := by decide
  rw [generated, byteLen_append, byteLen_cons, byteLen_letters, hmark, generatedIdLen]
  rw [maxPrefixLen, generatedIdLen] at hfront
  omega

theorem nul_notMem_generated (h : '\x00' ∉ template) :
    '\x00' ∉ generated parallelTestId template id := by
  have hmark : '\x00' ≠ '_' := by decide
  have hfront : '\x00' ∉ templatePrefix parallelTestId template := by
    rw [templatePrefix]
    split
    case isTrue _ => exact h
    case isFalse _ =>
      have hfront := (longestPrefix_clip maxPrefixLen template).1
      have hclip : '\x00' ∉ clip maxPrefixLen template := fun hm => h (hfront.mem hm)
      simp [hmark, nul_notMem_letters, hclip]
  simp [generated, hmark, nul_notMem_letters, hfront]

end Generated

/-- What is created is what the server reads, and what the manager returns. -/
theorem created_name {manager : PostgresManager} {id : Choices generatedIdLen}
    {acquired : Except String Client} {databaseName : List Char}
    (h : createDdlDatabase manager id acquired = .ok databaseName) :
    databaseName = manager.templateDatabaseName.generateDatabaseName id ∧
      ∃ client, acquired = .ok client ∧ client (createQuery manager databaseName) = .ok () := by
  cases acquired with
  | error source => cases h
  | ok client =>
    have hcreate : createOnConnection manager client
        (manager.templateDatabaseName.generateDatabaseName id) = .ok databaseName := h
    rw [createOnConnection] at hcreate
    split at hcreate
    case h_1 => cases hcreate
    case h_2 hquery =>
      cases hcreate
      exact ⟨rfl, client, rfl, hquery⟩

/-- Where the connection takes the statement, the name that it has is returned. -/
theorem created_of_accepted {manager : PostgresManager} {id : Choices generatedIdLen}
    {client : Client} (h : client (createQuery manager
      (manager.templateDatabaseName.generateDatabaseName id)) = .ok ()) :
    createDdlDatabase manager id (.ok client) =
      .ok (manager.templateDatabaseName.generateDatabaseName id) := by
  rw [createDdlDatabase]
  show createOnConnection _ _ _ = _
  rw [createOnConnection, h]

theorem dropped_name {acquired : Except String Client} {databaseName : List Char}
    (h : dropDdlDatabase acquired databaseName = .ok ()) :
    ∃ client, acquired = .ok client ∧ client (dropQuery databaseName) = .ok () := by
  cases acquired with
  | error source => cases h
  | ok client =>
    have hdrop : dropOnConnection client databaseName = .ok () := h
    rw [dropOnConnection] at hdrop
    split at hdrop
    case h_1 => cases hdrop
    case h_2 hquery => exact ⟨client, rfl, hquery⟩

theorem target_createQuery {manager : PostgresManager} {databaseName : List Char}
    (ht : '\x00' ∉ manager.templateDatabaseName.templateName) (hn : '\x00' ∉ databaseName) :
    target (createQuery manager databaseName) = some (truncateIdentifier databaseName) := by
  rw [target, lexemes_createQuery ht hn]
  rfl

theorem target_dropQuery {databaseName : List Char} (hn : '\x00' ∉ databaseName) :
    target (dropQuery databaseName) = some (truncateIdentifier databaseName) := by
  rw [target, lexemes_dropQuery hn]
  rfl

/-- The template of a manager that has started is a name without NUL. -/
theorem nul_notMem_of_start {parallelTestId : Choices 4} {server : Server}
    {config : PostgresConfig} {manager : PostgresManager}
    (h : start parallelTestId server config = .ok manager) :
    '\x00' ∉ manager.templateDatabaseName.templateName := by
  obtain ⟨hexists, hnew⟩ := start_ok h
  obtain ⟨_, tokens, hp, _⟩ := databaseExists_iff.mp hexists
  rw [name_new hnew]
  intro hnul
  rw [patternTokens, if_pos hnul] at hp
  cases hp

/-! ### What `new` and `generate_database_name` promise -/

/-- A template of 25 bytes is its own prefix.  A longer one is cut where a character
ends, which the search finds in three steps, and has four letters more. -/
structure PrefixOf (parallelTestId : Choices 4) (template : List Char)
    (names : PostgresDatabaseName) : Prop where
  short : byteLen template ≤ 25 → names.prefixTemplate = template
  long : 25 < byteLen template → ∃ cut kept, searchBoundary template 3 25 = some cut ∧
    isCharBoundary template cut = true ∧ sliceTo template cut = some kept ∧
    LongestPrefix 25 template kept ∧
    names.prefixTemplate = kept ++ '_' :: letters parallelTestId
  fourLetters : (letters parallelTestId).length = 4 ∧
    ∀ c ∈ letters parallelTestId, c.isAlpha = true

/-- A generated name is the prefix, an underscore and 32 letters, and the server
stores it as it is. -/
structure NameFits (names : PostgresDatabaseName) (id : Choices generatedIdLen) : Prop where
  shape : names.generateDatabaseName id = names.prefixTemplate ++ '_' :: letters id
  letters : (letters id).length = 32 ∧ ∀ c ∈ letters id, c.isAlpha = true
  bytes : byteLen (names.generateDatabaseName id) ≤ 63
  stored : truncateIdentifier (names.generateDatabaseName id) = names.generateDatabaseName id

/-- The name that the manager returns is the one that it creates, and the one that it
drops when it is given this name; a manager that has started has a template without NUL. -/
structure NameServed (manager : PostgresManager) (databaseName : List Char) : Prop where
  dropped : ∀ acquired, dropDdlDatabase acquired databaseName = .ok () →
    ∃ client, acquired = .ok client ∧ client (dropQuery databaseName) = .ok ()
  read : '\x00' ∉ manager.templateDatabaseName.templateName →
    target (createQuery manager databaseName) = some databaseName ∧
      target (dropQuery databaseName) = some databaseName
  started : ∀ parallelTestId server config, start parallelTestId server config = .ok manager →
    target (createQuery manager databaseName) = some databaseName ∧
      target (dropQuery databaseName) = some databaseName

theorem prefixOf_new (parallelTestId : Choices 4) (template : List Char) :
    PrefixOf parallelTestId template ⟨template, templatePrefix parallelTestId template⟩ := by
  refine ⟨fun hshort => if_pos hshort, fun hlong => ?_, length_letters _,
    fun c hc => isAlpha_of_letters hc⟩
  obtain ⟨hslice, _, _⟩ := clip_eq maxPrefixLen template
  have hnear : 25 < floorBoundary template 25 + 4 := limit_lt_clip hlong
  exact ⟨_, _, searchBoundary_eq (Nat.le_of_lt_succ hnear), isCharBoundary_floorBoundary _ _,
    hslice, longestPrefix_clip _ _, if_neg (Nat.not_le_of_lt hlong)⟩

theorem nameFits_new (parallelTestId : Choices 4) (template : List Char)
    (id : Choices generatedIdLen) :
    NameFits ⟨template, templatePrefix parallelTestId template⟩ id :=
  ⟨rfl, ⟨length_letters _, fun _ hc => isAlpha_of_letters hc⟩, byteLen_generated,
    clip_of_fits byteLen_generated⟩

/-- The server reads a generated name as it is, in both statements. -/
theorem target_generated (parallelTestId : Choices 4) (manager : PostgresManager)
    (id : Choices generatedIdLen) (hnul : '\x00' ∉ manager.templateDatabaseName.templateName) :
    target (createQuery manager
        (generated parallelTestId manager.templateDatabaseName.templateName id)) =
      some (generated parallelTestId manager.templateDatabaseName.templateName id) ∧
    target (dropQuery (generated parallelTestId manager.templateDatabaseName.templateName id)) =
      some (generated parallelTestId manager.templateDatabaseName.templateName id) := by
  have hclip : truncateIdentifier
      (generated parallelTestId manager.templateDatabaseName.templateName id) =
        generated parallelTestId manager.templateDatabaseName.templateName id :=
    clip_of_fits byteLen_generated
  have hn : '\x00' ∉ generated parallelTestId manager.templateDatabaseName.templateName id :=
    nul_notMem_generated hnul
  have hcreate := target_createQuery hnul hn
  have hdrop := target_dropQuery hn
  rw [hclip] at hcreate hdrop
  exact ⟨hcreate, hdrop⟩

theorem nameServed_generated (parallelTestId : Choices 4) (manager : PostgresManager)
    (id : Choices generatedIdLen) :
    NameServed manager
      (generated parallelTestId manager.templateDatabaseName.templateName id) where
  dropped := fun _ h => dropped_name h
  read := target_generated parallelTestId manager id
  started := fun _ _ _ h => target_generated parallelTestId manager id (nul_notMem_of_start h)

/-- **Generated names fit.**

`new` returns a prefix of every template, whatever its letters are, and a name that
is generated from it has 63 bytes at most.  So the server stores it as it is.  Where
a connection takes the statement, the manager returns this name, for its sessions to
connect to, and what it returns is always the database that its statement creates,
and the one that a statement with this name drops. -/
theorem generated_names_fit (parallelTestId : Choices 4) (template : List Char) :
    ∃ names, PostgresDatabaseName.new parallelTestId template = some names ∧
      names.templateName = template ∧ PrefixOf parallelTestId template names ∧
      ∀ id, NameFits names id ∧
        ∀ manager : PostgresManager, manager.templateDatabaseName = names →
          NameServed manager (names.generateDatabaseName id) ∧
          (∀ client, client (createQuery manager (names.generateDatabaseName id)) = .ok () →
            createDdlDatabase manager id (.ok client) = .ok (names.generateDatabaseName id)) ∧
          ∀ acquired databaseName, createDdlDatabase manager id acquired = .ok databaseName →
            databaseName = names.generateDatabaseName id ∧ ∃ client, acquired = .ok client ∧
              client (createQuery manager databaseName) = .ok () := by
  refine ⟨_, new_templatePrefix parallelTestId template, rfl, prefixOf_new _ _,
    fun id => ⟨nameFits_new _ _ id, fun manager hm => ⟨?_, fun client haccepts => ?_,
      fun acquired databaseName h => ?_⟩⟩⟩
  · have hserved := nameServed_generated parallelTestId manager id
    rw [hm] at hserved
    exact hserved
  · rw [← hm] at haccepts ⊢
    exact created_of_accepted haccepts
  · obtain ⟨hname, hclient⟩ := created_name h
    rw [hm] at hname
    exact ⟨hname, hclient⟩

/-- A template of 26 bytes whose 25th is inside a letter. -/
theorem generated_names_fit_accented : ∃ names,
    PostgresDatabaseName.new (.replicate _ Sample.letter) (.replicate 13 'é') = some names ∧
      names.prefixTemplate = .replicate 12 'é' ++ '_' :: letters (.replicate 4 Sample.letter) ∧
      ∀ (client : Client) (id : Choices generatedIdLen),
        byteLen (names.generateDatabaseName id) ≤ 63 ∧
        (client (createQuery ⟨18, "localhost", 5432, names, 10⟩ (names.generateDatabaseName id)) =
            .ok () →
          createDdlDatabase ⟨18, "localhost", 5432, names, 10⟩ id (.ok client) =
            .ok (names.generateDatabaseName id)) := by
  obtain ⟨names, hnew, _, hprefix, hall⟩ :=
    generated_names_fit (.replicate _ Sample.letter) (.replicate 13 'é')
  refine ⟨names, hnew, ?_, fun client id => ⟨(hall id).1.bytes, ((hall id).2 _ rfl).2.1 client⟩⟩
  obtain ⟨cut, kept, hcut, _, hkept, _, heq⟩ := hprefix.long (by decide)
  have hboundary : searchBoundary (.replicate 13 'é') 3 25 = some 24 := by decide
  cases hboundary.symm.trans hcut
  have hslice : sliceTo (.replicate 13 'é') 24 = some (.replicate 12 'é') := by decide
  cases hslice.symm.trans hkept
  exact heq

end PgTest.Operations
