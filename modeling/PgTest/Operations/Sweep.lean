import Mathlib.Data.List.ReduceOption
import PgTest.Lib.Machine
import PgTest.Operations.Manager

/-!
# What the startup sweep drops

The pattern of the sweep is the name of the template, read as a pattern itself,
with `_%` after it.  So it takes every name that is longer than some match of the
template, and it misses a clone whose name is no longer such a match.

Both theorems say for which templates this goes well.  For the first one that is
when the shortest match of the template has no room for another byte.  For the
second one it is when the pattern matches the shape of a clone's name, in which no
literal can stand for a random letter.
-/

namespace PgTest.Operations

open PgTest.Lib

variable {parallelTestId : Choices 4} {server : Server} {config : PostgresConfig}
variable {manager : PostgresManager}

/-! ### The pattern of the sweep -/

theorem patternTokens_sweep {pattern : List Char} {tokens : List (Token Char)}
    (h : patternTokens pattern = some tokens) :
    patternTokens (pattern ++ ['_', '%']) = some (tokens ++ [.any, .many]) := by
  rw [patternTokens] at h
  split at h
  · cases h
  case isFalse hnul =>
    have hnul' : '\x00' ∉ pattern ++ ['_', '%'] := by
      rw [List.mem_append]
      rintro (h | h)
      · exact hnul h
      · exact absurd h (by decide)
    rw [patternTokens, if_neg hnul', Like.parse_append h]

/-- A template that `start` accepts is a pattern that some database matches. -/
theorem start_ok (h : start parallelTestId server config = .ok manager) :
    databaseExists server config.pgDatabase = .ok () ∧
      PostgresDatabaseName.new parallelTestId config.pgDatabase =
        some manager.templateDatabaseName := by
  rw [start] at h
  split at h
  · cases h
  split at h
  · cases h
  obtain ⟨_, _, h⟩ := bind_ok h
  obtain ⟨_, h1, h⟩ := bind_ok h
  obtain ⟨version, _, h⟩ := bind_ok h
  obtain ⟨_, _, h⟩ := bind_ok h
  split at h
  · cases h
  case h_2 names hn =>
    cases h
    exact ⟨h1, hn⟩

theorem databaseExists_iff {databaseName : List Char} :
    databaseExists server databaseName = .ok () ↔ server.lists = true ∧
      ∃ tokens, patternTokens databaseName = some tokens ∧
        ∃ database ∈ server.databases, Matches Eq tokens database.value := by
  rw [databaseExists]
  split
  case isFalse hl =>
    constructor
    · intro h
      cases h
    · exact fun h => absurd h.1 hl
  case isTrue hl =>
  rw [listDatabases]
  cases hp : patternTokens databaseName with
  | none =>
    constructor
    · intro h
      cases h
    · rintro ⟨_, tokens, heq, _⟩
      cases heq
  | some tokens =>
    simp only [Option.map_some]
    split
    case isTrue he =>
      constructor
      · intro h
        cases h
      rintro ⟨_, _, heq, database, hd, hm⟩
      cases heq
      rw [List.isEmpty_iff, List.filter_eq_nil_iff] at he
      exact absurd (matchesText_eq.mpr hm) (he database hd)
    case isFalse he =>
      refine ⟨fun _ => ⟨hl, tokens, rfl, ?_⟩, fun _ => rfl⟩
      rw [List.isEmpty_iff] at he
      obtain ⟨database, hd⟩ := List.exists_mem_of_ne_nil _ he
      obtain ⟨hd, hm⟩ := List.mem_filter.mp hd
      exact ⟨database, hd, matchesText_eq.mp hm⟩

/-- Another database does not stop `start`. -/
theorem start_cons (h : start parallelTestId server config = .ok manager) (database : DatName) :
    start parallelTestId { server with databases := database :: server.databases } config =
      .ok manager := by
  have h1 := (start_ok h).1
  have h2 : databaseExists { server with databases := database :: server.databases }
      config.pgDatabase = .ok () := by
    obtain ⟨hl, tokens, hp, other, ho, hm⟩ := databaseExists_iff.mp h1
    exact databaseExists_iff.mpr ⟨hl, tokens, hp, other, List.mem_cons_of_mem _ ho, hm⟩
  rw [← h]
  simp only [start, h1, h2]
  rfl

/-! ### What is swept -/

/-- The bytes that a name needs to be matched by a template, as a pattern. -/
def leastBytes (template : List Char) : Option Nat :=
  (patternTokens template).map (least Char.utf8Size 1)

theorem name_new {names : PostgresDatabaseName} {template : List Char}
    (h : PostgresDatabaseName.new parallelTestId template = some names) :
    names.templateName = template := by
  obtain ⟨prefixTemplate, _, h⟩ := Option.bind_eq_some_iff.mp h
  cases h
  rfl

/-- The sweep selects what is longer than a match of the template. -/
theorem mem_selected {databases rows : List DatName} {tokens : List (Token Char)}
    (h : start parallelTestId server config = .ok manager)
    (hp : patternTokens config.pgDatabase = some tokens)
    (hs : selected manager databases = some rows) {name : DatName} :
    name ∈ rows ↔ name ∈ databases ∧ Matches Eq (tokens ++ [.any, .many]) name.value := by
  refine mem_listDatabases ?_ hs
  rw [sweepPattern, name_new (start_ok h).2]
  exact patternTokens_sweep hp

theorem byteLen_append (left right : List Char) :
    byteLen (left ++ right) = byteLen left + byteLen right := by
  rw [byteLen, List.map_append, List.sum_append]
  rfl

/-- A generated name ends in a letter. -/
theorem not_generated {template start : List Char} {c : Char} (hc : c ∉ charset) :
    ¬Generated template (start ++ [c]) := by
  intro h
  obtain ⟨front, id, heq⟩ := h.ends
  rcases List.eq_nil_or_concat (letters id) with hnil | ⟨init, d, hd⟩
  · have hlen := length_letters id
    rw [hnil] at hlen
    cases hlen
  · rw [List.concat_eq_append] at hd
    have hd' : d ∈ letters id := by
      rw [hd]
      exact List.mem_append_right _ List.mem_cons_self
    rw [hd, ← List.cons_append, ← List.append_assoc] at heq
    have hcd : [c] = [d] := (List.append_inj' heq rfl).2
    exact hc ((List.singleton_inj.mp hcd) ▸ mem_charset_of_letters hd')

/-- A name that the sweep selects by mistake, if there is room for it. -/
theorem exists_stray {tokens : List (Token Char)} {database : DatName}
    (hm : Matches Eq tokens database.value) (hlt : least Char.utf8Size 1 tokens < 63) :
    ∃ name : DatName, Matches Eq (tokens ++ [.any, .many]) name.value ∧
      ∀ template, ¬Generated template name.value := by
  have hfits : byteLen (shortest 'a' tokens ++ ['!']) ≤ 63 := by
    have h1 : byteLen (shortest 'a' tokens) = least Char.utf8Size 1 tokens :=
      sum_shortest (by decide) tokens
    have h2 : byteLen ['!'] = 1 := by decide
    rw [byteLen_append]
    omega
  have hnul : '\x00' ∉ shortest 'a' tokens ++ ['!'] := by
    rw [List.mem_append]
    rintro (h | h)
    · rcases mem_shortest h with h | h
      · obtain ⟨b, hb, rfl⟩ := hm.exists_of_lit h
        exact database.nulFree hb
      · exact absurd h (by decide)
    · exact absurd h (by decide)
  refine ⟨⟨shortest 'a' tokens ++ ['!'], List.append_ne_nil_of_right_ne_nil _ (by decide), hfits,
    hnul⟩, ?_, fun template => not_generated (by decide)⟩
  exact (matches_shortest 'a' tokens).append (matches_any_many.mpr (by decide))

/-- **The sweep drops clones of its own only** if the template leaves no room for
anything else. -/
theorem sweep_own_clones_iff (config : PostgresConfig) :
    (∀ parallelTestId server manager rows, start parallelTestId server config = .ok manager →
      selected manager server.databases = some rows →
      ∀ name ∈ rows, Generated config.pgDatabase name.value) ↔
    ∀ parallelTestId server manager, start parallelTestId server config = .ok manager →
      leastBytes config.pgDatabase = some 63 := by
  constructor
  · intro h parallelTestId server manager hs
    obtain ⟨_, tokens, hp, database, _, hm⟩ := databaseExists_iff.mp (start_ok hs).1
    have hle : least Char.utf8Size 1 tokens ≤ 63 :=
      le_trans (hm.least_le fun c => c.utf8Size_pos) database.fits
    rw [leastBytes, hp]
    refine congrArg some (le_antisymm hle (not_lt.mp fun hlt => ?_))
    obtain ⟨name, hname, hstray⟩ := exists_stray hm hlt
    have hs' := start_cons hs name
    obtain ⟨rows, hsel⟩ : ∃ rows, selected manager (name :: server.databases) = some rows := by
      rw [selected, listDatabases, sweepPattern, name_new (start_ok hs).2, patternTokens_sweep hp]
      exact ⟨_, rfl⟩
    have hin := (mem_selected hs hp hsel).mpr ⟨List.mem_cons_self, hname⟩
    exact hstray _ (h _ _ _ _ hs' hsel name hin)
  · intro h parallelTestId server manager rows hs hsel name hin
    obtain ⟨tokens, hp, hleast⟩ := Option.map_eq_some_iff.mp (h _ _ _ hs)
    obtain ⟨_, hm⟩ := (mem_selected hs hp hsel).mp hin
    -- a match has a byte more than the template needs
    have hle : least Char.utf8Size 1 (tokens ++ [.any, .many]) ≤ byteLen name.value :=
      hm.least_le fun c => c.utf8Size_pos
    have hsum : least Char.utf8Size 1 (tokens ++ [.any, .many]) =
        least Char.utf8Size 1 tokens + 1 := by
      rw [least, List.map_append, List.sum_append]
      rfl
    have hfits := name.fits
    omega

namespace Sample

def letter : Fin charset.length := ⟨0, by decide⟩

def settings (template : List Char) : PostgresConfig where
  pgHost := "127.0.0.1"
  pgPort := 5432
  pgUser := "postgres"
  pgDatabase := template
  creationPoolConnection := 10
  cleanupPoolConnection := 5

def pgtest : DatName := ⟨"pgtest".toList, by decide, by decide, by decide⟩
def pgtest2 : DatName := ⟨"pgtest2".toList, by decide, by decide, by decide⟩

/-- A server with two templates. -/
def postgres : Server where
  databases := [pgtest, pgtest2]
  connects _ := true
  lists := true
  versionNumber := some 180000

end Sample

/-- The sweep for `pgtest` drops the template `pgtest2`. -/
theorem sweep_drops_template :
    ¬∀ parallelTestId manager rows,
      start parallelTestId Sample.postgres (Sample.settings "pgtest".toList) = .ok manager →
      selected manager Sample.postgres.databases = some rows →
      ∀ name ∈ rows, Generated "pgtest".toList name.value := by
  intro h
  have hrun : ((start (.replicate 4 Sample.letter) Sample.postgres
      (Sample.settings "pgtest".toList)).toOption.any fun manager =>
        (selected manager Sample.postgres.databases).any
          (decide <| Sample.pgtest2 ∈ ·)) = true := by
    decide
  obtain ⟨manager, hs, hany⟩ := ok_of_any hrun
  obtain ⟨rows, hsel, hin⟩ := (Option.any_eq_true _ _).mp hany
  obtain ⟨front, id, heq⟩ := (h _ manager rows hs hsel _ (of_decide_eq_true hin)).ends
  have hlen := congrArg List.length heq
  rw [List.length_append, List.length_cons, length_letters] at hlen
  have hshort : Sample.pgtest2.value.length = 7 := by decide
  rw [hshort, generatedIdLen] at hlen
  omega

/-! ### What is found -/

/-- The characters that `truncate` keeps of a long name. -/
def kept (template : List Char) : List Char :=
  (sliceTo template (floorBoundary template maxPrefixLen)).getD []

/-- A generated name, with `none` for its random letters. -/
def shape (template : List Char) : List (Option Char) :=
  (if byteLen template ≤ maxPrefixLen then template.map some
    else (kept template).map some ++ some '_' :: List.replicate 4 none) ++
    some '_' :: List.replicate generatedIdLen none

/-- The character is the one that is asked for, if there is one. -/
def Covers (o : Option Char) (c : Char) : Prop := ∀ a, o = some a → a = c

theorem covers_some (text : List Char) : List.Forall₂ Covers (text.map some) text := by
  rw [List.forall₂_map_left_iff, List.forall₂_same]
  intro c _ a h
  exact (Option.some.inj h).symm

theorem covers_replicate (text : List Char) :
    List.Forall₂ Covers (List.replicate text.length none) text := by
  induction text with
  | nil => exact .nil
  | cons c text ih => exact .cons nofun ih

theorem covers_letters {n : Nat} (choices : Choices n) :
    List.Forall₂ Covers (some '_' :: List.replicate n none) ('_' :: letters choices) := by
  have h := covers_replicate (letters choices)
  rw [length_letters] at h
  exact .cons (fun a ha => (Option.some.inj ha).symm) h

/-- What `new` makes of a template. -/
theorem new_eq (parallelTestId : Choices 4) (template : List Char) :
    PostgresDatabaseName.new parallelTestId template =
      some ⟨template, if byteLen template ≤ maxPrefixLen then template
        else kept template ++ '_' :: letters parallelTestId⟩ := by
  rw [PostgresDatabaseName.new, truncate]
  split
  · rfl
  · obtain ⟨text, h1, _⟩ := exists_kept template
    rw [kept, h1]
    rfl

/-- **Every generated name has the shape.** -/
theorem covers_generated {names : PostgresDatabaseName} {template : List Char}
    (h : PostgresDatabaseName.new parallelTestId template = some names)
    (id : Choices generatedIdLen) :
    List.Forall₂ Covers (shape template) (names.generateDatabaseName id) := by
  rw [new_eq] at h
  cases h
  refine List.rel_append ?_ (covers_letters id)
  split
  · exact covers_some template
  · exact List.rel_append (covers_some _) (covers_letters parallelTestId)

/-- The characters of a generated name that are not random. -/
def fixed (template : List Char) : List Char := (shape template).reduceOption

theorem reduceOption_literals (text : List Char) : (text.map some).reduceOption = text := by
  induction text with
  | nil => rfl
  | cons c text ih => rw [List.map_cons, List.reduceOption_cons_of_some, ih]

theorem length_fixed_le (template : List Char) : (fixed template).length ≤ 27 := by
  rw [fixed, shape]
  split
  case isTrue h =>
    have hlen := length_le_byteLen template
    simp only [List.reduceOption_append, List.reduceOption_cons_of_some,
      List.reduceOption_replicate_none, reduceOption_literals, List.length_append,
      List.length_singleton]
    rw [maxPrefixLen, generatedIdLen] at h
    omega
  case isFalse _ =>
    obtain ⟨text, h1, _, h2⟩ := exists_kept template
    have hlen := length_le_byteLen text
    have hkept : kept template = text := by rw [kept, h1]; rfl
    simp only [List.reduceOption_append, List.reduceOption_cons_of_some,
      List.reduceOption_replicate_none, reduceOption_literals, List.length_append,
      List.length_singleton, hkept]
    rw [maxPrefixLen, generatedIdLen] at h2
    omega

/-- A letter that is not among a few characters. -/
theorem exists_letter (chars : List Char) (h : chars.length < 52) :
    ∃ c ∈ charset, c ∉ chars := by
  have hnodup : charset.Nodup := by decide
  have hcard : chars.toFinset.card < charset.toFinset.card := by
    rw [List.toFinset_card_of_nodup hnodup]
    exact lt_of_le_of_lt (List.toFinset_card_le chars) h
  obtain ⟨c, h1, h2⟩ := Finset.exists_mem_notMem_of_card_lt_card hcard
  exact ⟨c, List.mem_toFinset.mp h1, fun hc => h2 (List.mem_toFinset.mpr hc)⟩

/-- The same letter every time. -/
def constant (index : Fin charset.length) (n : Nat) : Choices n := .replicate n index

theorem letters_constant (index : Fin charset.length) (n : Nat) :
    letters (constant index n) = List.replicate n (charset.get index) := by
  show (List.replicate n index).map charset.get = _
  rw [List.map_replicate]

/-- The name that is generated with one letter is the shape with this letter. -/
theorem constant_generated (index : Fin charset.length) (template : List Char) :
    ∃ names, PostgresDatabaseName.new (constant index 4) template = some names ∧
      names.generateDatabaseName (constant index generatedIdLen) =
        (shape template).map (·.getD (charset.get index)) := by
  refine ⟨_, new_eq _ template, ?_⟩
  have hsome : ∀ text : List Char,
      (text.map some).map (·.getD (charset.get index)) = text := fun text => by
    rw [List.map_map]
    exact List.map_id _
  rw [PostgresDatabaseName.generateDatabaseName, shape, List.map_append, List.map_cons,
    List.map_replicate, letters_constant]
  split
  · rw [hsome]
    rfl
  · rw [List.map_append, hsome, List.map_cons, List.map_replicate, letters_constant]
    rfl

/-- The pattern of the sweep matches the shape, where no literal stands for a random
letter. -/
def MatchesShape (template : List Char) : Prop :=
  ∃ tokens, patternTokens (template ++ ['_', '%']) = some tokens ∧
    Matches (fun a o => o = some a) tokens (shape template)

/-- **Without special characters** the pattern matches the shape of short templates
only: of a longer one it asks for characters that the clones have lost. -/
theorem matchesShape_iff_of_plain {template : List Char} (hnul : '\x00' ∉ template)
    (h1 : '\\' ∉ template) (h2 : '_' ∉ template) (h3 : '%' ∉ template) :
    MatchesShape template ↔ byteLen template ≤ maxPrefixLen := by
  have hp : patternTokens (template ++ ['_', '%']) =
      some (template.map .lit ++ [.any, .many]) := by
    refine patternTokens_sweep ?_
    rw [patternTokens, if_neg hnul, Like.parse_plain h1 h2 h3]
  constructor
  · rintro ⟨tokens, hp', hm⟩
    rw [hp] at hp'
    cases hp'
    by_contra hlong
    obtain ⟨text, hslice, ⟨lost, rfl⟩, hlen⟩ := exists_kept template
    have hkept : kept (text ++ lost) = text := by rw [kept, hslice]; rfl
    obtain ⟨s, t, hshape, hlits, _⟩ := hm.of_append
    have hs : s = (text ++ lost).map some := by
      have heq := matches_literals.mp hlits
      rw [← List.forall₂_eq_eq_eq, List.forall₂_map_right_iff]
      exact heq.flip.imp fun _ _ h => h
    rw [shape, if_neg hlong, hkept, hs, List.map_append, List.append_assoc,
      List.append_assoc] at hshape
    -- after what was kept, the name has an underscore and the template a character
    have hrest := List.append_cancel_left hshape
    cases lost with
    | nil =>
      rw [List.append_nil] at hlong
      exact hlong hlen
    | cons c lost =>
      have hc : some '_' = some c := (List.cons.inj hrest).1
      cases hc
      exact h2 (List.mem_append_right _ List.mem_cons_self)
  · intro hshort
    refine ⟨_, hp, ?_⟩
    rw [shape, if_pos hshort]
    refine Matches.append (matches_literals.mpr ?_) (matches_any_many.mpr (List.cons_ne_nil _ _))
    rw [List.forall₂_map_right_iff, List.forall₂_same]
    exact fun _ _ => rfl

/-- **The sweep finds every clone** exactly if its pattern matches the shape of their
names. -/
theorem sweep_finds_clones_iff (template : List Char) :
    (∀ parallelTestId parallelTestId' names names' id,
      PostgresDatabaseName.new parallelTestId template = some names →
      PostgresDatabaseName.new parallelTestId' template = some names' →
      like (sweepPattern names') (names.generateDatabaseName id) = some true) ↔
    MatchesShape template := by
  constructor
  · intro h
    have hlike : ∀ index : Fin charset.length, ∃ tokens,
        patternTokens (template ++ ['_', '%']) = some tokens ∧
        Matches Eq tokens ((shape template).map (·.getD (charset.get index))) := by
      intro index
      obtain ⟨names, hnew, hname⟩ := constant_generated index template
      have hm := h _ _ names names (constant index generatedIdLen) hnew hnew
      rw [sweepPattern, name_new hnew, hname] at hm
      exact like_iff.mp hm
    -- with any letter the literals are among the fixed characters and this letter
    obtain ⟨tokens, hp, hm⟩ := hlike Sample.letter
    obtain ⟨c, hc, hfree⟩ := exists_letter (charset.get Sample.letter :: fixed template)
      (lt_of_le_of_lt (Nat.succ_le_succ (length_fixed_le template)) (by decide))
    have hlit : .lit c ∉ tokens := by
      intro hlit
      obtain ⟨b, hb, rfl⟩ := hm.exists_of_lit hlit
      obtain ⟨o, ho, heq⟩ := List.mem_map.mp hb
      cases o with
      | none => exact hfree (heq ▸ List.mem_cons_self)
      | some a =>
        have ha : a ∈ fixed template := List.mem_filterMap.mpr ⟨some a, ho, rfl⟩
        exact hfree (List.mem_cons_of_mem _ (heq ▸ ha))
    -- so no literal stands for a random letter that is another one
    obtain ⟨index, hindex⟩ := List.mem_iff_get.mp hc
    obtain ⟨tokens', hp', hm'⟩ := hlike index
    rw [hp] at hp'
    cases hp'
    refine ⟨tokens, hp, hm'.transfer (R := fun b o => b = o.getD c) ?_ fun a ha b o hR hfit => ?_⟩
    · rw [hindex, List.forall₂_map_left_iff, List.forall₂_same]
      exact fun _ _ => rfl
    · have hfit : a = b := hfit
      subst hfit
      cases o with
      | none =>
        have hac : a = c := hR
        rw [hac] at ha
        exact absurd ha hlit
      | some d => exact congrArg some (hR : a = d).symm
  · rintro ⟨tokens, hp, hm⟩ parallelTestId parallelTestId' names names' id hnew hnew'
    rw [like_iff, sweepPattern, name_new hnew']
    exact ⟨tokens, hp, hm.transfer (covers_generated hnew id) fun a _ o c hR ho => hR a ho⟩

/-- No clone of a template of 26 letters is found. -/
theorem sweep_misses_clones :
    ¬∀ parallelTestId parallelTestId' names names' id,
      PostgresDatabaseName.new parallelTestId (List.replicate 26 'a') = some names →
      PostgresDatabaseName.new parallelTestId' (List.replicate 26 'a') = some names' →
      like (sweepPattern names') (names.generateDatabaseName id) = some true := by
  intro h
  have hnew := new_eq (constant Sample.letter 4) (List.replicate 26 'a')
  have hmiss := h _ _ _ _ (constant Sample.letter generatedIdLen) hnew hnew
  revert hmiss
  decide

end PgTest.Operations
