import PgTest.Operations.Sweep

/-!
# Which templates are found

`database_exists` asks for the databases whose name is `LIKE` the template, which is
not the template itself where this has special characters: then another database
can be found in its place, and one whose name ends in a backslash is not found.
-/

namespace PgTest.Operations

open PgTest.Lib

/-- A text without the special characters of a pattern. -/
def Plain (text : List Char) : Prop := '\\' ∉ text ∧ '_' ∉ text ∧ '%' ∉ text

/-- The bytes of the shortest name that a template matches, or those of the template
where it is no pattern. -/
def neededBytes (template : List Char) : Nat := (leastBytes template).getD (byteLen template)

/-- A server that lists these databases. -/
def listing (databases : List DatName) : Server where
  databases := databases
  connects _ := true
  lists := true
  versionNumber := none

/-! ### Texts that a pattern finds -/

theorem matches_of_plain {template : List Char} (hnul : '\x00' ∉ template) (h : Plain template) :
    patternTokens template = some (template.map .lit) ∧
      ∀ {text}, Matches Eq (template.map .lit) text ↔ text = template := by
  obtain ⟨h1, h2, h3⟩ := h
  refine ⟨by rw [patternTokens, if_neg hnul, Like.parse_plain h1 h2 h3], fun {text} => ?_⟩
  rw [matches_literals, List.forall₂_eq_eq_eq]
  exact eq_comm

theorem ne_nil_of_not_plain {template : List Char} (h : ¬Plain template) : template ≠ [] := by
  rintro rfl
  exact h ⟨List.not_mem_nil, List.not_mem_nil, List.not_mem_nil⟩

theorem byteLen_pos {text : List Char} (h : text ≠ []) : 0 < byteLen text :=
  Nat.lt_of_lt_of_le (List.length_pos_of_ne_nil h) (length_le_byteLen text)

/-- The name of the literals of a pattern, with one letter for each wildcard. -/
theorem exists_shortest {tokens : List (Token Char)} {x : Char} (hx : x.utf8Size = 1)
    (hnul : x ≠ '\x00') (hlit : .lit '\x00' ∉ tokens) (hle : least Char.utf8Size 1 tokens ≤ 63)
    (hne : shortest x tokens ≠ []) :
    ∃ name : DatName, Matches Eq tokens name.value ∧ name.value = shortest x tokens := by
  have hfits : byteLen (shortest x tokens) ≤ 63 := le_trans (le_of_eq (sum_shortest hx tokens)) hle
  have hfree : '\x00' ∉ shortest x tokens := by
    intro hm
    rcases mem_shortest hm with hm | hm
    · exact hlit hm
    · exact hnul hm.symm
  exact ⟨⟨_, hne, hfits, hfree⟩, matches_shortest x tokens, rfl⟩

/-- **A template with special characters finds another database** than its own, if
there is room for a match. -/
theorem exists_other {template : List Char} {tokens : List (Token Char)}
    (hp : patternTokens template = some tokens) (hspecial : ¬Plain template)
    (hle : least Char.utf8Size 1 tokens ≤ 63) :
    ∃ name : DatName, Matches Eq tokens name.value ∧ name.value ≠ template := by
  rw [patternTokens] at hp
  split at hp
  case isTrue _ => cases hp
  case isFalse hnul =>
  have hlit : .lit '\x00' ∉ tokens := fun hm => hnul (Like.mem_of_parse hp hm)
  have hbytes : ∀ x : Char, x.utf8Size = 1 →
      byteLen (shortest x tokens) = least Char.utf8Size 1 tokens :=
    fun x hx => sum_shortest hx tokens
  obtain ⟨hshort, hstrict⟩ := Like.least_parse Char.utf8Size_pos hp
  by_cases hsame : least Char.utf8Size 1 tokens = byteLen template
  · -- only underscores are special, so there are two ways to fill one
    have hmark : .any ∈ tokens := by
      have hno : ¬('\\' ∈ template ∨ '%' ∈ template) :=
        fun hs => absurd hsame (Nat.ne_of_lt (hstrict hs))
      rw [not_or] at hno
      refine Like.any_mem_of_parse hp hno.1 (by_contra fun hm => hspecial ⟨hno.1, hm, hno.2⟩)
    have hpos := byteLen_pos (ne_nil_of_not_plain hspecial)
    have hne : ∀ x : Char, x.utf8Size = 1 → shortest x tokens ≠ [] := by
      intro x hx hnil
      have hzero := hbytes x hx
      rw [hnil, hsame] at hzero
      exact absurd hzero (Nat.ne_of_lt hpos)
    obtain ⟨name, hm, hname⟩ := exists_shortest (x := 'a') (by decide) (by decide) hlit hle
      (hne 'a' (by decide))
    obtain ⟨other, ho, hother⟩ := exists_shortest (x := 'b') (by decide) (by decide) hlit hle
      (hne 'b' (by decide))
    by_cases heq : name.value = template
    · refine ⟨other, ho, fun heq' => shortest_ne (x := 'a') (y := 'b') (by decide) hmark ?_⟩
      rw [← hname, ← hother, heq, heq']
    · exact ⟨name, hm, heq⟩
  · by_cases hnil : shortest 'a' tokens = []
    · have htokens : tokens ≠ [] := by
        rintro rfl
        exact ne_nil_of_not_plain hspecial (Like.parse_eq_nil hp)
      refine ⟨⟨['a'], by decide, by decide, by decide⟩, matches_of_shortest_nil htokens hnil _, ?_⟩
      rintro rfl
      exact hspecial (by unfold Plain; decide)
    · obtain ⟨name, hm, hname⟩ := exists_shortest (x := 'a') (by decide) (by decide) hlit hle hnil
      refine ⟨name, hm, fun heq => hsame ?_⟩
      rw [← heq, hname, hbytes 'a' (by decide)]

/-- The templates that are found exactly if they exist. -/
def Exact (template : List Char) : Prop :=
  '\x00' ∈ template ∨ Plain template ∨ 63 < neededBytes template

/-- **A single database is misjudged** by any other template. -/
theorem exists_misjudged {template : List Char} (h : ¬Exact template) :
    ∃ database : DatName,
      ¬(databaseExists (listing [database]) template = .ok () ↔ database.value = template) := by
  rw [Exact, not_or, not_or, Nat.not_lt] at h
  obtain ⟨hnul, hspecial, hneeded⟩ := h
  rw [neededBytes, leastBytes] at hneeded
  cases hp : patternTokens template with
  | none =>
    -- the template exists, and is not found
    rw [hp] at hneeded
    refine ⟨⟨template, ne_nil_of_not_plain hspecial, hneeded, hnul⟩, fun h => ?_⟩
    obtain ⟨_, tokens, heq, _⟩ := databaseExists_iff.mp (h.mpr rfl)
    rw [hp] at heq
    cases heq
  | some tokens =>
    -- another database is found
    rw [hp] at hneeded
    obtain ⟨name, hm, hne⟩ := exists_other hp hspecial hneeded
    refine ⟨name, fun h => hne (h.mp ?_)⟩
    exact databaseExists_iff.mpr ⟨rfl, tokens, hp, name, List.mem_cons_self, hm⟩

theorem eq_of_matches {template : List Char} (h : Exact template) {tokens : List (Token Char)}
    (hp : patternTokens template = some tokens) {database : DatName}
    (hm : Matches Eq tokens database.value) : database.value = template := by
  have hnul : '\x00' ∉ template := by
    intro hnul
    rw [patternTokens, if_pos hnul] at hp
    cases hp
  rcases h with h | hplain | hlong
  · exact absurd h hnul
  · obtain ⟨hp', hiff⟩ := matches_of_plain hnul hplain
    rw [hp'] at hp
    cases hp
    exact hiff.mp hm
  · have hleast : least Char.utf8Size 1 tokens ≤ byteLen database.value :=
      hm.least_le fun c => c.utf8Size_pos
    rw [neededBytes, leastBytes, hp] at hlong
    exact absurd (le_trans hleast database.fits) (Nat.not_le_of_lt hlong)

theorem matches_self {database : DatName} (h : Exact database.value) :
    ∃ tokens, patternTokens database.value = some tokens ∧ Matches Eq tokens database.value := by
  rcases h with hnul | hplain | hlong
  · exact absurd hnul database.nulFree
  · obtain ⟨hp, hiff⟩ := matches_of_plain database.nulFree hplain
    exact ⟨_, hp, hiff.mpr rfl⟩
  · refine absurd database.fits (Nat.not_le_of_lt ?_)
    rw [neededBytes, leastBytes] at hlong
    cases hp : patternTokens database.value with
    | none => rwa [hp] at hlong
    | some tokens =>
      rw [hp] at hlong
      rw [patternTokens, if_neg database.nulFree] at hp
      exact Nat.lt_of_lt_of_le hlong (Like.least_parse Char.utf8Size_pos hp).1

/-- **Exactly the existing templates are found** where the template has no special
characters, or where no name is long enough to be found. -/
theorem finds_exactly_template_iff (databaseName : List Char) :
    (∀ server : Server, server.lists = true →
      (databaseExists server databaseName = .ok () ↔
        ∃ database ∈ server.databases, database.value = databaseName)) ↔
    '\x00' ∈ databaseName ∨ Plain databaseName ∨ 63 < neededBytes databaseName := by
  constructor
  · intro h
    by_contra hnot
    obtain ⟨database, hwrong⟩ := exists_misjudged hnot
    apply hwrong
    rw [h (listing [database]) rfl]
    simp [listing]
  · intro h server hlists
    rw [databaseExists_iff]
    constructor
    · rintro ⟨_, tokens, hp, database, hd, hm⟩
      exact ⟨database, hd, eq_of_matches h hp hm⟩
    · rintro ⟨database, hd, rfl⟩
      obtain ⟨tokens, hp, hm⟩ := matches_self h
      exact ⟨hlists, tokens, hp, database, hd, hm⟩

/-- A server without the database `test_template` accepts it. -/
theorem finds_missing_template :
    ¬∀ server : Server, server.lists = true →
      (databaseExists server "test_template".toList = .ok () ↔
        ∃ database ∈ server.databases, database.value = "test_template".toList) := by
  intro h
  let name : DatName := ⟨"testXtemplate".toList, by decide, by decide, by decide⟩
  have hfound : databaseExists (listing [name]) "test_template".toList = .ok () := by decide
  obtain ⟨database, hd, heq⟩ := (h _ rfl).mp hfound
  rw [List.mem_singleton.mp hd] at heq
  exact absurd heq (by decide)

end PgTest.Operations
