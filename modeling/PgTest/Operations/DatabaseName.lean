import Mathlib.Data.Finset.Card
import Mathlib.Data.Vector.Defs
import PgTest.Lib.Like

/-!
# Names of databases

`database_name.rs`.  A string is the list of its characters, and its length in
bytes is that of its UTF-8.  What `random_range` returns is an argument, one index
into `CHARSET` for each letter.  A slice inside a character panics, which is
`none`.
-/

namespace PgTest.Operations

/-- `str::len`. -/
def byteLen (text : List Char) : Nat := (text.map Char.utf8Size).sum

def charset : List Char := "ABCDEFGHIJKLMNOPQRSTUVWXYZabcdefghijklmnopqrstuvwxyz".toList

def generatedIdLen : Nat := 32

/-- What `random_range` returned for `n` letters. -/
abbrev Choices (n : Nat) := List.Vector (Fin charset.length) n

/-- The letters of a random identifier. -/
def letters {n : Nat} (choices : Choices n) : List Char := choices.toList.map charset.get

/-! ### Character boundaries -/

/-- `str::is_char_boundary`. -/
def isCharBoundary : List Char → Nat → Bool
  | _, 0 => true
  | [], _ + 1 => false
  | c :: text, index + 1 =>
    decide (c.utf8Size ≤ index + 1) && isCharBoundary text (index + 1 - c.utf8Size)

/-- `text[..index]`. -/
def sliceTo : List Char → Nat → Option (List Char)
  | _, 0 => some []
  | [], _ + 1 => none
  | c :: text, index + 1 =>
    if c.utf8Size ≤ index + 1 then (sliceTo text (index + 1 - c.utf8Size)).map (c :: ·) else none

/-- The loop of `truncate` that looks for a boundary, downwards from `cut`. -/
def floorBoundary (text : List Char) : Nat → Nat
  | 0 => 0
  | cut + 1 => if isCharBoundary text (cut + 1) then cut + 1 else floorBoundary text cut

/-! ### `PostgresDatabaseName` -/

structure PostgresDatabaseName where
  name : List Char
  prefixTemplate : List Char
  deriving DecidableEq, Repr

/-- `MAX_PREFIX_LEN`. -/
def maxPrefixLen : Nat := 63 - generatedIdLen - 1 - 4 - 1

/-- `truncate`, with the letters of `generate_parallel_test_id`. -/
def truncate (parallelTestId : Choices 4) (databaseName : List Char) : Option (List Char) :=
  if byteLen databaseName ≤ maxPrefixLen then some databaseName
  else do
    let kept ← sliceTo databaseName (floorBoundary databaseName maxPrefixLen)
    return kept ++ '_' :: letters parallelTestId

namespace PostgresDatabaseName

/-- `PostgresDatabaseName::new`. -/
def new (parallelTestId : Choices 4) (databaseName : List Char) : Option PostgresDatabaseName := do
  let prefixTemplate ← truncate parallelTestId databaseName
  return ⟨databaseName, prefixTemplate⟩

/-- `generate_database_name`, with the letters of `generate_id`. -/
def generateDatabaseName (id : Choices generatedIdLen) (names : PostgresDatabaseName) :
    List Char := names.prefixTemplate ++ '_' :: letters id

/-- `template_name`. -/
def templateName (names : PostgresDatabaseName) : List Char := names.name

end PostgresDatabaseName

/-- A name that `generate_database_name` can produce for a template. -/
def Generated (template name : List Char) : Prop :=
  ∃ parallelTestId names id, PostgresDatabaseName.new parallelTestId template = some names ∧
    names.generateDatabaseName id = name

/-! ### Letters -/

theorem length_letters {n : Nat} (choices : Choices n) : (letters choices).length = n := by
  rw [letters, List.length_map, List.Vector.toList_length]

theorem mem_charset_of_letters {n : Nat} {choices : Choices n} {c : Char}
    (h : c ∈ letters choices) : c ∈ charset := by
  obtain ⟨index, _, rfl⟩ := List.mem_map.mp h
  exact List.getElem_mem _

theorem length_le_byteLen (text : List Char) : text.length ≤ byteLen text := by
  induction text with
  | nil => exact Nat.le_refl _
  | cons c text ih =>
    have hc := c.utf8Size_pos
    have hcons : byteLen (c :: text) = c.utf8Size + byteLen text := rfl
    rw [List.length_cons, hcons]
    omega

/-! ### Truncation -/

theorem isCharBoundary_floorBoundary (text : List Char) (cut : Nat) :
    isCharBoundary text (floorBoundary text cut) = true := by
  induction cut with
  | zero =>
    cases text with
    | nil => rfl
    | cons c text => rfl
  | succ cut ih =>
    rw [floorBoundary]
    split
    case isTrue h => exact h
    case isFalse _ => exact ih

theorem floorBoundary_le (text : List Char) (cut : Nat) : floorBoundary text cut ≤ cut := by
  induction cut with
  | zero => exact Nat.le_refl _
  | succ cut ih =>
    rw [floorBoundary]
    split
    · exact Nat.le_refl _
    · exact Nat.le_succ_of_le ih

/-- A slice at a boundary is a prefix of so many bytes. -/
theorem sliceTo_of_boundary : ∀ {text : List Char} {index : Nat},
    isCharBoundary text index = true →
    ∃ kept, sliceTo text index = some kept ∧ kept <+: text ∧ byteLen kept = index := by
  intro text
  induction text with
  | nil =>
    intro index h
    cases index with
    | zero => exact ⟨[], rfl, List.prefix_refl _, rfl⟩
    | succ index => cases h
  | cons c text ih =>
    intro index h
    cases index with
    | zero => exact ⟨[], rfl, List.nil_prefix, rfl⟩
    | succ index =>
      rw [isCharBoundary, Bool.and_eq_true, decide_eq_true_eq] at h
      obtain ⟨hle, hrest⟩ := h
      obtain ⟨kept, hkept, hprefix, hlen⟩ := ih hrest
      refine ⟨c :: kept, ?_, List.cons_prefix_cons.mpr ⟨rfl, hprefix⟩, ?_⟩
      · rw [sliceTo, if_pos hle, hkept]
        rfl
      · show c.utf8Size + byteLen kept = index + 1
        omega

/-- The characters that `truncate` keeps of a long name. -/
theorem exists_kept (databaseName : List Char) :
    ∃ kept, sliceTo databaseName (floorBoundary databaseName maxPrefixLen) = some kept ∧
      kept <+: databaseName ∧ byteLen kept ≤ maxPrefixLen := by
  obtain ⟨kept, h1, h2, h3⟩ :=
    sliceTo_of_boundary (isCharBoundary_floorBoundary databaseName maxPrefixLen)
  exact ⟨kept, h1, h2, h3 ▸ floorBoundary_le _ _⟩

/-- **A generated name ends in an underscore and 32 letters.** -/
theorem Generated.ends {template name : List Char} (h : Generated template name) :
    ∃ start, ∃ id : Choices generatedIdLen, name = start ++ '_' :: letters id := by
  obtain ⟨_, names, id, _, rfl⟩ := h
  exact ⟨names.prefixTemplate, id, rfl⟩

end PgTest.Operations
