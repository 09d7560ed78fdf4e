import Mathlib.Algebra.GroupWithZero.Nat
import Mathlib.Data.List.Forall2
import Mathlib.Data.List.Infix

/-!
# Patterns with wildcards

A pattern is a list of tokens: a literal, one element of any kind, or any number
of them.  `Matches` says which texts a pattern matches, where `fits` says which
elements a literal stands for; with `Eq` the pattern is about the texts of its
own alphabet.  `matchesText` decides it.

`Matches.transfer` carries a match from one text to another, element by element.
`Matches.least_le` bounds a matched text from below, and `matches_shortest` is a
text that reaches the bound.

`Like.parse` reads the patterns of SQL, where `_` stands for one character, `%`
for any number of them, and a backslash takes the next character literally.
-/

namespace PgTest.Lib

universe u v w

inductive Token (α : Type u)
  | lit (a : α)
  | any
  | many
  deriving DecidableEq, Repr

variable {α : Type u} {β : Type v} {γ : Type w}

inductive Matches (fits : α → β → Prop) : List (Token α) → List β → Prop
  | nil : Matches fits [] []
  | lit {a : α} {b : β} {p : List (Token α)} {s : List β} (hf : fits a b)
      (h : Matches fits p s) : Matches fits (.lit a :: p) (b :: s)
  | any {b : β} {p : List (Token α)} {s : List β} (h : Matches fits p s) :
      Matches fits (.any :: p) (b :: s)
  | done {p : List (Token α)} {s : List β} (h : Matches fits p s) :
      Matches fits (.many :: p) s
  | skip {b : β} {p : List (Token α)} {s : List β} (h : Matches fits (.many :: p) s) :
      Matches fits (.many :: p) (b :: s)

/-- The matcher, one token after the other. -/
def matchesText (fits : α → β → Bool) : List (Token α) → List β → Bool
  | [], s => s.isEmpty
  | .lit a :: p, s =>
    match s with
    | [] => false
    | b :: s => fits a b && matchesText fits p s
  | .any :: p, s =>
    match s with
    | [] => false
    | _ :: s => matchesText fits p s
  | .many :: p, s => s.tails.any fun t => matchesText fits p t

/-! ### Rules of matching -/

namespace Matches

variable {fits : α → β → Prop} {p q : List (Token α)} {s t : List β}

theorem many_append (h : Matches fits p t) : ∀ s : List β, Matches fits (.many :: p) (s ++ t)
  | [] => .done h
  | _ :: s => .skip (many_append h s)

theorem of_many : ∀ {s : List β}, Matches fits (.many :: p) s →
    ∃ t, t <:+ s ∧ Matches fits p t := by
  intro s
  induction s with
  | nil =>
    intro h
    cases h with
    | done h => exact ⟨[], List.suffix_refl _, h⟩
  | cons b s ih =>
    intro h
    cases h with
    | done h => exact ⟨b :: s, List.suffix_refl _, h⟩
    | skip h =>
      obtain ⟨t, ht, hm⟩ := ih h
      exact ⟨t, ht.trans (List.suffix_cons b s), hm⟩

theorem append (h : Matches fits p s) (g : Matches fits q t) : Matches fits (p ++ q) (s ++ t) := by
  induction h with
  | nil => exact g
  | lit hf _ ih => exact .lit hf ih
  | any _ ih => exact .any ih
  | done _ ih => exact .done ih
  | skip _ ih => exact .skip ih

/-- A text that two patterns match one after the other is cut between them. -/
theorem of_append : ∀ {p : List (Token α)} {u : List β}, Matches fits (p ++ q) u →
    ∃ s t, u = s ++ t ∧ Matches fits p s ∧ Matches fits q t := by
  intro p
  induction p with
  | nil => intro u h; exact ⟨[], u, rfl, .nil, h⟩
  | cons token p ih =>
    intro u h
    cases token with
    | lit a =>
      cases h with
      | lit hf h =>
        obtain ⟨s, t, rfl, h1, h2⟩ := ih h
        exact ⟨_ :: s, t, rfl, .lit hf h1, h2⟩
    | any =>
      cases h with
      | any h =>
        obtain ⟨s, t, rfl, h1, h2⟩ := ih h
        exact ⟨_ :: s, t, rfl, .any h1, h2⟩
    | many =>
      obtain ⟨v, ⟨skipped, rfl⟩, hv⟩ := of_many h
      obtain ⟨s, t, rfl, h1, h2⟩ := ih hv
      exact ⟨skipped ++ s, t, (List.append_assoc _ _ _).symm, h1.many_append skipped, h2⟩

/-- **A match is carried over** to a text whose elements fit the literals too. -/
theorem transfer {fits' : α → γ → Prop} {R : β → γ → Prop} (h : Matches fits p s) :
    ∀ {t : List γ}, List.Forall₂ R s t →
    (∀ a, .lit a ∈ p → ∀ b c, R b c → fits a b → fits' a c) → Matches fits' p t := by
  induction h with
  | nil =>
    intro t ht _
    cases ht
    exact .nil
  | @lit a b p s hf _ ih =>
    intro t ht hfit
    cases ht with
    | cons hR ht =>
      refine .lit (hfit a List.mem_cons_self _ _ hR hf) (ih ht fun a' ha => ?_)
      exact hfit a' (List.mem_cons_of_mem _ ha)
  | any _ ih =>
    intro t ht hfit
    cases ht with
    | cons _ ht => exact .any (ih ht fun a ha => hfit a (List.mem_cons_of_mem _ ha))
  | done _ ih =>
    intro t ht hfit
    exact .done (ih ht fun a ha => hfit a (List.mem_cons_of_mem _ ha))
  | skip _ ih =>
    intro t ht hfit
    cases ht with
    | cons _ ht => exact .skip (ih ht hfit)

/-- Every literal stands somewhere in the text. -/
theorem exists_of_lit {a : α} (h : Matches fits p s) (ha : .lit a ∈ p) : ∃ b ∈ s, fits a b := by
  induction h with
  | nil => exact absurd ha List.not_mem_nil
  | @lit a' b p s hf _ ih =>
    rcases List.mem_cons.mp ha with heq | ha
    · cases heq
      exact ⟨b, List.mem_cons_self, hf⟩
    · obtain ⟨c, hc, hfit⟩ := ih ha
      exact ⟨c, List.mem_cons_of_mem _ hc, hfit⟩
  | any _ ih =>
    obtain ⟨c, hc, hfit⟩ := ih ((List.mem_cons.mp ha).resolve_left nofun)
    exact ⟨c, List.mem_cons_of_mem _ hc, hfit⟩
  | done _ ih => exact ih ((List.mem_cons.mp ha).resolve_left nofun)
  | skip _ ih =>
    obtain ⟨c, hc, hfit⟩ := ih ha
    exact ⟨c, List.mem_cons_of_mem _ hc, hfit⟩

end Matches

theorem matchesText_iff {fits : α → β → Bool} : ∀ {p : List (Token α)} {s : List β},
    matchesText fits p s = true ↔ Matches (fun a b => fits a b = true) p s := by
  intro p
  induction p with
  | nil =>
    intro s
    rw [matchesText, List.isEmpty_iff]
    constructor
    · rintro rfl
      exact .nil
    · intro h
      cases h
      rfl
  | cons token p ih =>
    intro s
    cases token with
    | lit a =>
      cases s with
      | nil => exact ⟨nofun, nofun⟩
      | cons b s =>
        rw [matchesText, Bool.and_eq_true, ih]
        constructor
        · rintro ⟨hf, h⟩
          exact .lit hf h
        · intro h
          cases h with
          | lit hf h => exact ⟨hf, h⟩
    | any =>
      cases s with
      | nil => exact ⟨nofun, nofun⟩
      | cons b s =>
        rw [matchesText, ih]
        constructor
        · exact .any
        · intro h
          cases h with
          | any h => exact h
    | many =>
      rw [matchesText, List.any_eq_true]
      constructor
      · rintro ⟨t, ht, h⟩
        obtain ⟨skipped, rfl⟩ := (List.mem_tails _ _).mp ht
        exact (ih.mp h).many_append skipped
      · intro h
        obtain ⟨t, ht, h⟩ := h.of_many
        exact ⟨t, (List.mem_tails _ _).mpr ht, ih.mpr h⟩

/-- One element and any number of them: at least one. -/
theorem matches_any_many {fits : α → β → Prop} {s : List β} :
    Matches fits [.any, .many] s ↔ s ≠ [] := by
  constructor
  · rintro h rfl
    cases h
  · intro h
    obtain ⟨b, s, rfl⟩ := List.exists_cons_of_ne_nil h
    have hrest : Matches fits [.many] (s ++ []) := Matches.nil.many_append s
    rw [List.append_nil] at hrest
    exact .any hrest

/-- A pattern without wildcards matches element by element. -/
theorem matches_literals {fits : α → β → Prop} : ∀ {l : List α} {s : List β},
    Matches fits (l.map .lit) s ↔ List.Forall₂ fits l s := by
  intro l
  induction l with
  | nil =>
    intro s
    constructor
    · intro h
      cases h
      exact .nil
    · intro h
      cases h
      exact .nil
  | cons a l ih =>
    intro s
    constructor
    · intro h
      cases h with
      | lit hf h => exact .cons hf (ih.mp h)
    · intro h
      cases h with
      | cons hf h => exact .lit hf (ih.mpr h)

/-! ### The shortest match -/

/-- What a pattern needs at least, where a literal needs `size` and a wildcard for
one element needs `unit`. -/
def least (size : α → Nat) (unit : Nat) (p : List (Token α)) : Nat :=
  (p.map fun
    | .lit a => size a
    | .any => unit
    | .many => 0).sum

theorem Matches.least_le {size : α → Nat} {unit : Nat} (hunit : ∀ a, unit ≤ size a)
    {p : List (Token α)} {s : List α} (h : Matches Eq p s) :
    least size unit p ≤ (s.map size).sum := by
  induction h with
  | nil => exact Nat.le_refl _
  | @lit a b p s hf _ ih =>
    subst hf
    exact Nat.add_le_add_left ih _
  | any _ ih => exact Nat.add_le_add (hunit _) ih
  | done _ ih => exact Nat.le_trans (Nat.le_of_eq (Nat.zero_add _)) ih
  | skip _ ih => exact Nat.le_trans ih (Nat.le_add_left _ _)

/-- The text of the literals, with `x` for every single element. -/
def shortest (x : α) (p : List (Token α)) : List α :=
  p.flatMap fun
    | .lit a => [a]
    | .any => [x]
    | .many => []

theorem matches_shortest (x : α) (p : List (Token α)) : Matches Eq p (shortest x p) := by
  induction p with
  | nil => exact .nil
  | cons token p ih =>
    cases token with
    | lit a => exact .lit rfl ih
    | any => exact .any ih
    | many => exact .done ih

theorem sum_shortest {size : α → Nat} {unit : Nat} {x : α} (hx : size x = unit)
    (p : List (Token α)) : ((shortest x p).map size).sum = least size unit p := by
  induction p with
  | nil => rfl
  | cons token p ih =>
    cases token with
    | lit a => exact congrArg (size a + ·) ih
    | any => exact (congrArg (size x + ·) ih).trans (congrArg (· + least size unit p) hx)
    | many => exact ih.trans (Nat.zero_add _).symm

theorem mem_shortest {a x : α} {p : List (Token α)} (h : a ∈ shortest x p) :
    .lit a ∈ p ∨ a = x := by
  obtain ⟨token, ht, ha⟩ := List.mem_flatMap.mp h
  cases token with
  | lit b =>
    rw [List.mem_singleton.mp ha]
    exact Or.inl ht
  | any => exact Or.inr (List.mem_singleton.mp ha)
  | many => exact absurd ha List.not_mem_nil

/-- Different fillings of a wildcard are different texts. -/
theorem shortest_ne {x y : α} (hxy : x ≠ y) {p : List (Token α)} (h : .any ∈ p) :
    shortest x p ≠ shortest y p := by
  induction p with
  | nil => cases h
  | cons token p ih =>
    cases token with
    | lit a =>
      have hp : .any ∈ p := by simpa using h
      exact fun heq => ih hp (List.cons.inj heq).2
    | any => exact fun heq => hxy (List.cons.inj heq).1
    | many =>
      have hp : .any ∈ p := by simpa using h
      exact ih hp

/-- A pattern that asks for no element matches every text. -/
theorem matches_of_shortest_nil {x : α} {p : List (Token α)} (hp : p ≠ [])
    (h : shortest x p = []) (s : List α) : Matches Eq p s := by
  cases p with
  | nil => exact absurd rfl hp
  | cons token p =>
    cases token with
    | lit a => cases h
    | any => cases h
    | many =>
      have hrest : Matches Eq p [] := by
        have hm := matches_shortest x p
        rwa [show shortest x p = [] from h] at hm
      have hall := hrest.many_append s
      rwa [List.append_nil] at hall

/-! ### The patterns of SQL -/

namespace Like

/-- The tokens of a pattern; `none` if it ends in its escape character. -/
def parse : List Char → Option (List (Token Char))
  | [] => some []
  | '\\' :: c :: rest => (parse rest).map (.lit c :: ·)
  | ['\\'] => none
  | '_' :: rest => (parse rest).map (.any :: ·)
  | '%' :: rest => (parse rest).map (.many :: ·)
  | c :: rest => (parse rest).map (.lit c :: ·)

/-- A character that is not special stands for itself. -/
theorem parse_cons {c : Char} (h1 : c ≠ '\\') (h2 : c ≠ '_') (h3 : c ≠ '%') (rest : List Char) :
    parse (c :: rest) = (parse rest).map (.lit c :: ·) :=
  parse.eq_6 c rest (fun _ _ he => absurd he h1) (fun he => absurd he h1) h2 h3

theorem parse_plain {pattern : List Char} (h1 : '\\' ∉ pattern) (h2 : '_' ∉ pattern)
    (h3 : '%' ∉ pattern) : parse pattern = some (pattern.map .lit) := by
  induction pattern with
  | nil => rfl
  | cons c rest ih =>
    rw [List.mem_cons, not_or] at h1 h2 h3
    rw [parse_cons (Ne.symm h1.1) (Ne.symm h2.1) (Ne.symm h3.1), ih h1.2 h2.2 h3.2]
    rfl

/-- Neither of the two cases of an escape. -/
theorem ne_escape {c : Char} {rest : List Char} (h1 : ∀ d more, c = '\\' → rest = d :: more → False)
    (h2 : c = '\\' → rest = [] → False) : c ≠ '\\' := by
  intro hc
  cases rest with
  | nil => exact h2 hc rfl
  | cons d more => exact h1 d more hc rfl

/-- A pattern followed by one that asks for at least one more character. -/
theorem parse_append {pattern : List Char} {tokens : List (Token Char)}
    (h : parse pattern = some tokens) :
    parse (pattern ++ ['_', '%']) = some (tokens ++ [.any, .many]) := by
  fun_induction parse pattern generalizing tokens with
  | case1 =>
    cases h
    rfl
  | case2 c rest ih =>
    obtain ⟨more, hm, rfl⟩ := Option.map_eq_some_iff.mp h
    show (parse (rest ++ ['_', '%'])).map (.lit c :: ·) = _
    rw [ih hm]
    rfl
  | case3 => cases h
  | case4 rest ih =>
    obtain ⟨more, hm, rfl⟩ := Option.map_eq_some_iff.mp h
    show (parse (rest ++ ['_', '%'])).map (.any :: ·) = _
    rw [ih hm]
    rfl
  | case5 rest ih =>
    obtain ⟨more, hm, rfl⟩ := Option.map_eq_some_iff.mp h
    show (parse (rest ++ ['_', '%'])).map (.many :: ·) = _
    rw [ih hm]
    rfl
  | case6 c rest h1 h2 h3 h4 ih =>
    obtain ⟨more, hm, rfl⟩ := Option.map_eq_some_iff.mp h
    show parse (c :: (rest ++ ['_', '%'])) = _
    rw [parse_cons (ne_escape h1 h2) h3 h4, ih hm]
    rfl

theorem mem_of_parse {pattern : List Char} {tokens : List (Token Char)} {a : Char}
    (h : parse pattern = some tokens) (ha : .lit a ∈ tokens) : a ∈ pattern := by
  fun_induction parse pattern generalizing tokens with
  | case1 =>
    cases h
    cases ha
  | case2 c rest ih =>
    obtain ⟨more, hm, rfl⟩ := Option.map_eq_some_iff.mp h
    rcases List.mem_cons.mp ha with ha | ha
    · cases ha
      exact List.mem_cons_of_mem _ List.mem_cons_self
    · exact List.mem_cons_of_mem _ (List.mem_cons_of_mem _ (ih hm ha))
  | case3 => cases h
  | case4 rest ih =>
    obtain ⟨more, hm, rfl⟩ := Option.map_eq_some_iff.mp h
    exact List.mem_cons_of_mem _ (ih hm (by simpa using ha))
  | case5 rest ih =>
    obtain ⟨more, hm, rfl⟩ := Option.map_eq_some_iff.mp h
    exact List.mem_cons_of_mem _ (ih hm (by simpa using ha))
  | case6 c rest h1 h2 h3 h4 ih =>
    obtain ⟨more, hm, rfl⟩ := Option.map_eq_some_iff.mp h
    rcases List.mem_cons.mp ha with ha | ha
    · cases ha
      exact List.mem_cons_self
    · exact List.mem_cons_of_mem _ (ih hm ha)

theorem parse_eq_nil {pattern : List Char} (h : parse pattern = some []) : pattern = [] := by
  fun_induction parse pattern with
  | case1 => rfl
  | case3 => cases h
  | case2 | case4 | case5 | case6 =>
    obtain ⟨more, _, he⟩ := Option.map_eq_some_iff.mp h
    cases he

/-- An underscore that nothing escapes is a wildcard. -/
theorem any_mem_of_parse {pattern : List Char} {tokens : List (Token Char)}
    (h : parse pattern = some tokens) (hescape : '\\' ∉ pattern) (hmark : '_' ∈ pattern) :
    .any ∈ tokens := by
  fun_induction parse pattern generalizing tokens with
  | case1 => cases hmark
  | case2 c rest ih => exact absurd List.mem_cons_self hescape
  | case3 => cases h
  | case4 rest ih =>
    obtain ⟨more, hm, rfl⟩ := Option.map_eq_some_iff.mp h
    exact List.mem_cons_self
  | case5 rest ih =>
    obtain ⟨more, hm, rfl⟩ := Option.map_eq_some_iff.mp h
    have hrest : '_' ∈ rest := by simpa using hmark
    exact List.mem_cons_of_mem _ (ih hm (fun he => hescape (List.mem_cons_of_mem _ he)) hrest)
  | case6 c rest h1 h2 h3 h4 ih =>
    obtain ⟨more, hm, rfl⟩ := Option.map_eq_some_iff.mp h
    have hrest : '_' ∈ rest := (List.mem_cons.mp hmark).resolve_left fun he => h3 he.symm
    exact List.mem_cons_of_mem _ (ih hm (fun he => hescape (List.mem_cons_of_mem _ he)) hrest)

/-- A pattern is as long as what it needs, or longer if it has an escape or a `%`. -/
theorem least_parse {size : Char → Nat} (hsize : ∀ c, 0 < size c) {pattern : List Char}
    {tokens : List (Token Char)} (h : parse pattern = some tokens) :
    least size (size '_') tokens ≤ (pattern.map size).sum ∧
      ('\\' ∈ pattern ∨ '%' ∈ pattern → least size (size '_') tokens < (pattern.map size).sum) := by
  fun_induction parse pattern generalizing tokens with
  | case1 =>
    cases h
    simp [least]
  | case2 c rest ih =>
    obtain ⟨more, hm, rfl⟩ := Option.map_eq_some_iff.mp h
    have hpos := hsize '\\'
    have hle := (ih hm).1
    simp only [least, List.map_cons, List.sum_cons] at hle ⊢
    omega
  | case3 => cases h
  | case4 rest ih =>
    obtain ⟨more, hm, rfl⟩ := Option.map_eq_some_iff.mp h
    have hrest := ih hm
    simp only [least, List.map_cons, List.sum_cons, List.mem_cons] at hrest ⊢
    refine ⟨by omega, fun hs => ?_⟩
    have hlt := hrest.2 (by simpa using hs)
    omega
  | case5 rest ih =>
    obtain ⟨more, hm, rfl⟩ := Option.map_eq_some_iff.mp h
    have hpos := hsize '%'
    have hle := (ih hm).1
    simp only [least, List.map_cons, List.sum_cons] at hle ⊢
    omega
  | case6 c rest h1 h2 h3 h4 ih =>
    obtain ⟨more, hm, rfl⟩ := Option.map_eq_some_iff.mp h
    have hescape := ne_escape h1 h2
    have hrest := ih hm
    simp only [least, List.map_cons, List.sum_cons, List.mem_cons] at hrest ⊢
    refine ⟨by omega, fun hs => ?_⟩
    have hlt := hrest.2 (by simpa [Ne.symm hescape, Ne.symm h4] using hs)
    omega

end Like

end PgTest.Lib
