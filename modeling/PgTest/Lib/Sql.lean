import Mathlib.Data.List.Basic

/-!
# Quoted identifiers and the text of a statement

A quoted text stands between two quotes, and a quote inside it is written twice.
`readQuoted` reads one after its first quote; `readQuoted_eq_some` says what it
takes: the text, up to a quote that no other quote follows.

`scan` runs a partial machine over a text, character by character, and collects
what its steps emit.  With `Sql.step` it is a lexer: words, quoted identifiers,
punctuation and comparison signs.  It has no value where the text needs another
rule of the language (a number, a string, a comment, another operator).
-/

namespace PgTest.Lib

universe u v w

/-! ### Quoting -/

section Quoting

variable {α : Type u} [DecidableEq α]

/-- The text with every quote written twice. -/
def double (q : α) (s : List α) : List α := s.flatMap fun c => if c = q then [q, q] else [c]

def quote (q : α) (s : List α) : List α := q :: (double q s ++ [q])

/-- The quoted text after its first quote, and what is left after its last one. -/
def readQuoted (q : α) : List α → Option (List α × List α)
  | [] => none
  | [c] => if c = q then some ([], []) else none
  | c :: d :: text =>
    if c = q then
      if d = q then (readQuoted q text).map fun (s, rest) => (q :: s, rest)
      else some ([], d :: text)
    else (readQuoted q (d :: text)).map fun (s, rest) => (c :: s, rest)

/-- The text and the rest of a quoted text. -/
def unquote (q : α) : List α → Option (List α × List α)
  | [] => none
  | c :: text => if c = q then readQuoted q text else none

variable {q : α}

@[simp] theorem double_quote (s : List α) : double q (q :: s) = q :: q :: double q s := by
  simp [double]

@[simp] theorem double_of_ne {c : α} (h : c ≠ q) (s : List α) :
    double q (c :: s) = c :: double q s := by
  simp [double, h]

@[simp] theorem readQuoted_doubled (text : List α) :
    readQuoted q (q :: q :: text) = (readQuoted q text).map fun (s, rest) => (q :: s, rest) := by
  rw [readQuoted, if_pos rfl, if_pos rfl]

@[simp] theorem readQuoted_of_ne {c : α} (h : c ≠ q) (text : List α) :
    readQuoted q (c :: text) = (readQuoted q text).map fun (s, rest) => (c :: s, rest) := by
  cases text with
  | nil => simp [readQuoted, h]
  | cons d text => rw [readQuoted, if_neg h]

theorem readQuoted_last {rest : List α} (h : rest.head? ≠ some q) :
    readQuoted q (q :: rest) = some ([], rest) := by
  cases rest with
  | nil => rw [readQuoted, if_pos rfl]
  | cons d rest =>
    have hd : d ≠ q := fun he => h (congrArg some he)
    rw [readQuoted, if_pos rfl, if_neg hd]

/-- **What is read is what was doubled**, up to a quote that none follows. -/
theorem readQuoted_eq_some {text s rest : List α} :
    readQuoted q text = some (s, rest) ↔
      text = double q s ++ q :: rest ∧ rest.head? ≠ some q := by
  constructor
  · intro h
    induction text using readQuoted.induct q generalizing s with
    | case1 => cases h
    | case2 =>
      rw [readQuoted, if_pos rfl] at h
      cases h
      exact ⟨rfl, by simp⟩
    | case3 c hc =>
      rw [readQuoted, if_neg hc] at h
      cases h
    | case4 text ih =>
      rw [readQuoted_doubled, Option.map_eq_some_iff] at h
      obtain ⟨⟨s', rest'⟩, hread, heq⟩ := h
      cases heq
      obtain ⟨htext, hrest⟩ := ih hread
      refine ⟨?_, hrest⟩
      rw [double_quote, htext]
      rfl
    | case5 d text hd =>
      have hhead : (d :: text).head? ≠ some q := fun he => hd (Option.some.inj he)
      rw [readQuoted_last hhead] at h
      cases h
      exact ⟨rfl, hhead⟩
    | case6 c d text hc ih =>
      rw [readQuoted_of_ne hc, Option.map_eq_some_iff] at h
      obtain ⟨⟨s', rest'⟩, hread, heq⟩ := h
      cases heq
      obtain ⟨htext, hrest⟩ := ih hread
      refine ⟨?_, hrest⟩
      rw [double_of_ne hc, htext]
      rfl
  · rintro ⟨rfl, hrest⟩
    induction s with
    | nil => exact readQuoted_last hrest
    | cons c s ih =>
      by_cases hc : c = q
      · subst hc
        rw [double_quote, List.cons_append, List.cons_append, readQuoted_doubled, ih]
        rfl
      · rw [double_of_ne hc, List.cons_append, readQuoted_of_ne hc, ih]
        rfl

/-- **Quoting is undone** by reading, whatever comes after it but a quote. -/
theorem unquote_eq_some {text s rest : List α} :
    unquote q text = some (s, rest) ↔ text = quote q s ++ rest ∧ rest.head? ≠ some q := by
  cases text with
  | nil =>
    constructor
    · intro h
      cases h
    · rintro ⟨h, _⟩
      cases h
  | cons c text =>
    rw [unquote, quote, List.cons_append, List.append_assoc, List.singleton_append, List.cons.injEq]
    split
    case isTrue hc => rw [readQuoted_eq_some, and_iff_right hc]
    case isFalse hc =>
      constructor
      · intro h
        cases h
      · rintro ⟨⟨h, _⟩, _⟩
        exact absurd h hc

/-- A quoted text in a text determines where it ends. -/
theorem quote_append_inj {s s' rest rest' : List α} (h : rest.head? ≠ some q)
    (h' : rest'.head? ≠ some q) (heq : quote q s ++ rest = quote q s' ++ rest') :
    s = s' ∧ rest = rest' := by
  have hs : unquote q (quote q s ++ rest) = some (s, rest) := unquote_eq_some.mpr ⟨rfl, h⟩
  rw [heq, unquote_eq_some.mpr ⟨rfl, h'⟩] at hs
  cases hs
  exact ⟨rfl, rfl⟩

end Quoting

/-! ### Machines that emit -/

section Scan

variable {σ : Type u} {α : Type v} {τ : Type w} {step : σ → α → Option (σ × List τ)}

/-- The state after a text, and what was emitted. -/
def scan (step : σ → α → Option (σ × List τ)) : σ → List α → Option (σ × List τ)
  | s, [] => some (s, [])
  | s, c :: text => do
    let (s, front) ← step s c
    let (s, back) ← scan step s text
    return (s, front ++ back)

theorem scan_cons {s s' t : σ} {c : α} {text : List α} {front back : List τ}
    (h : step s c = some (s', front)) (ht : scan step s' text = some (t, back)) :
    scan step s (c :: text) = some (t, front ++ back) := by
  rw [scan, h]
  show (scan step s' text).bind _ = _
  rw [ht]
  rfl

/-- A step that emits nothing. -/
theorem scan_silent {s s' t : σ} {c : α} {text : List α} {back : List τ}
    (h : step s c = some (s', [])) (ht : scan step s' text = some (t, back)) :
    scan step s (c :: text) = some (t, back) := scan_cons h ht

/-- **One text after the other.** -/
theorem scan_append : ∀ {a b : List α} {s s' t : σ} {front back : List τ},
    scan step s a = some (s', front) → scan step s' b = some (t, back) →
    scan step s (a ++ b) = some (t, front ++ back) := by
  intro a
  induction a with
  | nil =>
    intro b s s' t front back ha hb
    cases ha
    exact hb
  | cons c a ih =>
    intro b s s' t front back ha hb
    obtain ⟨⟨s₁, front₁⟩, hstep, ha⟩ := Option.bind_eq_some_iff.mp ha
    obtain ⟨⟨s₂, front₂⟩, hrest, ha⟩ := Option.bind_eq_some_iff.mp ha
    cases ha
    rw [List.append_assoc]
    exact scan_cons hstep (ih hrest hb)

end Scan

/-! ### The lexer -/

namespace Sql

inductive Lexeme
  /-- A keyword or an identifier without quotes, in lower case. -/
  | word (text : List Char)
  | ident (name : List Char)
  | symbol (c : Char)
  deriving DecidableEq, Repr

/-- What is open at a place of a text. -/
inductive Mode
  | between
  | word (text : List Char)
  | quoted (name : List Char)
  /-- After a quote that is the last one unless another follows. -/
  | closing (name : List Char)
  /-- After a sign that another one could make a longer operator. -/
  | operator (c : Char)
  deriving DecidableEq, Repr

def isSpace (c : Char) : Bool := c ∈ [' ', '\t', '\n', '\r', '\x0b', '\x0c']

def isWordStart (c : Char) : Bool := c.isAlpha || c = '_' || 128 ≤ c.toNat

def isWordPart (c : Char) : Bool := isWordStart c || c.isDigit || c = '$'

def punctuation : List Char := ['(', ')', '[', ']', ',', ';']

def comparisons : List Char := ['=', '<', '>']

def operatorChars : List Char := "+-*/<>=~!@#%^&|`?".toList

/-- A character where nothing is open. -/
def begin (c : Char) : Option (Mode × List Lexeme) :=
  if isSpace c then some (.between, [])
  else if isWordStart c then some (.word [c.toLower], [])
  else if c = '"' then some (.quoted [], [])
  else if c ∈ punctuation then some (.between, [.symbol c])
  else if c ∈ comparisons then some (.operator c, [])
  else none

/-- The same after a lexeme that the character ends. -/
def beginAfter (lexeme : Lexeme) (c : Char) : Option (Mode × List Lexeme) :=
  (begin c).map fun (mode, lexemes) => (mode, lexeme :: lexemes)

def step : Mode → Char → Option (Mode × List Lexeme)
  | .between, c => begin c
  | .word text, c =>
    if isWordPart c then some (.word (text ++ [c.toLower]), []) else beginAfter (.word text) c
  | .quoted name, c =>
    if c = '\x00' then none
    else if c = '"' then some (.closing name, [])
    else some (.quoted (name ++ [c]), [])
  | .closing name, c =>
    if c = '"' then some (.quoted (name ++ ['"']), []) else beginAfter (.ident name) c
  | .operator sign, c => if c ∈ operatorChars then none else beginAfter (.symbol sign) c

/-- The end of the text. -/
def finish : Mode → Option (List Lexeme)
  | .between => some []
  | .word text => some [.word text]
  | .quoted _ => none
  | .closing name => some [.ident name]
  | .operator sign => some [.symbol sign]

/-- The lexemes of a text. -/
def lexemes (text : List Char) : Option (List Lexeme) := do
  let (mode, front) ← scan step .between text
  let back ← finish mode
  return front ++ back

theorem lexemes_of_scan {text : List Char} {mode : Mode} {front back : List Lexeme}
    (h : scan step .between text = some (mode, front)) (hf : finish mode = some back) :
    lexemes text = some (front ++ back) := by
  rw [lexemes, h]
  show (finish mode).bind _ = _
  rw [hf]
  rfl

/-- Inside the quotes the lexer reads what was doubled. -/
theorem scan_double {s : List Char} : ∀ {name : List Char}, '\x00' ∉ s →
    scan step (.quoted name) (double '"' s) = some (.quoted (name ++ s), []) := by
  induction s with
  | nil =>
    intro name _
    rw [List.append_nil]
    rfl
  | cons c s ih =>
    intro name hnul
    have hc : c ≠ '\x00' := fun he => hnul (he ▸ List.mem_cons_self)
    have hs : '\x00' ∉ s := fun hm => hnul (List.mem_cons_of_mem _ hm)
    have happend : name ++ c :: s = name ++ [c] ++ s := by simp
    rw [happend]
    by_cases hq : c = '"'
    · subst hq
      rw [double_quote]
      exact scan_silent rfl (scan_silent rfl (ih hs))
    · rw [double_of_ne hq]
      refine scan_silent ?_ (ih hs)
      rw [step, if_neg hc, if_neg hq]

/-- **A quoted identifier** is open until another character than a quote follows. -/
theorem scan_quote {s : List Char} (hnul : '\x00' ∉ s) :
    scan step .between (quote '"' s) = some (.closing s, []) := by
  have hbegin : step .between '"' = some (.quoted [], []) := by decide
  exact scan_silent hbegin (scan_append (scan_double hnul) rfl)

end Sql

end PgTest.Lib
