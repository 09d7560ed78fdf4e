import PgTest.Lib.Peg

/-!
# The grammar of the control panel

`grammar.pest`, rule by rule, and the languages that its rules read.  The grammar has no
implicit whitespace; `ws` and `query` are silent, and the text of a literal and of a
parameter is reported as a whole.

Greed does no harm: a run of whitespace is never followed by more of it, the quotes that
end a literal are not followed by another one, and the cast of a parameter is either
there or fails to match.
-/

namespace PgTest.ControlPanel

open PgTest.Lib Peg Computability

inductive Rule
  | EOI
  | ping
  | textLiteral
  | parameter
  | release
  deriving DecidableEq, Repr

abbrev Grammar := Peg Rule Char

namespace Grammar

/-- `"..."`. -/
def exactly (w : String) : Grammar := .word (· == ·) w.toList

/-- `^"..."`: ASCII letters in either case. -/
def insensitive (w : String) : Grammar := .word (fun c d => c.toLower == d.toLower) w.toList

/-- `ANY`. -/
def any : Grammar := .one fun _ => true

def ws : Grammar :=
  .choice (exactly " ") (.choice (exactly "\t") (.choice (exactly "\r") (exactly "\n")))

def ping : Grammar := .node .ping (.seqs (insensitive "SELECT") [.plus ws, exactly "1"])

def textLiteral : Grammar :=
  .atom .textLiteral (.seqs (exactly "'")
    [.star (.choice (exactly "''") (.seq (.not (exactly "'")) any)), exactly "'"])

def parameter : Grammar :=
  .atom .parameter (.seqs (exactly "$1")
    [.opt (.seqs (.star ws) [exactly "::", .star ws, insensitive "text"])])

def release : Grammar :=
  .node .release (.seqs (insensitive "SELECT")
    [.plus ws, insensitive "pgtest_release", .star ws, exactly "(", .star ws,
      .choice textLiteral parameter, .star ws, exactly ")"])

def query : Grammar :=
  .seqs .start [.star ws, .choice ping release, .star ws, .opt (exactly ";"), .star ws,
    .node .EOI .stop]

end Grammar

/-! ### Languages -/

def IsWs (c : Char) : Prop := c = ' ' ∨ c = '\t' ∨ c = '\r' ∨ c = '\n'

instance : DecidablePred IsWs := fun c => by unfold IsWs; infer_instance

/-- One character of whitespace. -/
def blank : Language Char := symbols IsWs

/-- The word itself. -/
def token (w : String) : Language Char := {w.toList}

/-- The word in any mixture of cases. -/
def keyword (w : String) : Language Char := {x | x.map Char.toLower = w.toList.map Char.toLower}

/-- `SELECT 1` with whitespace around it, and an optional semicolon. -/
def pingShape : Language Char :=
  blank∗ * keyword "SELECT" * (blank * blank∗) * token "1" * blank∗ * (1 + token ";") * blank∗

/-- `SELECT pgtest_release(...)` with whitespace between its tokens, and an optional semicolon. -/
def releaseShape (argument : Language Char) : Language Char :=
  blank∗ * keyword "SELECT" * (blank * blank∗) * keyword "pgtest_release" * blank∗ * token "(" *
    blank∗ * argument * blank∗ * token ")" * blank∗ * (1 + token ";") * blank∗

/-- `$1`, with an optional cast. -/
def parameterShape : Language Char :=
  token "$1" * (1 + blank∗ * token "::" * blank∗ * keyword "text")

/-- Every single quote doubled. -/
def doubled : List Char → List Char
  | [] => []
  | c :: v => if c = '\'' then '\'' :: '\'' :: doubled v else c :: doubled v

/-- The literal that denotes `v`. -/
def quoted (v : String) : List Char := '\'' :: (doubled v.toList ++ ['\''])

/-! ### Whitespace -/

/-- No whitespace follows. -/
def NoWs (r : List Char) : Prop := ∀ c t, r = c :: t → ¬IsWs c

theorem noWs_cons {c : Char} {t : List Char} (h : ¬IsWs c) : NoWs (c :: t) := by
  rintro _ _ ⟨⟩
  exact h

theorem mem_blank_kstar {x : List Char} : x ∈ blank∗ ↔ ∀ c ∈ x, IsWs c := by
  rw [Language.mem_kstar]
  constructor
  · rintro ⟨words, rfl, hwords⟩ c hc
    obtain ⟨word, hword, hc⟩ := List.mem_flatten.mp hc
    obtain ⟨d, hd, rfl⟩ := hwords word hword
    rw [List.mem_singleton.mp hc]
    exact hd
  · intro h
    refine ⟨x.map fun c => [c], ?_, fun word hword => ?_⟩
    · rw [← List.flatMap_def, List.flatMap_singleton']
    · obtain ⟨c, hc, rfl⟩ := List.mem_map.mp hword
      exact ⟨c, h c hc, rfl⟩

theorem mem_blank_plus {x : List Char} (h : x ∈ blank * blank∗) : ∀ c ∈ x, IsWs c := by
  obtain ⟨_, ⟨c, hc, rfl⟩, y, hy, rfl⟩ := Language.mem_mul.mp h
  intro d hd
  rcases List.mem_append.mp hd with hd | hd
  · rw [List.mem_singleton.mp hd]
    exact hc
  · exact mem_blank_kstar.mp hy d hd

/-- Where whitespace ends is no matter of choice. -/
theorem blank_end_unique {c d : Char} {s t : List Char} (hc : ¬IsWs c) (hd : ¬IsWs d) :
    ∀ {u w : List Char}, (∀ a ∈ u, IsWs a) → (∀ a ∈ w, IsWs a) → u ++ c :: s = w ++ d :: t →
    c = d := by
  intro u
  induction u with
  | nil =>
    intro w _ hw h
    cases w with
    | nil =>
      cases h
      rfl
    | cons a w =>
      cases h
      exact absurd (hw c List.mem_cons_self) hc
  | cons a u ih =>
    intro w hu hw h
    cases w with
    | nil =>
      cases h
      exact absurd (hu d List.mem_cons_self) hd
    | cons b w =>
      injection h with _ h
      exact ih (fun e he => hu e (List.mem_cons_of_mem _ he))
        (fun e he => hw e (List.mem_cons_of_mem _ he)) h

theorem keyword_head {w : String} {c : Char} {t x : List Char} (hw : w.toList = c :: t)
    (h : x ∈ keyword w) : ∃ d y, x = d :: y ∧ d.toLower = c.toLower := by
  have heq : x.map Char.toLower = w.toList.map Char.toLower := h
  rw [hw] at heq
  cases x with
  | nil => cases heq
  | cons d y =>
    injection heq with heq _
    exact ⟨d, y, rfl, heq⟩

/-- A letter in any case is no whitespace. -/
theorem not_ws_of_toLower {c d : Char} (h : c.toLower = d) (hd : ¬IsWs d) : ¬IsWs c := by
  rintro (rfl | rfl | rfl | rfl)
  · exact hd (h ▸ by decide)
  · exact hd (h ▸ by decide)
  · exact hd (h ▸ by decide)
  · exact hd (h ▸ by decide)

namespace Grammar

theorem exactly_exact (w : String) : Exact (exactly w) (silent (token w)) Any := by
  have hset : ({x | List.Forall₂ (fun c d => (c == d) = true) w.toList x} : Language Char) =
      token w := by
    ext x
    show List.Forall₂ (fun c d => (c == d) = true) w.toList x ↔ x = w.toList
    simp only [beq_iff_eq, List.forall₂_eq_eq_eq]
    exact eq_comm
  rw [← hset]
  exact .word _ _

theorem insensitive_exact (w : String) : Exact (insensitive w) (silent (keyword w)) Any := by
  have hset : ({x | List.Forall₂ (fun c d => (c.toLower == d.toLower) = true) w.toList x} :
      Language Char) = keyword w := by
    ext x
    show List.Forall₂ (fun c d => (c.toLower == d.toLower) = true) w.toList x ↔
      x.map Char.toLower = w.toList.map Char.toLower
    rw [eq_comm, ← List.forall₂_eq_eq_eq, List.forall₂_map_left_iff, List.forall₂_map_right_iff]
    simp only [beq_iff_eq]
  rw [← hset]
  exact .word _ _

theorem run_ws (n : Nat) (c : Char) (r : List Char) :
    run n ws (c :: r) = if IsWs c then some ([], r) else none := by
  by_cases h1 : c = ' '
  · simp [ws, exactly, run, strip, IsWs, h1]
  by_cases h2 : c = '\t'
  · simp [ws, exactly, run, strip, IsWs, h2]
  by_cases h3 : c = '\r'
  · simp [ws, exactly, run, strip, IsWs, h3]
  by_cases h4 : c = '\n'
  · simp [ws, exactly, run, strip, IsWs, h4]
  simp [ws, exactly, run, strip, IsWs, h1, h2, h3, h4, Ne.symm h1, Ne.symm h2, Ne.symm h3,
    Ne.symm h4]

theorem ws_exact : Exact ws (silent blank) Any where
  sound := by
    intro n i ps r h
    cases i with
    | nil => cases h
    | cons c i =>
      rw [run_ws] at h
      split at h <;> cases h
      rename_i hc
      exact ⟨[c], rfl, ⟨c, hc, rfl⟩, rfl⟩
  complete := by
    rintro _ _ r n ⟨⟨c, hc, rfl⟩, rfl⟩ _
    rw [List.singleton_append, run_ws, if_pos hc]

theorem star_ws_exact : Exact (.star ws) (silent blank∗) NoWs := by
  refine .star ws_exact ?_ fun n r hr => ?_
  · rintro ⟨c, _, h⟩
    cases h
  · cases r with
    | nil => rfl
    | cons c r => rw [run_ws, if_neg (hr c r rfl)]

theorem plus_ws_exact : Exact (plus ws) (silent (blank * blank∗)) NoWs :=
  ws_exact.seq_silent star_ws_exact fun _ _ _ _ => trivial

/-! ### The rules -/

theorem noWs_token {w : String} {c : Char} {t : List Char} (hw : w.toList = c :: t)
    (hc : ¬IsWs c) {y : List Char} (h : y ∈ token w) (r : List Char) : NoWs (y ++ r) := by
  have hy : y = c :: t := Eq.trans h hw
  rw [hy]
  exact noWs_cons hc

theorem noWs_keyword {w : String} {c : Char} {t : List Char} (hw : w.toList = c :: t)
    (hc : ¬IsWs c.toLower) {y : List Char} (h : y ∈ keyword w) (r : List Char) :
    NoWs (y ++ r) := by
  obtain ⟨d, y, rfl, hd⟩ := keyword_head hw h
  exact noWs_cons (not_ws_of_toLower hd hc)

/-- What begins like one of its parts. -/
theorem noWs_mul {l m : Language Char} {y r : List Char} (h : y ∈ l * m)
    (hl : ∀ x ∈ l, ∀ r, NoWs (x ++ r)) : NoWs (y ++ r) := by
  obtain ⟨x, hx, z, _, rfl⟩ := Language.mem_mul.mp h
  rw [List.append_assoc]
  exact hl x hx _

theorem noWs_join {L M : Reading Rule Char} {y : List Char} {ps : List (Pair Rule Char)}
    (h : join L M y ps) (hL : ∀ x qs, L x qs → ∀ r, NoWs (x ++ r)) (r : List Char) :
    NoWs (y ++ r) := by
  obtain ⟨x, qs, z, rs, rfl, rfl, hx, _⟩ := h
  rw [List.append_assoc]
  exact hL x qs hx _

def pingCore : Language Char :=
  keyword "SELECT" * (blank * blank∗) * token "1"

theorem ping_exact : Exact ping (reported .ping pingCore) Any := by
  have hone := plus_ws_exact.seq_silent (exactly_exact "1")
    fun y hy r _ => noWs_token rfl (by decide) hy r
  have hbody := (insensitive_exact "SELECT").seq_silent hone fun _ _ _ _ => trivial
  rw [← mul_assoc] at hbody
  exact hbody.node_silent .ping

/-! ### Literals -/

/-- Two quotes, or a character that is none. -/
def letter : Language Char := token "''" + symbols (· ≠ '\'')

theorem run_quote (n : Nat) (c : Char) (r : List Char) :
    run n (exactly "'") (c :: r) = none ↔ c ≠ '\'' := by
  by_cases hc : c = '\''
  · simp [exactly, run, strip, hc]
  · simp [exactly, run, strip, hc, Ne.symm hc]

theorem run_quotes (n : Nat) {c : Char} (hc : c ≠ '\'') (r : List Char) :
    run n (exactly "''") (c :: r) = none := by
  simp [exactly, run, strip, Ne.symm hc]

theorem letter_exact : Exact (.choice (exactly "''") (.seq (.not (exactly "'")) any))
    (silent letter) Any := by
  have hother : Exact (.seq (.not (exactly "'")) any : Grammar)
      (silent (symbols fun c => c ≠ '\'' ∧ true = true)) Any := .except run_quote
  simp only [and_true] at hother
  refine ((exactly_exact "''").choice_silent hother ?_).mono fun _ _ => ⟨trivial, trivial⟩
  rintro n _ ⟨c, hc, rfl⟩ r _
  exact run_quotes n hc r

/-- No quote follows. -/
def NoQuote (r : List Char) : Prop := ∀ t, r ≠ '\'' :: t

theorem mem_letter_kstar {x : List Char} : x ∈ letter∗ ↔ ∃ v, x = doubled v := by
  rw [Language.mem_kstar]
  constructor
  · rintro ⟨words, rfl, hwords⟩
    induction words with
    | nil => exact ⟨[], rfl⟩
    | cons word words ih =>
      obtain ⟨v, hv⟩ := ih fun w hw => hwords w (List.mem_cons_of_mem _ hw)
      rw [List.flatten_cons, hv]
      rcases hwords word List.mem_cons_self with rfl | ⟨c, hc, rfl⟩
      · exact ⟨'\'' :: v, by simp [doubled]⟩
      · exact ⟨c :: v, by simp [doubled, hc]⟩
  · rintro ⟨v, rfl⟩
    induction v with
    | nil => exact ⟨[], rfl, nofun⟩
    | cons c v ih =>
      obtain ⟨words, hv, hwords⟩ := ih
      by_cases hc : c = '\''
      · refine ⟨['\'', '\''] :: words, by simp [doubled, hc, hv], ?_⟩
        exact List.forall_mem_cons.mpr ⟨Or.inl rfl, hwords⟩
      · refine ⟨[c] :: words, by simp [doubled, hc, hv], ?_⟩
        exact List.forall_mem_cons.mpr ⟨Or.inr ⟨c, hc, rfl⟩, hwords⟩

/-- The literals. -/
def literals : Language Char := {x | ∃ v, x = quoted v}

theorem textLiteral_exact : Exact textLiteral (reported .textLiteral literals) NoQuote := by
  have hletters : Exact (.star (.choice (exactly "''") (.seq (.not (exactly "'")) any)))
      (silent letter∗) (fun r => ∃ t, r = '\'' :: t ∧ NoQuote t) := by
    refine letter_exact.star ?_ ?_
    · rintro (h | ⟨c, _, h⟩) <;> cases h
    · rintro n _ ⟨t, rfl, ht⟩
      cases t with
      | nil => simp [exactly, run, strip]
      | cons c t =>
        have hc : c ≠ '\'' := fun h => ht t (by rw [h])
        simp [exactly, run, strip, Ne.symm hc]
  have hclose := hletters.seq_silent ((exactly_exact "'").mono (G := NoQuote) fun _ _ => trivial)
    fun y hy r hr => ⟨r, by rw [show y = ['\''] from hy]; rfl, hr⟩
  have hbody := (exactly_exact "'").seq_silent hclose fun _ _ _ _ => trivial
  have hset : token "'" * (letter∗ * token "'") = literals := by
    ext x
    simp only [Language.mem_mul, mem_letter_kstar]
    constructor
    · rintro ⟨_, rfl, _, ⟨_, ⟨v, rfl⟩, _, rfl, rfl⟩, rfl⟩
      refine ⟨String.ofList v, ?_⟩
      simp only [quoted, String.toList_ofList]
      rfl
    · rintro ⟨v, rfl⟩
      exact ⟨['\''], rfl, _, ⟨_, ⟨v.toList, rfl⟩, ['\''], rfl, rfl⟩, rfl⟩
  rw [hset] at hbody
  exact hbody.atom_silent .textLiteral

/-! ### Parameters -/

def castShape : Language Char := blank∗ * (token "::" * (blank∗ * keyword "text"))

theorem parameterShape_eq : parameterShape = token "$1" * (1 + castShape) := by
  rw [parameterShape, castShape, mul_assoc, mul_assoc]

/-- No cast follows. -/
def NoCast (r : List Char) : Prop := ∀ x ∈ castShape, ∀ t, r ≠ x ++ t

theorem parameter_exact : Exact parameter (reported .parameter parameterShape) NoCast := by
  have htext := star_ws_exact.seq_silent (insensitive_exact "text")
    fun y hy r _ => noWs_keyword rfl (by decide) hy r
  have hcolons := (exactly_exact "::").seq_silent htext fun _ _ _ _ => trivial
  have hcast := star_ws_exact.seq_silent hcolons fun y hy r _ =>
    noWs_mul hy fun x hx r => noWs_token rfl (by decide) hx r
  have hopt := hcast.opt (G := NoCast) fun n r hr =>
    hcast.refuses fun x ps t hx => hr x hx.1 t
  have hbody := (exactly_exact "$1").seq_silent (hopt.mono fun r (hr : NoCast r) => ⟨trivial, hr⟩)
    fun _ _ _ _ => trivial
  rw [← castShape, ← parameterShape_eq] at hbody
  exact hbody.atom_silent .parameter

/-! ### The release -/

/-- A literal or a parameter. -/
def argument : Reading Rule Char := fun x ps =>
  reported .textLiteral literals x ps ∨ reported .parameter parameterShape x ps

theorem mem_close {y : List Char} (h : y ∈ blank∗ * token ")") :
    ∃ w, (∀ c ∈ w, IsWs c) ∧ y = w ++ [')'] := by
  obtain ⟨w, hw, z, hz, rfl⟩ := Language.mem_mul.mp h
  exact ⟨w, mem_blank_kstar.mp hw, congrArg _ hz⟩

theorem noQuote_close {y r : List Char} (h : y ∈ blank∗ * token ")") : NoQuote (y ++ r) := by
  obtain ⟨w, hw, rfl⟩ := mem_close h
  intro t ht
  cases w with
  | nil => cases ht
  | cons c w =>
    injection ht with hc _
    exact absurd (hw c List.mem_cons_self) (hc ▸ by decide)

theorem noCast_close {y r : List Char} (h : y ∈ blank∗ * token ")") : NoCast (y ++ r) := by
  obtain ⟨w, hw, rfl⟩ := mem_close h
  intro x hx t ht
  obtain ⟨u, hu, _, hcolons, rfl⟩ := Language.mem_mul.mp hx
  obtain ⟨_, rfl, z, _, rfl⟩ := Language.mem_mul.mp hcolons
  simp only [List.append_assoc] at ht
  have hend : ')' = ':' :=
    blank_end_unique (by decide) (by decide) hw (mem_blank_kstar.mp hu) ht
  exact absurd hend (by decide)

theorem argument_exact : Exact (.choice textLiteral parameter) argument
    (fun r => NoQuote r ∧ NoCast r) := by
  refine textLiteral_exact.choice parameter_exact ?_
  rintro n y ps r ⟨hy, _⟩ _
  obtain ⟨_, rfl, z, _, rfl⟩ := Language.mem_mul.mp hy
  refine textLiteral_exact.refuses ?_
  rintro x qs t ⟨⟨v, rfl⟩, _⟩ h
  cases h

theorem argument_head {y : List Char} {ps : List (Pair Rule Char)} (h : argument y ps)
    (r : List Char) : NoWs (y ++ r) := by
  rcases h with ⟨⟨v, rfl⟩, _⟩ | ⟨hy, _⟩
  · exact noWs_cons (by decide)
  · rw [parameterShape_eq] at hy
    exact noWs_mul hy fun x hx r => noWs_token rfl (by decide) hx r

/-- What comes before the argument. -/
def opening : Language Char :=
  keyword "SELECT" * (blank * blank∗) * keyword "pgtest_release" * blank∗ * token "(" * blank∗

theorem opening_eq : opening = keyword "SELECT" * (blank * blank∗ *
    (keyword "pgtest_release" * (blank∗ * (token "(" * blank∗)))) := by
  simp only [opening, mul_assoc]

/-- What comes after it. -/
def closing : Language Char := blank∗ * token ")"

/-- What a release reads, and the pair of its argument within its own. -/
def released : Reading Rule Char := fun x ps =>
  ∃ qs, join (join (silent opening) argument) (silent closing) x qs ∧ ps = [.mk .release x qs]

theorem release_exact : Exact release released Any := by
  have hclose := star_ws_exact.seq_silent (exactly_exact ")")
    fun y hy r _ => noWs_token rfl (by decide) hy r
  have hargument := argument_exact.seq hclose
    fun y ps r hy _ => ⟨noQuote_close hy.1, noCast_close hy.1⟩
  have hblank := star_ws_exact.seq hargument
    fun y ps r hy _ => noWs_join hy (fun _ _ => argument_head) r
  have hopen := (exactly_exact "(").seq hblank fun _ _ _ _ _ => trivial
  have hgap := star_ws_exact.seq hopen
    fun y ps r hy _ => noWs_join hy (fun _ _ hx => noWs_token rfl (by decide) hx.1) r
  have hname := (insensitive_exact "pgtest_release").seq hgap fun _ _ _ _ _ => trivial
  have hspace := plus_ws_exact.seq hname
    fun y ps r hy _ => noWs_join hy (fun _ _ hx => noWs_keyword rfl (by decide) hx.1) r
  have hbody := (insensitive_exact "SELECT").seq hspace fun _ _ _ _ _ => trivial
  simp only [join_assoc, join_silent] at hbody
  rw [← opening_eq] at hbody
  exact hbody.node .release

end Grammar

end PgTest.ControlPanel
