import Mathlib.Computability.Language

/-!
# Parsing expressions

Parsing expressions over symbols `α`, whose rules have names in `R`, and what they match.
A choice takes its first alternative that matches, a repetition takes as much as it
can, and neither is ever taken back.  The rules of a grammar that do not call
themselves are expressions; `node` and `atom` say which of them report what they
matched.

`Exact e L F` compares an expression with a language: `e` matches words of `L` only, and
every word of `L` wherever `F` holds of what follows it.  The rules below build the
language of an expression from those of its parts; what they ask of the followers is
all that greed and order can spoil.
-/

namespace PgTest.Lib

open Computability

universe u v

/-- What a rule matched, and what the rules in it matched. -/
inductive Pair (R : Type u) (α : Type v)
  | mk (rule : R) (text : List α) (inner : List (Pair R α))

namespace Pair

variable {R : Type u} {α : Type v}

def rule : Pair R α → R
  | mk rule _ _ => rule

def text : Pair R α → List α
  | mk _ text _ => text

def inner : Pair R α → List (Pair R α)
  | mk _ _ inner => inner

end Pair

inductive Peg (R : Type u) (α : Type v)
  /-- The start of the input. -/
  | start
  /-- The end of the input. -/
  | stop
  /-- One symbol with a property. -/
  | one (p : α → Bool)
  /-- A word, symbol by symbol. -/
  | word (same : α → α → Bool) (w : List α)
  | seq (a b : Peg R α)
  | choice (a b : Peg R α)
  | star (a : Peg R α)
  | opt (a : Peg R α)
  /-- `a` does not match here. -/
  | not (a : Peg R α)
  /-- A rule that reports what it matched. -/
  | node (rule : R) (a : Peg R α)
  /-- A rule that reports what it matched, without the rules in it. -/
  | atom (rule : R) (a : Peg R α)

namespace Peg

variable {R : Type u} {α : Type v}

/-- What is left after the word, if the input starts with it. -/
def strip (same : α → α → Bool) : List α → List α → Option (List α)
  | [], i => some i
  | _ :: _, [] => none
  | c :: w, d :: i => if same c d then strip same w i else none

/-- As many matches of `f` as there are, up to a number.  A match of nothing ends it. -/
def loop (f : List α → Option (List (Pair R α) × List α)) :
    Nat → List α → List (Pair R α) × List α
  | 0, i => ([], i)
  | fuel + 1, i =>
    match f i with
    | none => ([], i)
    | some (ps, r) =>
      if r.length < i.length then (ps ++ (loop f fuel r).1, (loop f fuel r).2) else ([], i)

/-- What `e` matches at the beginning of `i`: the pairs of its rules, and what is left.
`n` is the length of the whole input. -/
def run (n : Nat) : Peg R α → List α → Option (List (Pair R α) × List α)
  | start, i => if i.length = n then some ([], i) else none
  | stop, i => if i.isEmpty then some ([], i) else none
  | one _, [] => none
  | one p, c :: i => if p c then some ([], i) else none
  | word same w, i => (strip same w i).map fun r => ([], r)
  | seq a b, i =>
    match run n a i with
    | none => none
    | some (ps, j) => (run n b j).map fun x => (ps ++ x.1, x.2)
  | choice a b, i => (run n a i).or (run n b i)
  | star a, i => some (loop (run n a) i.length i)
  | opt a, i => some ((run n a i).getD ([], i))
  | not a, i => if (run n a i).isSome then none else some ([], i)
  | node rule a, i =>
    (run n a i).map fun x => ([.mk rule (i.take (i.length - x.2.length)) x.1], x.2)
  | atom rule a, i =>
    (run n a i).map fun x => ([.mk rule (i.take (i.length - x.2.length)) []], x.2)

/-- One after the other. -/
def seqs (a : Peg R α) : List (Peg R α) → Peg R α
  | [] => a
  | b :: rest => seq a (seqs b rest)

/-- One or more. -/
def plus (a : Peg R α) : Peg R α := seq a (star a)

variable {n : Nat} {a b e : Peg R α} {i j r x : List α} {ps qs : List (Pair R α)}

theorem run_seq (h : run n a i = some (ps, j)) :
    run n (seq a b) i = (run n b j).map fun x => (ps ++ x.1, x.2) := by
  simp [run, h]

theorem run_seq_none (h : run n a i = none) : run n (seq a b) i = none := by
  simp [run, h]

theorem run_seq_iff : run n (seq a b) i = some (ps, r) ↔ ∃ qs j qs',
    run n a i = some (qs, j) ∧ run n b j = some (qs', r) ∧ ps = qs ++ qs' := by
  cases h : run n a i with
  | none => simp [run_seq_none h]
  | some x =>
    obtain ⟨qs, j⟩ := x
    rw [run_seq h, Option.map_eq_some_iff]
    constructor
    · rintro ⟨⟨qs', k⟩, hb, heq⟩
      cases heq
      exact ⟨qs, j, qs', rfl, hb, rfl⟩
    · rintro ⟨_, _, qs', heq, hb, rfl⟩
      cases heq
      exact ⟨(qs', r), hb, rfl⟩

/-- The last part of a sequence ends where the sequence does. -/
theorem run_seqs_last {l : List (Peg R α)} : ∀ {a : Peg R α} {i : List α} {ps : List (Pair R α)},
    run n (seqs a l) i = some (ps, r) →
    ∃ j qs, run n ((a :: l).getLast (List.cons_ne_nil a l)) j = some (qs, r) := by
  induction l with
  | nil =>
    intro a i ps h
    exact ⟨i, ps, h⟩
  | cons b rest ih =>
    intro a i ps h
    obtain ⟨_, j, qs', _, h2, _⟩ := run_seq_iff.mp h
    rw [List.getLast_cons (List.cons_ne_nil b rest)]
    exact ih h2

theorem run_stop_end (h : run n stop i = some (ps, r)) : r = [] := by
  rw [run] at h
  split at h <;> cases h
  exact List.isEmpty_iff.mp ‹_›

theorem run_node_body {rule : R} (h : run n (node rule a) i = some (ps, r)) :
    ∃ qs, run n a i = some (qs, r) := by
  rw [run, Option.map_eq_some_iff] at h
  obtain ⟨⟨qs, _⟩, hrun, heq⟩ := h
  cases heq
  exact ⟨qs, hrun⟩

/-! ### Repetition -/

theorem loop_fuel (f : List α → Option (List (Pair R α) × List α)) : ∀ {fuel : Nat} {i : List α},
    i.length ≤ fuel → loop f fuel i = loop f i.length i := by
  intro fuel
  induction fuel using Nat.strongRecOn with
  | ind fuel ih =>
    intro i hi
    cases fuel with
    | zero => rw [Nat.le_zero.mp hi]
    | succ fuel =>
      cases hlen : i.length with
      | zero =>
        rw [List.length_eq_zero_iff] at hlen
        subst hlen
        rw [loop, loop]
        cases f [] with
        | none => rfl
        | some x => simp
      | succ m =>
        rw [loop, loop]
        cases f i with
        | none => rfl
        | some x =>
          dsimp only
          split
          case isTrue hlt =>
            rw [ih fuel (Nat.lt_succ_self _) (by omega), ih m (by omega) (by omega)]
          case isFalse => rfl

theorem run_star_none (h : run n a i = none) : run n (star a) i = some ([], i) := by
  rw [run]
  cases hlen : i.length with
  | zero => rfl
  | succ m => simp [loop, h]

theorem run_star_some (h : run n a i = some (ps, j)) (hlt : j.length < i.length)
    (hrest : run n (star a) j = some (qs, r)) : run n (star a) i = some (ps ++ qs, r) := by
  rw [run] at hrest ⊢
  cases hlen : i.length with
  | zero => omega
  | succ m =>
    have hfuel : loop (run n a) m j = loop (run n a) j.length j := loop_fuel _ (by omega)
    simp [loop, h, hlt, hfuel, Option.some.inj hrest]

/-- **The induction rule of a repetition.** -/
theorem run_star_induction {P : List α → List (Pair R α) → List α → Prop} (hdone : ∀ i, P i [] i)
    (hmore : ∀ i ps j qs r, run n a i = some (ps, j) → P j qs r → P i (ps ++ qs) r)
    (h : run n (star a) i = some (ps, r)) : P i ps r := by
  have hloop : ∀ fuel i, P i (loop (run n a) fuel i).1 (loop (run n a) fuel i).2 := by
    intro fuel
    induction fuel with
    | zero => exact hdone
    | succ fuel ih =>
      intro i
      rw [loop]
      split
      · exact hdone i
      · rename_i ps j hj
        split
        · exact hmore i ps j _ _ hj (ih j)
        · exact hdone i
  have hend := hloop i.length i
  rw [run] at h
  rw [Option.some.inj h] at hend
  exact hend

/-! ### Exact readings -/

/-- What an expression may read, and with which pairs. -/
abbrev Reading (R : Type u) (α : Type v) := List α → List (Pair R α) → Prop

/-- The words of a language, without pairs. -/
def silent (l : Language α) : Reading R α := fun x ps => x ∈ l ∧ ps = []

/-- The symbols with a property. -/
def symbols (p : α → Prop) : Language α := {x | ∃ c, p c ∧ x = [c]}

/-- The words of a language, each reported by one rule. -/
def reported (rule : R) (l : Language α) : Reading R α := fun x ps => x ∈ l ∧ ps = [.mk rule x []]

/-- One reading after the other. -/
def join (L M : Reading R α) : Reading R α := fun x ps =>
  ∃ y qs z rs, x = y ++ z ∧ ps = qs ++ rs ∧ L y qs ∧ M z rs

/-- **`e` reads what `L` says.**  It reads nothing else, and that wherever `F` holds of what
follows. -/
structure Exact (e : Peg R α) (L : Reading R α) (F : List α → Prop) : Prop where
  sound : ∀ {n i ps r}, run n e i = some (ps, r) → ∃ x, i = x ++ r ∧ L x ps
  complete : ∀ {x ps r} n, L x ps → F r → run n e (x ++ r) = some (ps, r)

/-- Anything may follow. -/
def Any : List α → Prop := fun _ => True

theorem join_silent (l m : Language α) :
    join (silent l : Reading R α) (silent m) = silent (l * m) := by
  funext x ps
  refine propext ⟨?_, ?_⟩
  · rintro ⟨y, qs, z, rs, rfl, rfl, ⟨hy, rfl⟩, hz, rfl⟩
    exact ⟨Language.mem_mul.mpr ⟨y, hy, z, hz, rfl⟩, rfl⟩
  · rintro ⟨hx, rfl⟩
    obtain ⟨y, hy, z, hz, rfl⟩ := Language.mem_mul.mp hx
    exact ⟨y, [], z, [], rfl, rfl, ⟨hy, rfl⟩, hz, rfl⟩

theorem join_assoc (L M N : Reading R α) : join L (join M N) = join (join L M) N := by
  funext x ps
  refine propext ⟨?_, ?_⟩
  · rintro ⟨y, qs, _, _, rfl, rfl, hy, z, rs, w, ss, rfl, rfl, hz, hw⟩
    exact ⟨y ++ z, qs ++ rs, w, ss, (List.append_assoc _ _ _).symm, (List.append_assoc _ _ _).symm,
      ⟨y, qs, z, rs, rfl, rfl, hy, hz⟩, hw⟩
  · rintro ⟨_, _, w, ss, rfl, rfl, ⟨y, qs, z, rs, rfl, rfl, hy, hz⟩, hw⟩
    exact ⟨y, qs, z ++ w, rs ++ ss, List.append_assoc _ _ _, List.append_assoc _ _ _, hy,
      z, rs, w, ss, rfl, rfl, hz, hw⟩

namespace Exact

variable {L M : Reading R α} {F G : List α → Prop} {l m : Language α}

theorem mono (h : Exact e L F) (hG : ∀ r, G r → F r) : Exact e L G where
  sound := h.sound
  complete n hx hr := h.complete n hx (hG _ hr)

theorem one (p : α → Bool) : Exact (.one p : Peg R α) (silent (symbols (p · = true))) Any where
  sound := by
    intro n i ps r h
    cases i with
    | nil => cases h
    | cons c i =>
      rw [run] at h
      split at h <;> cases h
      rename_i hc
      exact ⟨[c], rfl, ⟨c, hc, rfl⟩, rfl⟩
  complete := by
    rintro _ _ r n ⟨⟨c, hc, rfl⟩, rfl⟩ _
    simp [run, hc]

theorem strip_iff {same : α → α → Bool} : ∀ {w i r : List α},
    strip same w i = some r ↔ ∃ x, i = x ++ r ∧ List.Forall₂ (fun c d => same c d = true) w x := by
  intro w
  induction w with
  | nil =>
    intro i r
    simp [strip]
  | cons c w ih =>
    intro i r
    cases i with
    | nil => simp [strip]
    | cons d i =>
      rw [strip]
      split
      case isTrue hc =>
        rw [ih]
        constructor
        · rintro ⟨x, rfl, hx⟩
          exact ⟨d :: x, rfl, .cons hc hx⟩
        · rintro ⟨_, heq, hx⟩
          cases hx with
          | cons _ hx =>
            cases heq
            exact ⟨_, rfl, hx⟩
      case isFalse hc =>
        refine ⟨nofun, ?_⟩
        rintro ⟨_, heq, hx⟩
        cases hx with
        | cons hc' _ =>
          cases heq
          exact absurd hc' hc

theorem word (same : α → α → Bool) (w : List α) : Exact (.word same w : Peg R α)
    (silent {x | List.Forall₂ (fun c d => same c d = true) w x}) Any where
  sound := by
    intro n i ps r h
    rw [run, Option.map_eq_some_iff] at h
    obtain ⟨_, hs, heq⟩ := h
    cases heq
    obtain ⟨x, hi, hx⟩ := strip_iff.mp hs
    exact ⟨x, hi, hx, rfl⟩
  complete := by
    rintro x _ r n ⟨hx, rfl⟩ _
    rw [run, strip_iff.mpr ⟨x, rfl, hx⟩]
    rfl

/-- It does not match where no word of its language begins. -/
theorem refuses (h : Exact e L F) (hno : ∀ x ps t, L x ps → i ≠ x ++ t) : run n e i = none := by
  cases hrun : run n e i with
  | none => rfl
  | some res =>
    obtain ⟨x, hi, hx⟩ := h.sound hrun
    exact absurd hi (hno x _ _ hx)

/-- The end of the input. -/
theorem stop : Exact (.stop : Peg R α) (silent 1) (· = []) where
  sound := by
    intro n i ps r h
    rw [run] at h
    split at h <;> cases h
    exact ⟨[], rfl, rfl, rfl⟩
  complete := by
    rintro _ _ r n ⟨rfl, rfl⟩ rfl
    rfl

/-- One after the other, if every word can be split so that the second part may follow. -/
theorem seq_split (ha : Exact a L F) (hb : Exact b M G)
    (hf : ∀ x ps r, join L M x ps → G r → ∃ y qs z rs, x = y ++ z ∧ ps = qs ++ rs ∧ L y qs ∧
      M z rs ∧ F (z ++ r)) : Exact (seq a b) (join L M) G where
  sound := by
    intro n i ps r h
    obtain ⟨qs, j, qs', h1, h2, rfl⟩ := run_seq_iff.mp h
    obtain ⟨x, rfl, hx⟩ := ha.sound h1
    obtain ⟨y, rfl, hy⟩ := hb.sound h2
    exact ⟨x ++ y, (List.append_assoc _ _ _).symm, x, qs, y, qs', rfl, rfl, hx, hy⟩
  complete := by
    intro x ps r n hx hr
    obtain ⟨y, qs, z, rs, rfl, rfl, hy, hz, hfollow⟩ := hf x ps r hx hr
    refine run_seq_iff.mpr ⟨qs, z ++ r, rs, ?_, hb.complete n hz hr, rfl⟩
    rw [List.append_assoc]
    exact ha.complete n hy hfollow

/-- One after the other, if whatever the second reads may follow the first. -/
theorem seq (ha : Exact a L F) (hb : Exact b M G) (hf : ∀ y ps r, M y ps → G r → F (y ++ r)) :
    Exact (seq a b) (join L M) G := by
  refine ha.seq_split hb ?_
  rintro _ _ r ⟨y, qs, z, rs, rfl, rfl, hy, hz⟩ hr
  exact ⟨y, qs, z, rs, rfl, rfl, hy, hz, hf z rs r hz hr⟩

/-- The same without pairs. -/
theorem seq_silent (ha : Exact a (silent l) F) (hb : Exact b (silent m) G)
    (hf : ∀ y ∈ m, ∀ r, G r → F (y ++ r)) : Exact (Peg.seq a b) (silent (l * m)) G := by
  rw [← join_silent]
  exact ha.seq hb fun y _ r hy hr => hf y hy.1 r hr

/-- One symbol that another expression does not match. -/
theorem except {p : α → Bool} {q : α → Prop} (hno : ∀ n c r, run n a (c :: r) = none ↔ q c) :
    Exact (Peg.seq (.not a) (.one p)) (silent (symbols fun c => q c ∧ p c = true)) Any where
  sound := by
    intro n i ps r h
    obtain ⟨qs, j, qs', h1, h2, rfl⟩ := run_seq_iff.mp h
    rw [run] at h1
    split at h1
    · cases h1
    rename_i hnone
    cases h1
    obtain ⟨x, rfl, ⟨c, hc, rfl⟩, rfl⟩ := (one p).sound h2
    rw [Option.not_isSome_iff_eq_none] at hnone
    exact ⟨[c], rfl, ⟨c, ⟨(hno n c r).mp hnone, hc⟩, rfl⟩, rfl⟩
  complete := by
    rintro _ _ r n ⟨⟨c, hc, rfl⟩, rfl⟩ _
    refine run_seq_iff.mpr ⟨[], c :: r, [], ?_, ?_, rfl⟩
    · simp [run, (hno n c r).mpr hc.1]
    · simp [run, hc.2]

/-- A choice, if the first alternative does not match what the second reads. -/
theorem choice (ha : Exact a L F) (hb : Exact b M G)
    (hno : ∀ n y ps r, M y ps → G r → run n a (y ++ r) = none) :
    Exact (choice a b) (fun x ps => L x ps ∨ M x ps) (fun r => F r ∧ G r) where
  sound := by
    intro n i ps r h
    rw [run] at h
    rcases Option.or_eq_some_iff.mp h with h | ⟨_, h⟩
    · obtain ⟨x, hi, hx⟩ := ha.sound h
      exact ⟨x, hi, Or.inl hx⟩
    · obtain ⟨x, hi, hx⟩ := hb.sound h
      exact ⟨x, hi, Or.inr hx⟩
  complete := by
    rintro x ps r n hx ⟨hf, hg⟩
    rw [run]
    rcases hx with hx | hx
    · rw [ha.complete n hx hf]
      rfl
    · rw [hno n x ps r hx hg, hb.complete n hx hg]
      rfl

theorem choice_silent (ha : Exact a (silent l) F) (hb : Exact b (silent m) G)
    (hno : ∀ n, ∀ y ∈ m, ∀ r, G r → run n a (y ++ r) = none) :
    Exact (Peg.choice a b) (silent (l + m)) (fun r => F r ∧ G r) where
  sound := by
    intro n i ps r h
    obtain ⟨x, hi, hx⟩ := (ha.choice hb fun n y _ r hy hr => hno n y hy.1 r hr).sound h
    rcases hx with ⟨hx, hps⟩ | ⟨hx, hps⟩
    · exact ⟨x, hi, Or.inl hx, hps⟩
    · exact ⟨x, hi, Or.inr hx, hps⟩
  complete := by
    rintro x ps r n ⟨hx, hps⟩ hr
    refine (ha.choice hb fun n y _ r hy hr => hno n y hy.1 r hr).complete n ?_ hr
    exact hx.imp (fun hx => ⟨hx, hps⟩) fun hx => ⟨hx, hps⟩

/-- An option, where it does not match what follows. -/
theorem opt (ha : Exact a (silent l) F) (hno : ∀ n r, G r → run n a r = none) :
    Exact (opt a) (silent (1 + l)) (fun r => F r ∧ G r) where
  sound := by
    intro n i ps r h
    rw [run] at h
    cases hrun : run n a i with
    | none =>
      rw [hrun] at h
      cases h
      exact ⟨[], rfl, Or.inl rfl, rfl⟩
    | some res =>
      rw [hrun] at h
      cases h
      obtain ⟨x, hi, hx, hps⟩ := ha.sound hrun
      exact ⟨x, hi, Or.inr hx, hps⟩
  complete := by
    rintro x _ r n ⟨hx, rfl⟩ ⟨hf, hg⟩
    rw [run]
    rcases hx with rfl | hx
    · rw [List.nil_append, hno n r hg]
      rfl
    · rw [ha.complete n ⟨hx, rfl⟩ hf]
      rfl

/-- As many as there are, where no other follows. -/
theorem star (ha : Exact a (silent l) Any) (hne : [] ∉ l) (hno : ∀ n r, G r → run n a r = none) :
    Exact (star a) (silent l∗) G where
  sound := by
    intro n i ps r h
    refine run_star_induction (P := fun i ps r => ∃ x, i = x ++ r ∧ silent l∗ x ps)
      (fun i => ⟨[], rfl, Language.nil_mem_kstar l, rfl⟩) ?_ h
    rintro _ _ _ _ r hrun ⟨y, rfl, hy, rfl⟩
    obtain ⟨x, rfl, hx, rfl⟩ := ha.sound hrun
    refine ⟨x ++ y, (List.append_assoc _ _ _).symm, ?_, rfl⟩
    rw [← Language.one_add_self_mul_kstar_eq_kstar]
    exact Or.inr (Language.append_mem_mul hx hy)
  complete := by
    rintro _ _ r n ⟨hx, rfl⟩ hr
    obtain ⟨words, rfl, hwords⟩ := Language.mem_kstar.mp hx
    clear hx
    induction words with
    | nil => exact run_star_none (hno n r hr)
    | cons y words ih =>
      have hy := hwords y List.mem_cons_self
      have hrest := fun z hz => hwords z (List.mem_cons_of_mem _ hz)
      rw [List.flatten_cons, List.append_assoc]
      refine run_star_some (ha.complete n ⟨hy, rfl⟩ trivial) ?_ (ih hrest)
      have hpos : 0 < y.length := List.length_pos_of_ne_nil fun he => hne (he ▸ hy)
      simp only [List.length_append]
      omega

theorem node (ha : Exact a L F) (rule : R) :
    Exact (node rule a) (fun x ps => ∃ qs, L x qs ∧ ps = [.mk rule x qs]) F where
  sound := by
    intro n i ps r h
    rw [run, Option.map_eq_some_iff] at h
    obtain ⟨⟨qs, j⟩, hrun, heq⟩ := h
    cases heq
    obtain ⟨x, rfl, hx⟩ := ha.sound hrun
    refine ⟨x, rfl, qs, hx, ?_⟩
    simp
  complete := by
    rintro x _ r n ⟨qs, hx, rfl⟩ hr
    rw [run, ha.complete n hx hr]
    simp

theorem node_silent (ha : Exact a (silent l) F) (rule : R) :
    Exact (Peg.node rule a) (reported rule l) F where
  sound := by
    intro n i ps r h
    obtain ⟨x, hi, _, ⟨hx, rfl⟩, rfl⟩ := (ha.node rule).sound h
    exact ⟨x, hi, hx, rfl⟩
  complete := by
    rintro x _ r n ⟨hx, rfl⟩ hr
    exact (ha.node rule).complete n ⟨[], ⟨hx, rfl⟩, rfl⟩ hr

theorem atom_silent (ha : Exact a (silent l) F) (rule : R) :
    Exact (Peg.atom rule a) (reported rule l) F where
  sound := by
    intro n i ps r h
    rw [run, Option.map_eq_some_iff] at h
    obtain ⟨⟨qs, j⟩, hrun, heq⟩ := h
    cases heq
    obtain ⟨x, rfl, hx, rfl⟩ := ha.sound hrun
    exact ⟨x, rfl, hx, by simp⟩
  complete := by
    rintro x _ r n ⟨hx, rfl⟩ hr
    rw [run, ha.complete n ⟨hx, rfl⟩ hr]
    simp

end Exact

end Peg

end PgTest.Lib
