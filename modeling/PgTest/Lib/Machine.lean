import Mathlib.Data.List.Induction
import Mathlib.Order.Defs.PartialOrder

/-!
# Labelled machines and their runs

A `Machine` has a set of starting states and a step relation with labels.  A
`Run` is a list of steps, written with its labels.  Two rules carry every
invariant of the development: `Run.invariant` follows one run, and
`Reachable.invariant` follows a machine from its starting states.  `Run.toward` is the
rule of what comes to its end: a measure that some possible step lowers.

`Refines` says that each step of one machine is a run of another; `Refines.run`
carries this to whole runs, and `Refines.reachable` to reachable states, so what is
invariant above holds below.

The last part is about functions that may fail: `bind_ok` takes a successful
`>>=` apart and `bind_error` a failed one, `foldlM_ok` is the invariant rule of a loop
that may fail, `foldlM_error` says where it failed, and `ok_of_any` is for results that
are computed.
-/

namespace PgTest.Lib

universe u v w x

/-- Where a machine may start, and what each label may do to a state. -/
structure Machine (σ : Type u) (ι : Type v) where
  init : σ → Prop
  step : σ → ι → σ → Prop

namespace Machine

variable {σ : Type u} {ι : Type v} {M : Machine σ ι}

/-- `M.Run s is t`: the labels `is`, one after the other, lead from `s` to `t`. -/
inductive Run (M : Machine σ ι) : σ → List ι → σ → Prop
  | nil (s : σ) : Run M s [] s
  | cons {s t u : σ} {i : ι} {is : List ι} :
      M.step s i t → Run M t is u → Run M s (i :: is) u

/-- A state that some run leads to from a starting state. -/
def Reachable (M : Machine σ ι) (s : σ) : Prop := ∃ s₀ is, M.init s₀ ∧ M.Run s₀ is s

theorem Run.single {s t : σ} {i : ι} (h : M.step s i t) : M.Run s [i] t := .cons h (.nil t)

theorem Run.append {s t u : σ} {is js : List ι} (h : M.Run s is t) (g : M.Run t js u) :
    M.Run s (is ++ js) u := by
  induction h with
  | nil s => exact g
  | cons hs _ ih => exact .cons hs (ih g)

theorem Run.snoc {s t u : σ} {is : List ι} {i : ι} (h : M.Run s is t) (g : M.step t i u) :
    M.Run s (is ++ [i]) u := h.append (.single g)

/-- **The invariant rule of a run.**  What every step with a label of the run
keeps, the run keeps. -/
theorem Run.invariant {I : σ → Prop} {s t : σ} {is : List ι} (h : M.Run s is t)
    (hstep : ∀ s i t, i ∈ is → I s → M.step s i t → I t) (hs : I s) : I t := by
  induction h with
  | nil s => exact hs
  | cons hst _ ih =>
    refine ih (fun s i t hi => hstep s i t (List.mem_cons_of_mem _ hi)) ?_
    exact hstep _ _ _ List.mem_cons_self hs hst

/-- **The progress rule.**  Where `G` does not hold yet, a step of some kind keeps `I`
and leaves less to do.  So such steps lead to `G`, and no more of them than there was
to do. -/
theorem Run.toward {I G : σ → Prop} {P : ι → Prop} {m : σ → Nat}
    (hstep : ∀ s, I s → ¬G s → ∃ i t, P i ∧ M.step s i t ∧ I t ∧ m t < m s) :
    ∀ {s : σ}, I s → ∃ is t, M.Run s is t ∧ is.length ≤ m s ∧ (∀ i ∈ is, P i) ∧ I t ∧
      G t := by
  intro s hs
  induction hn : m s using Nat.strongRecOn generalizing s with
  | ind n ih =>
    by_cases hgoal : G s
    · exact ⟨[], s, .nil s, Nat.zero_le _, fun _ hi => absurd hi List.not_mem_nil, hs, hgoal⟩
    · obtain ⟨i, u, hi, hst, hu, hless⟩ := hstep s hs hgoal
      obtain ⟨is, t, hr, hlen, hall, ht, hdone⟩ := ih _ (hn ▸ hless) hu rfl
      refine ⟨i :: is, t, .cons hst hr, ?_, fun j hj => ?_, ht, hdone⟩
      · rw [List.length_cons]
        omega
      · rcases List.mem_cons.mp hj with rfl | hj
        · exact hi
        · exact hall j hj

/-- A run that is computed step by step. -/
theorem Run.of_foldlM {f : σ → ι → Option σ} (hf : ∀ s i t, f s i = some t → M.step s i t) :
    ∀ {is : List ι} {s t : σ}, is.foldlM f s = some t → M.Run s is t := by
  intro is
  induction is with
  | nil =>
    intro s t h
    cases h
    exact .nil _
  | cons i is ih =>
    intro s t h
    obtain ⟨u, h1, h2⟩ := Option.bind_eq_some_iff.mp h
    exact .cons (hf s i u h1) (ih h2)

/-- A run that takes the elements of a list in order, where `g` is the state after some
of them. -/
theorem Run.of_concat {α : Type w} {g : List α → σ} {label : α → ι} {l : List α}
    (h : ∀ m a, a ∈ l → M.step (g m) (label a) (g (m ++ [a]))) :
    M.Run (g []) (l.map label) (g l) := by
  induction l using List.reverseRecOn with
  | nil => exact .nil _
  | append_singleton l a ih =>
    rw [List.map_append]
    refine (ih fun m b hb => h m b (List.mem_append_left _ hb)).snoc ?_
    exact h l a (List.mem_append_right _ List.mem_cons_self)

theorem Reachable.of_init {s : σ} (h : M.init s) : M.Reachable s := ⟨s, [], h, .nil s⟩

theorem Reachable.run {s t : σ} {is : List ι} (h : M.Reachable s) (g : M.Run s is t) :
    M.Reachable t := by
  obtain ⟨s₀, js, h0, hr⟩ := h
  exact ⟨s₀, js ++ is, h0, hr.append g⟩

theorem Reachable.step {s t : σ} {i : ι} (h : M.Reachable s) (g : M.step s i t) :
    M.Reachable t := h.run (.single g)

/-- A state that is computed step by step from a reachable one. -/
theorem Reachable.of_foldlM {κ : Type w} {f : σ → κ → Option σ}
    (hf : ∀ s k t, M.Reachable s → f s k = some t → M.Reachable t) :
    ∀ {ks : List κ} {s t : σ}, M.Reachable s → ks.foldlM f s = some t → M.Reachable t := by
  intro ks
  induction ks with
  | nil =>
    intro s t hs h
    cases h
    exact hs
  | cons k ks ih =>
    intro s t hs h
    obtain ⟨u, h1, h2⟩ := Option.bind_eq_some_iff.mp h
    exact ih (hf s k u hs h1) h2

/-- **The invariant rule of a machine.**  What holds at the start and is kept by
every step from a reachable state holds in every reachable state. -/
theorem Reachable.invariant {I : σ → Prop} {s : σ} (h : M.Reachable s)
    (hinit : ∀ s, M.init s → I s)
    (hstep : ∀ s i t, M.Reachable s → I s → M.step s i t → I t) : I s := by
  obtain ⟨s₀, is, h0, hr⟩ := h
  have key : M.Reachable s ∧ I s := by
    refine hr.invariant (I := fun s => M.Reachable s ∧ I s) ?_ ⟨.of_init h0, hinit _ h0⟩
    intro s i t _ hs hst
    exact ⟨hs.1.step hst, hstep _ _ _ hs.1 hs.2 hst⟩
  exact key.2

/-- `M` as long as `P` holds. -/
def within (M : Machine σ ι) (P : σ → Prop) : Machine σ ι where
  init s := M.init s ∧ P s
  step s i t := P s ∧ M.step s i t ∧ P t

/-! ### One machine as runs of another -/

variable {τ : Type w} {κ : Type x} {A : Machine τ κ}

/-- Each step of `M` from a state with `I` is, seen through `f`, a run of `A`.
`I` is what the translation of a step needs to know about the state before. -/
structure Refines (M : Machine σ ι) (A : Machine τ κ) (f : σ → τ) (I : σ → Prop) : Prop where
  init : ∀ s, M.init s → A.Reachable (f s) ∧ I s
  step : ∀ s i t, A.Reachable (f s) → I s → M.step s i t → (∃ ks, A.Run (f s) ks (f t)) ∧ I t

theorem Refines.run {f : σ → τ} {I : σ → Prop} (R : M.Refines A f I) {s t : σ} {is : List ι}
    (h : M.Run s is t) (hr : A.Reachable (f s)) (hs : I s) :
    (∃ ks, A.Run (f s) ks (f t)) ∧ I t := by
  induction h with
  | nil s => exact ⟨⟨[], .nil _⟩, hs⟩
  | cons hst _ ih =>
    obtain ⟨⟨ks, h1⟩, ht⟩ := R.step _ _ _ hr hs hst
    obtain ⟨⟨js, h2⟩, hu⟩ := ih (hr.run h1) ht
    exact ⟨⟨ks ++ js, h1.append h2⟩, hu⟩

/-- **What the upper machine reaches covers what the lower one reaches.** -/
theorem Refines.reachable {f : σ → τ} {I : σ → Prop} (R : M.Refines A f I) {s : σ}
    (h : M.Reachable s) : A.Reachable (f s) ∧ I s := by
  obtain ⟨s₀, is, h0, hr⟩ := h
  obtain ⟨ha, hi⟩ := R.init s₀ h0
  obtain ⟨⟨ks, h1⟩, h2⟩ := R.run hr ha hi
  exact ⟨ha.run h1, h2⟩

end Machine

/-! ### Functions that may fail -/

variable {ε : Type u} {α : Type v} {β : Type v}

theorem bind_ok {e : Except ε α} {f : α → Except ε β} {b : β} (h : (e >>= f) = .ok b) :
    ∃ a, e = .ok a ∧ f a = .ok b := by
  cases e with
  | error e => cases h
  | ok a => exact ⟨a, rfl, h⟩

/-- **The invariant rule of a loop that may fail.** -/
theorem foldlM_ok {γ : Type w} {f : α → γ → Except ε α} {I : α → Prop} :
    ∀ {l : List γ} {a b : α}, (∀ a c b, c ∈ l → I a → f a c = .ok b → I b) → I a →
      l.foldlM f a = .ok b → I b := by
  intro l
  induction l with
  | nil =>
    intro a b _ ha h
    rw [List.foldlM_nil] at h
    cases h
    exact ha
  | cons c l ih =>
    intro a b hstep ha h
    rw [List.foldlM_cons] at h
    obtain ⟨a', h1, h2⟩ := bind_ok h
    have ha' : I a' := hstep a c a' List.mem_cons_self ha h1
    exact ih (fun a c b hc => hstep a c b (List.mem_cons_of_mem _ hc)) ha' h2

theorem bind_error {e : Except ε α} {f : α → Except ε β} {x : ε} (h : (e >>= f) = .error x) :
    e = .error x ∨ ∃ a, e = .ok a ∧ f a = .error x := by
  cases e with
  | error e =>
    cases h
    exact Or.inl rfl
  | ok a => exact Or.inr ⟨a, rfl, h⟩

/-- Where such a loop fails, one turn fails, with the invariant before it. -/
theorem foldlM_error {γ : Type w} {f : α → γ → Except ε α} {I : α → Prop} {x : ε} :
    ∀ {l : List γ} {a : α}, (∀ a c b, c ∈ l → I a → f a c = .ok b → I b) → I a →
      l.foldlM f a = .error x → ∃ b c, c ∈ l ∧ I b ∧ f b c = .error x := by
  intro l
  induction l with
  | nil =>
    intro a _ _ h
    cases h
  | cons c l ih =>
    intro a hstep ha h
    rw [List.foldlM_cons] at h
    rcases bind_error h with h | ⟨a', h1, h2⟩
    · exact ⟨a, c, List.mem_cons_self, ha, h⟩
    · have ha' : I a' := hstep a c a' List.mem_cons_self ha h1
      obtain ⟨b, d, hd, hb, hf⟩ :=
        ih (fun a c b hc => hstep a c b (List.mem_cons_of_mem _ hc)) ha' h2
      exact ⟨b, d, List.mem_cons_of_mem _ hd, hb, hf⟩

/-- A computation whose result passes a test has one. -/
theorem ok_of_any {e : Except ε α} {p : α → Bool}
    (h : e.toOption.any p = true) : ∃ a, e = .ok a ∧ p a = true := by
  cases e with
  | error _ => cases h
  | ok a => exact ⟨a, rfl, h⟩

end PgTest.Lib
