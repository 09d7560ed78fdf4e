import Mathlib.Data.List.Perm.Basic
import PgTest.Lib.Machine

/-!
# A bounded window over a list

The items of a list are started in their order, and so many of them run at the same
time.  A completion takes one of those that run, whichever it is, records its
result, and lets the next item start.  The window is over when nothing runs.

`Window.Inv` says of every state of every run that each item waits, runs or has one
result, and that the window is full while anything waits.  So nothing is left where
nothing runs (`Inv.ended`).  `blank_run` is about results: which item runs when
depends on the order of the completions, and not on their results.
-/

namespace PgTest.Lib

universe u v

variable {α : Type u} {β : Type v}

structure Window (α : Type u) (β : Type v) where
  waiting : List α
  running : List α
  submitted : List α
  results : List (α × β)

namespace Window

/-- Starts the next item, if one waits. -/
def next (w : Window α β) : Window α β :=
  match w.waiting with
  | [] => w
  | a :: rest =>
    { w with waiting := rest, running := w.running ++ [a], submitted := w.submitted ++ [a] }

def fill : Nat → Window α β → Window α β
  | 0, w => w
  | n + 1, w => fill n w.next

def start (depth : Nat) (items : List α) : Window α β := fill depth ⟨items, [], [], []⟩

/-- The window after the item at a position has finished. -/
def finished (w : Window α β) (position : Nat) (a : α) (b : β) : Window α β :=
  { w with running := w.running.eraseIdx position, results := w.results ++ [(a, b)] }

/-- One of those that run has finished, and the next one starts. -/
def complete (w : Window α β) (completion : Nat × β) : Option (Window α β) :=
  w.running[completion.1]?.map fun a => (w.finished completion.1 a completion.2).next

/-- The completions of a window, in any order. -/
def machine (depth : Nat) (items : List α) : Machine (Window α β) (Nat × β) where
  init w := w = start depth items
  step w completion t := w.complete completion = some t

variable {w t : Window α β} {depth : Nat} {items : List α} {completion : Nat × β}

theorem complete_eq_some :
    w.complete completion = some t ↔ ∃ a, w.running[completion.1]? = some a ∧
      t = (w.finished completion.1 a completion.2).next := by
  rw [complete, Option.map_eq_some_iff]
  simp only [eq_comm]

@[simp] theorem next_results (w : Window α β) : w.next.results = w.results := by
  rw [next]
  split <;> rfl

@[simp] theorem fill_results : ∀ (n : Nat) (w : Window α β), (fill n w).results = w.results := by
  intro n
  induction n with
  | zero => exact fun _ => rfl
  | succ n ih =>
    intro w
    rw [fill, ih, next_results]

@[simp] theorem start_results (depth : Nat) (items : List α) :
    (start depth items : Window α β).results = [] := fill_results depth _

/-- The completions of a run, one after the other. -/
theorem run_iff_foldlM {completions : List (Nat × β)} :
    (machine depth items).Run w completions t ↔ completions.foldlM complete w = some t := by
  constructor
  · intro h
    induction h with
    | nil w => rfl
    | @cons w u t completion completions hs _ ih =>
      have hc : w.complete completion = some u := hs
      rw [List.foldlM_cons, hc]
      exact ih
  · exact Machine.Run.of_foldlM fun _ _ _ hs => hs

/-! ### Where each item is -/

structure Inv (depth : Nat) (items : List α) (w : Window α β) : Prop where
  order : w.submitted ++ w.waiting = items
  once : (w.results.map Prod.fst ++ w.running).Perm w.submitted
  bounded : w.running.length ≤ depth
  full : w.waiting ≠ [] → w.running.length = depth

namespace Inv

theorem next (h : Inv depth items w) : Inv (depth + 1) items w.next := by
  rw [Window.next]
  split
  case h_1 hw =>
    exact ⟨h.order, h.once, Nat.le_succ_of_le h.bounded, fun hne => absurd hw hne⟩
  case h_2 a rest hw =>
    have hfull : w.running.length = depth := h.full (by rw [hw]; exact List.cons_ne_nil _ _)
    have hlen : (w.running ++ [a]).length = depth + 1 := by
      rw [List.length_append, hfull, List.length_singleton]
    have horder := h.order
    rw [hw] at horder
    refine ⟨?_, ?_, Nat.le_of_eq hlen, fun _ => hlen⟩
    · rw [List.append_assoc]
      exact horder
    · rw [← List.append_assoc]
      exact h.once.append_right [a]

theorem fill : ∀ {n depth : Nat} {w : Window α β}, Inv depth items w →
    Inv (depth + n) items (fill n w) := by
  intro n
  induction n with
  | zero => exact fun h => h
  | succ n ih =>
    intro depth w h
    rw [← Nat.add_assoc, Nat.add_right_comm]
    exact ih h.next

theorem start (depth : Nat) (items : List α) :
    Inv depth items (start depth items : Window α β) := by
  have hbegin : Inv 0 items (⟨items, [], [], []⟩ : Window α β) :=
    ⟨rfl, .nil, Nat.le_refl _, fun _ => rfl⟩
  rw [← Nat.zero_add depth]
  have hfill := hbegin.fill (n := depth)
  rwa [Nat.zero_add] at hfill ⊢

theorem finished {position : Nat} {a : α} {b : β} (h : Inv (depth + 1) items w)
    (ha : w.running[position]? = some a) : Inv depth items (w.finished position a b) := by
  obtain ⟨hlt, rfl⟩ := List.getElem?_eq_some_iff.mp ha
  have hlen := List.length_eraseIdx_add_one hlt
  refine ⟨h.order, ?_, ?_, fun hne => ?_⟩
  · have hrun := List.getElem_cons_eraseIdx_perm hlt
    rw [Window.finished, List.map_append, List.append_assoc]
    exact (hrun.append_left _).trans h.once
  · have hle := h.bounded
    show (w.running.eraseIdx position).length ≤ depth
    omega
  · have hfull := h.full hne
    show (w.running.eraseIdx position).length = depth
    omega

/-- **A completion keeps every item in its place.** -/
theorem complete (h : Inv depth items w) (hc : w.complete completion = some t) :
    Inv depth items t := by
  obtain ⟨a, ha, rfl⟩ := complete_eq_some.mp hc
  cases depth with
  | zero =>
    obtain ⟨hlt, _⟩ := List.getElem?_eq_some_iff.mp ha
    exact absurd h.bounded (Nat.not_le_of_lt (Nat.zero_lt_of_lt hlt))
  | succ depth => exact (h.finished ha).next

theorem run {completions : List (Nat × β)}
    (h : (machine depth items).Run (Window.start depth items) completions w) :
    Inv depth items w :=
  h.invariant (fun _ _ _ _ hi hs => hi.complete hs) (start depth items)

/-- **Nothing is left** where nothing runs. -/
theorem ended (h : Inv depth items w) (hdepth : 0 < depth) (hrun : w.running = []) :
    w.submitted = items ∧ (w.results.map Prod.fst).Perm items := by
  have hwait : w.waiting = [] := by
    by_contra hne
    have hfull := h.full hne
    rw [hrun] at hfull
    exact absurd hfull (Nat.ne_of_lt hdepth)
  have horder := h.order
  rw [hwait, List.append_nil] at horder
  have honce := h.once
  rw [hrun, List.append_nil, horder] at honce
  exact ⟨horder, honce⟩

end Inv

/-- A run records the result of each of its completions. -/
theorem results_run {completions : List (Nat × β)}
    (h : (machine depth items).Run w completions t) :
    t.results.map Prod.snd = w.results.map Prod.snd ++ completions.map Prod.snd := by
  induction h with
  | nil w => rw [List.map_nil, List.append_nil]
  | @cons w _ _ completion _ hs _ ih =>
    obtain ⟨a, _, rfl⟩ := complete_eq_some.mp hs
    rw [ih, next_results, finished, List.map_append, List.append_assoc]
    rfl

/-! ### What the results decide -/

/-- The window without its results. -/
def blank (w : Window α β) : Window α Unit :=
  { w with results := w.results.map fun result => (result.1, ()) }

theorem blank_next (w : Window α β) : w.next.blank = w.blank.next := by
  rw [next, next]
  cases hw : w.waiting with
  | nil => simp [blank, hw]
  | cons a rest => simp [blank, hw]

theorem blank_complete {u : Window α β} (hblank : w.blank = u.blank)
    (hc : w.complete completion = some t) (b : β) :
    ∃ v, u.complete (completion.1, b) = some v ∧ t.blank = v.blank := by
  obtain ⟨a, ha, rfl⟩ := complete_eq_some.mp hc
  have hrun : w.running = u.running := congrArg (fun x : Window α Unit => x.running) hblank
  refine ⟨_, complete_eq_some.mpr ⟨a, hrun ▸ ha, rfl⟩, ?_⟩
  have hfinished : ∀ (x : Window α β) (c : β), (x.finished completion.1 a c).blank =
      x.blank.finished completion.1 a () := by
    intro x c
    simp [finished, blank]
  rw [blank_next, blank_next, hfinished, hfinished, hblank]

/-- **Other results, the same items** at the same time. -/
theorem blank_run {completions : List (Nat × β)}
    (h : (machine depth items).Run w completions t) :
    ∀ {u : Window α β} {others : List (Nat × β)}, w.blank = u.blank →
      others.map Prod.fst = completions.map Prod.fst →
      ∃ v, (machine depth items).Run u others v ∧ t.blank = v.blank := by
  induction h with
  | nil w =>
    intro u others hblank hpos
    rw [List.map_nil, List.map_eq_nil_iff] at hpos
    rw [hpos]
    exact ⟨u, .nil u, hblank⟩
  | @cons w w' t completion completions hs _ ih =>
    intro u others hblank hpos
    cases others with
    | nil => cases hpos
    | cons other others =>
      obtain ⟨hfirst, hrest⟩ := List.cons.inj hpos
      obtain ⟨v, hv, hblank'⟩ := blank_complete hblank hs other.2
      have hother : (completion.1, other.2) = other := by rw [← hfirst]
      rw [hother] at hv
      obtain ⟨v', hrun, hlast⟩ := ih hblank' hrest
      exact ⟨v', .cons hv hrun, hlast⟩

end Window

end PgTest.Lib
