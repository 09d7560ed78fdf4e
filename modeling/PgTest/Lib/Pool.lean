import Mathlib.Algebra.Ring.Nat
import PgTest.Lib.Window

/-!
# Windows that share a pool

Tasks with a window each, which run at the same time, and a pool of `limit`
connections.  An item that its window has started waits for a connection.  It is
refused, or it gets one and holds it until it is finished.  A task may be abandoned,
and what it holds is free again.

`Pool.Inv` bounds what is held over all the tasks, and says where each item of each
task is.  No item waits for a connection while it holds another one, so the pool
cannot block: while anything runs, an item can get a connection or finish
(`Inv.progress`), and all tasks come to their end that way, whatever the results are
(`Inv.settles`).
-/

namespace PgTest.Lib

variable {α β : Type}

/-- The items of a task, and its window over them. -/
structure Pool.Task (α β : Type) where
  items : List α
  window : Window α β

structure Pool (α β : Type) where
  /-- `none` is a task that was abandoned. -/
  tasks : List (Option (Pool.Task α β))
  /-- The items that hold a connection, with their task. -/
  held : List (Nat × α)

namespace Pool

inductive Turn (α β : Type)
  | start (items : List α)
  /-- An item gets a connection. -/
  | acquire (task : Nat) (a : α)
  /-- An item gets none, and finishes without it. -/
  | refuse (task : Nat) (a : α) (b : β)
  | finish (task : Nat) (a : α) (b : β)
  | abandon (task : Nat)

/-- What the window of a task runs. -/
def running (s : Pool α β) (task : Nat) : List α :=
  match s.tasks[task]? with
  | some (some found) => found.window.running
  | _ => []

variable {limit : Nat} {depth : List α → Nat} {s t : Pool α β} {task : Nat} {a : α} {b : β}

theorem mem_running :
    a ∈ s.running task ↔ ∃ found, s.tasks[task]? = some (some found) ∧
      a ∈ found.window.running := by
  rw [running]
  constructor
  · intro h
    split at h
    case h_1 found hf => exact ⟨found, hf, h⟩
    case h_2 => exact absurd h List.not_mem_nil
  · rintro ⟨found, hf, h⟩
    rw [hf]
    exact h

/-- The items of a task that have not finished. -/
def unfinished : Option (Task α β) → Nat
  | some task => task.window.waiting.length + task.window.running.length
  | none => 0

theorem unfinished_next (items : List α) (w : Window α β) :
    unfinished (some ⟨items, w.next⟩) = unfinished (some ⟨items, w⟩) := by
  rw [Window.next]
  split
  · rfl
  · rename_i hw
    simp only [unfinished, hw, List.length_append, List.length_cons, List.length_nil]
    omega

theorem sum_set {γ : Type} (f : γ → Nat) {c d : γ} : ∀ {l : List γ} {i : Nat}, l[i]? = some c →
    ((l.set i d).map f).sum + f c = (l.map f).sum + f d := by
  intro l
  induction l with
  | nil =>
    intro i h
    cases h
  | cons e l ih =>
    intro i h
    cases i with
    | zero =>
      cases h
      simp only [List.set_cons_zero, List.map_cons, List.sum_cons]
      omega
    | succ i =>
      have hl := ih (i := i) h
      simp only [List.set_cons_succ, List.map_cons, List.sum_cons]
      omega

variable [DecidableEq α]

/-- An item of a task is finished. -/
def complete (s : Pool α β) (task : Nat) (a : α) (b : β) : Option (Pool α β) :=
  match s.tasks[task]? with
  | some (some found) =>
    (found.window.complete (found.window.running.idxOf a, b)).map fun window =>
      { s with tasks := s.tasks.set task (some ⟨found.items, window⟩) }
  | _ => none

def act (limit : Nat) (depth : List α → Nat) (s : Pool α β) : Turn α β → Option (Pool α β)
  | .start items =>
    if items.Nodup then
      some { s with tasks := s.tasks ++ [some ⟨items, .start (depth items) items⟩] }
    else none
  | .acquire task a =>
    if a ∈ s.running task ∧ (task, a) ∉ s.held ∧ s.held.length < limit then
      some { s with held := s.held ++ [(task, a)] }
    else none
  | .refuse task a b =>
    if a ∈ s.running task ∧ (task, a) ∉ s.held then s.complete task a b else none
  | .finish task a b =>
    if (task, a) ∈ s.held then
      complete { s with held := s.held.erase (task, a) } task a b
    else none
  | .abandon task => some
    { tasks := s.tasks.set task none
      held := s.held.filter fun item => item.1 ≠ task }

/-- A pool in which nothing was started. -/
def machine (limit : Nat) (depth : List α → Nat) : Machine (Pool α β) (Turn α β) where
  init s := s = ⟨[], []⟩
  step s turn t := s.act limit depth turn = some t

/-! ### Where each item is -/

structure Inv (limit : Nat) (depth : List α → Nat) (s : Pool α β) : Prop where
  windows : ∀ (task : Nat) (found : Task α β), s.tasks[task]? = some (some found) →
    Window.Inv (depth found.items) found.items found.window
  bounded : s.held.length ≤ limit
  once : s.held.Nodup
  runs : ∀ task a, (task, a) ∈ s.held → a ∈ s.running task

theorem complete_eq_some :
    s.complete task a b = some t ↔ ∃ found, s.tasks[task]? = some (some found) ∧
      a ∈ found.window.running ∧ t = { s with tasks := s.tasks.set task (some ⟨found.items,
        (found.window.finished (found.window.running.idxOf a) a b).next⟩) } := by
  rw [complete]
  constructor
  · intro h
    split at h
    case h_2 => cases h
    case h_1 found hf =>
      obtain ⟨window, hw, rfl⟩ := Option.map_eq_some_iff.mp h
      obtain ⟨c, hc, rfl⟩ := Window.complete_eq_some.mp hw
      obtain ⟨hlt, hget⟩ := List.getElem?_eq_some_iff.mp hc
      have hmem : a ∈ found.window.running := List.idxOf_lt_length_iff.mp hlt
      rw [List.getElem_idxOf] at hget
      subst hget
      exact ⟨found, hf, hmem, rfl⟩
  · rintro ⟨found, hf, hmem, rfl⟩
    rw [hf]
    have hw : found.window.complete (found.window.running.idxOf a, b) = some _ :=
      Window.complete_eq_some.mpr ⟨a, List.getElem?_idxOf hmem, rfl⟩
    simp only [hw, Option.map_some]

/-- An item that is not the finished one runs on. -/
theorem mem_running_next {w : Window α β} {c : α} (h : c ∈ w.running) (hne : c ≠ a) :
    c ∈ (w.finished (w.running.idxOf a) a b).next.running := by
  have hfinished : c ∈ (w.finished (w.running.idxOf a) a b).running := by
    show c ∈ w.running.eraseIdx (w.running.idxOf a)
    rw [List.eraseIdx_idxOf_eq_erase]
    exact (List.mem_erase_of_ne hne).mpr h
  rw [Window.next]
  split
  · exact hfinished
  · exact List.mem_append_left _ hfinished

namespace Inv

/-- **A finished item leaves every other one in its place.** -/
theorem complete (h : Inv limit depth s) (hfree : (task, a) ∉ s.held)
    (hok : s.complete task a b = some t) : Inv limit depth t := by
  obtain ⟨found, hf, hmem, rfl⟩ := complete_eq_some.mp hok
  have hlt : task < s.tasks.length := (List.getElem?_eq_some_iff.mp hf).1
  refine ⟨fun other found' hf' => ?_, h.bounded, h.once, fun other c hc => ?_⟩
  · by_cases heq : task = other
    · subst heq
      rw [List.getElem?_set_self hlt] at hf'
      cases hf'
      have hw : found.window.complete (found.window.running.idxOf a, b) = some _ :=
        Window.complete_eq_some.mpr ⟨a, List.getElem?_idxOf hmem, rfl⟩
      exact (h.windows task found hf).complete hw
    · rw [List.getElem?_set_ne heq] at hf'
      exact h.windows other found' hf'
  · have hrun := mem_running.mp (h.runs other c hc)
    obtain ⟨found', hf', hc'⟩ := hrun
    by_cases heq : task = other
    · subst heq
      rw [hf] at hf'
      cases hf'
      have hne : c ≠ a := by
        rintro rfl
        exact hfree hc
      exact mem_running.mpr ⟨_, List.getElem?_set_self hlt, mem_running_next hc' hne⟩
    · refine mem_running.mpr ⟨found', ?_, hc'⟩
      rw [List.getElem?_set_ne heq]
      exact hf'

/-- **Every turn keeps the bounds.** -/
theorem act {turn : Turn α β} (h : Inv limit depth s) (hok : s.act limit depth turn = some t) :
    Inv limit depth t := by
  cases turn with
  | start items =>
    rw [Pool.act] at hok
    split at hok <;> cases hok
    refine ⟨fun task found hf => ?_, h.bounded, h.once, fun task a ha => ?_⟩
    · rcases Nat.lt_or_ge task s.tasks.length with hlt | hge
      · rw [List.getElem?_append_left hlt] at hf
        exact h.windows task found hf
      · rw [List.getElem?_append_right hge] at hf
        have hf := List.mem_singleton.mp (List.mem_of_getElem? hf)
        cases hf
        exact Window.Inv.start _ _
    · obtain ⟨found, hf, hrun⟩ := mem_running.mp (h.runs task a ha)
      refine mem_running.mpr ⟨found, ?_, hrun⟩
      rw [List.getElem?_append_left (List.getElem?_eq_some_iff.mp hf).1]
      exact hf
  | acquire task a =>
    rw [Pool.act] at hok
    split at hok <;> cases hok
    rename_i hp
    obtain ⟨hrun, hfree, hlt⟩ := hp
    refine ⟨h.windows, ?_, ?_, fun other c hc => ?_⟩
    · rw [List.length_append, List.length_singleton]
      exact hlt
    · refine List.nodup_append.mpr ⟨h.once, List.nodup_cons.mpr ⟨List.not_mem_nil, .nil⟩,
        fun x hx y hy heq => ?_⟩
      rw [List.mem_singleton.mp hy] at heq
      exact hfree (heq ▸ hx)
    · rcases List.mem_append.mp hc with hc | hc
      · exact h.runs other c hc
      · cases List.mem_singleton.mp hc
        exact hrun
  | refuse task a b =>
    rw [Pool.act] at hok
    split at hok
    case isFalse => cases hok
    case isTrue hp => exact h.complete hp.2 hok
  | finish task a b =>
    rw [Pool.act] at hok
    split at hok
    case isFalse => cases hok
    case isTrue hp =>
      have hless : Inv limit depth { s with held := s.held.erase (task, a) } :=
        ⟨h.windows, Nat.le_trans List.length_erase_le h.bounded, h.once.erase _,
          fun other c hc => h.runs other c (List.mem_of_mem_erase hc)⟩
      exact hless.complete (fun hmem => (List.Nodup.mem_erase_iff h.once).mp hmem |>.1 rfl) hok
  | abandon task =>
    cases hok
    refine ⟨fun other found hf => ?_, Nat.le_trans (List.length_filter_le _ _) h.bounded,
      h.once.filter _, fun other c hc => ?_⟩
    · by_cases heq : task = other
      · subst heq
        have hnone := List.mem_of_getElem? hf
        rw [List.getElem?_set] at hf
        split at hf
        · split at hf <;> cases hf
        · contradiction
      · rw [List.getElem?_set_ne heq] at hf
        exact h.windows other found hf
    · obtain ⟨hc, hne⟩ := List.mem_filter.mp hc
      have hne : other ≠ task := of_decide_eq_true hne
      obtain ⟨found, hf, hrun⟩ := mem_running.mp (h.runs other c hc)
      refine mem_running.mpr ⟨found, ?_, hrun⟩
      rw [List.getElem?_set_ne (Ne.symm hne)]
      exact hf

end Inv

theorem reachable_inv (h : (machine limit depth).Reachable s) : Inv limit depth s := by
  refine h.invariant (I := Inv limit depth) ?_ fun s turn t _ hI hok => hI.act hok
  rintro s rfl
  exact ⟨fun _ _ hf => absurd hf nofun, Nat.zero_le _, .nil,
    fun _ _ ha => absurd ha List.not_mem_nil⟩

/-- A task keeps its items; only a start brings others. -/
theorem act_items {turn : Turn α β} (h : s.act limit depth turn = some t) {found : Task α β}
    (hf : t.tasks[task]? = some (some found)) : turn = .start found.items ∨
      ∃ before : Task α β, s.tasks[task]? = some (some before) ∧ before.items = found.items := by
  have hcomplete : ∀ {u v : Pool α β} {other : Nat} {a : α} {b : β}, u.tasks = s.tasks →
      u.complete other a b = some v → v.tasks[task]? = some (some found) →
      ∃ before : Task α β, s.tasks[task]? = some (some before) ∧ before.items = found.items := by
    intro u v other a b hsame hok hf
    obtain ⟨before, hb, _, rfl⟩ := complete_eq_some.mp hok
    rw [hsame] at hb
    by_cases heq : other = task
    · subst heq
      rw [List.getElem?_set_self (hsame ▸ (List.getElem?_eq_some_iff.mp hb).1)] at hf
      cases hf
      exact ⟨before, hb, rfl⟩
    · rw [List.getElem?_set_ne heq, hsame] at hf
      exact ⟨found, hf, rfl⟩
  cases turn with
  | start items =>
    rw [act] at h
    split at h <;> cases h
    rcases Nat.lt_or_ge task s.tasks.length with hlt | hge
    · rw [List.getElem?_append_left hlt] at hf
      exact Or.inr ⟨found, hf, rfl⟩
    · rw [List.getElem?_append_right hge] at hf
      cases List.mem_singleton.mp (List.mem_of_getElem? hf)
      exact Or.inl rfl
  | acquire other a =>
    rw [act] at h
    split at h <;> cases h
    exact Or.inr ⟨found, hf, rfl⟩
  | refuse other a b =>
    rw [act] at h
    split at h
    case isFalse => cases h
    case isTrue => exact Or.inr (hcomplete (u := s) rfl h hf)
  | finish other a b =>
    rw [act] at h
    split at h
    case isFalse => cases h
    case isTrue =>
      exact Or.inr (hcomplete (u := { s with held := s.held.erase (other, a) }) rfl h hf)
  | abandon other =>
    cases h
    by_cases heq : other = task
    · subst heq
      have hf : (s.tasks.set other none)[other]? = some (some found) := hf
      rw [List.getElem?_set] at hf
      split at hf
      · split at hf <;> cases hf
      · contradiction
    · rw [List.getElem?_set_ne heq] at hf
      exact Or.inr ⟨found, hf, rfl⟩

/-! ### Progress -/

/-- An item gets a connection, or finishes with the result that `outcome` gives it. -/
def Turn.Settles (outcome : Nat → α → β) : Turn α β → Prop
  | .acquire _ _ => True
  | .finish task a b => b = outcome task a
  | .start _ | .refuse _ _ _ | .abandon _ => False

/-- What is left to do: to get a connection and to finish, for each item. -/
def work (limit : Nat) (s : Pool α β) : Nat :=
  2 * (s.tasks.map unfinished).sum + (limit - s.held.length)

/-- A finished item is one less. -/
theorem unfinished_complete (h : s.complete task a b = some t) :
    (t.tasks.map unfinished).sum + 1 = (s.tasks.map unfinished).sum ∧ t.held = s.held ∧
      t.tasks.map (Option.map Task.items) = s.tasks.map (Option.map Task.items) := by
  obtain ⟨found, hf, hmem, rfl⟩ := complete_eq_some.mp h
  refine ⟨?_, rfl, ?_⟩
  · have hset := sum_set unfinished (d := some ⟨found.items,
      (found.window.finished (found.window.running.idxOf a) a b).next⟩) hf
    have hlen := List.length_eraseIdx_add_one (List.idxOf_lt_length_of_mem hmem)
    have hless : unfinished (some ⟨found.items,
        (found.window.finished (found.window.running.idxOf a) a b).next⟩) + 1 =
          unfinished (some found) := by
      rw [unfinished_next]
      show found.window.waiting.length +
        (found.window.running.eraseIdx (found.window.running.idxOf a)).length + 1 =
          found.window.waiting.length + found.window.running.length
      omega
    show ((s.tasks.set task _).map unfinished).sum + 1 = _
    omega
  · refine List.ext_getElem? fun i => ?_
    show ((s.tasks.set task _).map _)[i]? = _
    rw [List.getElem?_map, List.getElem?_map]
    by_cases heq : task = i
    · subst heq
      rw [List.getElem?_set_self (List.getElem?_eq_some_iff.mp hf).1, hf]
      rfl
    · rw [List.getElem?_set_ne heq]

/-- **The pool does not block.**  While anything runs, an item can get a connection or
finish, and less is left to do. -/
theorem Inv.progress (h : Inv limit depth s) (hlimit : 0 < limit) (outcome : Nat → α → β)
    (hrun : a ∈ s.running task) : ∃ turn t, turn.Settles outcome ∧
      s.act limit depth turn = some t ∧ t.work limit < s.work limit ∧
      t.tasks.map (Option.map Task.items) = s.tasks.map (Option.map Task.items) := by
  by_cases hfree : (task, a) ∉ s.held ∧ s.held.length < limit
  · refine ⟨.acquire task a, _, trivial, if_pos ⟨hrun, hfree⟩, ?_, rfl⟩
    have hlt := hfree.2
    rw [work, work, List.length_append, List.length_singleton]
    show 2 * (s.tasks.map unfinished).sum + _ < _
    omega
  -- something is held: the item itself, or the whole pool
  · have hheld : ∃ item, item ∈ s.held := by
      by_cases hmem : (task, a) ∈ s.held
      · exact ⟨_, hmem⟩
      · have hfull : ¬s.held.length < limit := fun hlt => hfree ⟨hmem, hlt⟩
        exact List.exists_mem_of_length_pos (by omega)
    obtain ⟨⟨other, c⟩, hc⟩ := hheld
    obtain ⟨found, hf, hmem⟩ := mem_running.mp (h.runs other c hc)
    have hok : Pool.complete { s with held := s.held.erase (other, c) } other c (outcome other c) =
        some _ := complete_eq_some.mpr ⟨found, hf, hmem, rfl⟩
    obtain ⟨hsum, hsame, hitems⟩ := unfinished_complete hok
    refine ⟨.finish other c (outcome other c), _, rfl, (if_pos hc).trans hok, ?_, hitems⟩
    have hlen := List.length_erase_of_mem hc
    have hpos := List.length_pos_of_mem hc
    have hbound := h.bounded
    have hless : (s.held.erase (other, c)).length + 1 = s.held.length := by omega
    rw [work, work, hsame]
    show _ + (limit - (s.held.erase (other, c)).length) < _
    have hsum : _ + 1 = (s.tasks.map unfinished).sum := hsum
    omega

/-- **All tasks come to their end**, whatever the results of their items are, and none
is given up for it. -/
theorem Inv.settles (hlimit : 0 < limit) (outcome : Nat → α → β) {s : Pool α β}
    (h : Inv limit depth s) : ∃ turns t,
      (Pool.machine limit depth).Run s turns t ∧ (∀ turn ∈ turns, turn.Settles outcome) ∧
      turns.length ≤ s.work limit ∧ (∀ task, t.running task = []) ∧
      t.tasks.map (Option.map Task.items) = s.tasks.map (Option.map Task.items) := by
  obtain ⟨turns, t, hr, hlen, hall, ⟨_, hitems⟩, hidle⟩ := Machine.Run.toward
    (M := Pool.machine limit depth) (m := fun t => t.work limit)
    (G := fun t => ∀ task, t.running task = []) (P := Turn.Settles outcome)
    (I := fun t => Inv limit depth t ∧
      t.tasks.map (Option.map Task.items) = s.tasks.map (Option.map Task.items))
    (by
      intro u ⟨hu, hitems⟩ hbusy
      obtain ⟨task, hne⟩ := not_forall.mp hbusy
      obtain ⟨a, hrun⟩ := List.exists_mem_of_ne_nil _ hne
      obtain ⟨turn, t, hturn, hok, hless, hkeep⟩ := hu.progress hlimit outcome hrun
      exact ⟨turn, t, hturn, hok, ⟨hu.act hok, hkeep.trans hitems⟩, hless⟩)
    ⟨h, rfl⟩
  exact ⟨turns, t, hr, hall, hlen, hidle, hitems⟩

end Pool

end PgTest.Lib
