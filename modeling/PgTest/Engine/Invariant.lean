import PgTest.Engine.Queue
import PgTest.Engine.Replies

/-!
# The invariant of the ledger

`Inv` collects what every change keeps.  A `Path` is a run of the ledger whose
changes all satisfy a condition; `Path.invariant` is how a property that only
some changes break is carried along.

The second half says what a path leaves as it was: the history grows, closed
leases stay closed, and an assignment at the end of a path is an old one or has
a new generation.
-/

namespace PgTest.Engine

open PgTest.Lib

variable {C : Type} {Q : LeaseId → C → Prop}

namespace WorkerEngine

/-- **The invariant.** -/
structure Inv (Q : LeaseId → C → Prop) (s : WorkerEngine C) : Prop where
  books : s.Books
  queue : Queue Q s
  entries : s.Entries
  handed : s.Handed
  lifecycle : s.Lifecycle
  counted : s.Counted
  ordered : s.Ordered
  kept : s.Kept

theorem Inv.new (config : WorkerEngineConfig) : Inv Q (WorkerEngine.new config : WorkerEngine C) :=
  ⟨.new config, .new config, .new config, .new config, .new config, .new config, .new config,
    .new config⟩

/-- **Every change keeps the invariant.** -/
theorem Inv.move {s s' : WorkerEngine C} {a : Act} (h : Inv Q s) (hm : Move Q s a s') :
    Inv Q s' where
  books := h.books.move hm
  queue := h.queue.move hm
  entries := h.entries.move hm
  handed := h.handed.move h.books h.entries hm
  lifecycle := h.lifecycle.move h.books hm
  counted := h.counted.move h.handed h.entries hm
  ordered := h.ordered.move h.handed hm
  kept := h.kept.move h.lifecycle hm

end WorkerEngine

open WorkerEngine

theorem ledger_inv {s : WorkerEngine C} (h : (ledger Q).Reachable s) : Inv Q s := by
  refine h.invariant (fun s hs => ?_) fun s a t _ hs hm => hs.move hm
  obtain ⟨config, rfl⟩ := hs
  exact .new config

/-! ### Paths -/

/-- A run of the ledger with changes that satisfy `P`. -/
def Path (Q : LeaseId → C → Prop) (P : Act → Prop) (s t : WorkerEngine C) : Prop :=
  ∃ acts, (∀ a ∈ acts, P a) ∧ (ledger Q).Run s acts t

namespace Path

variable {P P' : Act → Prop} {s t u : WorkerEngine C}

theorem refl (s : WorkerEngine C) : Path Q P s s :=
  ⟨[], fun _ h => absurd h List.not_mem_nil, .nil s⟩

theorem single {a : Act} (hm : Move Q s a t) (ha : P a) : Path Q P s t :=
  ⟨[a], fun _ hb => (List.mem_singleton.mp hb) ▸ ha, .single hm⟩

theorem trans (h : Path Q P s t) (g : Path Q P t u) : Path Q P s u := by
  obtain ⟨acts, h1, h2⟩ := h
  obtain ⟨acts', h3, h4⟩ := g
  refine ⟨acts ++ acts', fun a ha => ?_, h2.append h4⟩
  exact (List.mem_append.mp ha).elim (h1 a) (h3 a)

theorem snoc {a : Act} (h : Path Q P s t) (hm : Move Q t a u) (ha : P a) : Path Q P s u :=
  h.trans (single hm ha)

theorem mono (h : Path Q P s t) (hP : ∀ a, P a → P' a) : Path Q P' s t := by
  obtain ⟨acts, h1, h2⟩ := h
  exact ⟨acts, fun a ha => hP a (h1 a ha), h2⟩

/-- **The invariant rule of a path.** -/
theorem invariant {I : WorkerEngine C → Prop} (h : Path Q P s t)
    (hstep : ∀ s a t, P a → Inv Q s → I s → Move Q s a t → I t) (hinv : Inv Q s) (hs : I s) :
    I t := by
  obtain ⟨acts, h1, h2⟩ := h
  have key : Inv Q t ∧ I t := by
    refine h2.invariant (I := fun s => Inv Q s ∧ I s) (fun s a t ha hs hm => ?_) ⟨hinv, hs⟩
    exact ⟨hs.1.move hm, hstep s a t (h1 a ha) hs.1 hs.2 hm⟩
  exact key.2

theorem inv (h : Path Q P s t) (hs : Inv Q s) : Inv Q t :=
  h.invariant (fun _ _ _ _ h1 _ hm => h1.move hm) hs hs

/-! ### What a path keeps -/

theorem history (h : Path Q P s t) (hs : Inv Q s) : ∃ new, t.history = new ++ s.history := by
  refine h.invariant (I := fun t => ∃ new, t.history = new ++ s.history) ?_ hs ⟨[], rfl⟩
  intro s' a t _ _ hI hm
  obtain ⟨new, hn⟩ := hI
  obtain ⟨more, hmore⟩ := hm.history
  exact ⟨more ++ new, by rw [hmore, hn, List.append_assoc]⟩

theorem closed (h : Path Q P s t) (hs : Inv Q s) {lease : LeaseId}
    (hl : s.leaseRecords.lookup lease = some .closed) :
    t.leaseRecords.lookup lease = some .closed :=
  h.invariant (I := fun t => t.leaseRecords.lookup lease = some .closed)
    (fun _ _ _ _ _ hI hm => hm.closed hI) hs hl

end Path

theorem Move.config {s s' : WorkerEngine C} {a : Act} (h : Move Q s a s') :
    s'.config = s.config := by
  cases h <;> rfl

theorem Move.nextGeneration {s s' : WorkerEngine C} {a : Act} (h : Move Q s a s') :
    s.nextGeneration ≤ s'.nextGeneration := by
  cases h with
  | assign _ _ _ _ _ _ => exact Nat.le_succ _
  | count _ _ | note _ | enroll _ _ | close _ _ _ | enqueue _ _ _ _ _ | dequeue _ | attach _ _ _
  | restore _ _ _ | detach _ _ | detachIdle _ _ | retire _ _ | reserve _ _ _ _ | burn _ _ _ _ _
  | settle _ _ | clean _ | shutdown => exact le_refl _

/-- Each assignment of `t` is one of `s`, or has a generation `s` had not given out. -/
def WorkerEngine.Follows (s t : WorkerEngine C) : Prop :=
  ∀ lease entry', t.leases.lookup lease = some entry' →
    (∃ entry, s.leases.lookup lease = some entry ∧ entry'.generation = entry.generation ∧
      entry'.database = entry.database ∧ entry'.cancellation = entry.cancellation) ∨
    s.nextGeneration < entry'.generation

/-- **An assignment after a change is an old one, or new.** -/
theorem Move.follows {s s' : WorkerEngine C} {a : Act} (h : Move Q s a s') : s.Follows s' := by
  intro lease entry' hl
  cases h with
  | count _ _ | note _ | enroll _ _ | close _ _ _ | enqueue _ _ _ _ _ | dequeue _ | detachIdle _ _
  | reserve _ _ _ _ | burn _ _ _ _ _ | settle _ _ | clean _ | shutdown =>
    exact Or.inl ⟨entry', hl, rfl, rfl, rfl⟩
  | assign _ _ _ _ _ _ =>
    rcases lookup_insert_eq_some.mp hl with ⟨rfl, rfl⟩ | ⟨_, hl⟩
    · exact Or.inr (Nat.lt_succ_self _)
    · exact Or.inl ⟨entry', hl, rfl, rfl, rfl⟩
  | @attach _ entry _ he _ _ =>
    rcases lookup_insert_eq_some.mp hl with ⟨rfl, rfl⟩ | ⟨_, hl⟩
    · exact Or.inl ⟨entry, he, rfl, rfl, rfl⟩
    · exact Or.inl ⟨entry', hl, rfl, rfl, rfl⟩
  | @detach _ entry he _ =>
    rcases lookup_insert_eq_some.mp hl with ⟨rfl, rfl⟩ | ⟨_, hl⟩
    · exact Or.inl ⟨entry, he, rfl, rfl, rfl⟩
    · exact Or.inl ⟨entry', hl, rfl, rfl, rfl⟩
  | restore _ _ _ => exact Or.inl ⟨entry', (lookup_erase_eq_some.mp hl).2, rfl, rfl, rfl⟩
  | retire _ _ => exact Or.inl ⟨entry', (lookup_erase_eq_some.mp hl).2, rfl, rfl, rfl⟩

namespace Path

variable {P : Act → Prop} {s t : WorkerEngine C}

theorem config (h : Path Q P s t) (hs : Inv Q s) : t.config = s.config :=
  h.invariant (I := fun t => t.config = s.config)
    (fun _ _ _ _ _ hI hm => hm.config.trans hI) hs rfl

theorem nextGeneration (h : Path Q P s t) (hs : Inv Q s) :
    s.nextGeneration ≤ t.nextGeneration :=
  h.invariant (I := fun t => s.nextGeneration ≤ t.nextGeneration)
    (fun _ _ _ _ _ hI hm => le_trans hI hm.nextGeneration) hs (le_refl _)

theorem follows (h : Path Q P s t) (hs : Inv Q s) : s.Follows t := by
  have key : s.nextGeneration ≤ t.nextGeneration ∧ s.Follows t := by
    refine h.invariant (I := fun t => s.nextGeneration ≤ t.nextGeneration ∧ s.Follows t) ?_ hs
      ⟨le_refl _, fun lease entry' hl => Or.inl ⟨entry', hl, rfl, rfl, rfl⟩⟩
    intro s₁ a t₁ _ _ hI hm
    refine ⟨le_trans hI.1 hm.nextGeneration, fun lease entry' hl => ?_⟩
    rcases hm.follows lease entry' hl with ⟨entry, h1, h2, h3, h4⟩ | h1
    · rcases hI.2 lease entry h1 with ⟨entry₀, h5, h6, h7, h8⟩ | h5
      · exact Or.inl ⟨entry₀, h5, h2.trans h6, h3.trans h7, h4.trans h8⟩
      · exact Or.inr (h2 ▸ h5)
    · exact Or.inr (lt_of_le_of_lt hI.1 h1)
  exact key.2

end Path

/-! ### What only some changes do -/

/-- A delivered `Attached` stands for a database, and its consumer is known. -/
def Event.Known (Q : LeaseId → C → Prop) (event : Event C) : Prop :=
  ∀ lease consumer name generation token behind,
    event = .reply lease consumer (.attached name generation token) behind true →
      Q lease consumer ∧ ∃ databaseId, behind = some databaseId

theorem WorkerEngine.News.handsOut {s : WorkerEngine C} {a : Act} {new : List (Event C)}
    (h : s.News a new) (ha : ∀ lease generation, a ≠ .attach lease generation) :
    ∀ event ∈ new, event.handsOut = none := by
  intro event he
  cases h with
  | minor hm => exact (hm event he).handsOut
  | attach _ _ => exact absurd rfl (ha _ _)
  | restore _ _ | retire _ _ =>
    rcases List.mem_pair.mp he with rfl | rfl
    · rfl
    · rfl
  | detach _ | created _ _ | cleaned _ =>
    rw [List.mem_singleton.mp he]
    rfl

/-- Who is handed a database is known. -/
theorem Move.known {s s' : WorkerEngine C} {a : Act} (h : Move Q s a s') :
    ∃ new, s'.history = new ++ s.history ∧ ∀ event ∈ new, event.Known Q := by
  by_cases ha : ∃ lease generation, a = .attach lease generation
  · obtain ⟨lease, generation, rfl⟩ := ha
    cases h with
    | attach _ _ hQ =>
      refine ⟨[_], rfl, fun event he => ?_⟩
      rw [List.mem_singleton.mp he]
      intro lease consumer name generation token behind heq
      cases heq
      exact ⟨hQ, _, rfl⟩
  · obtain ⟨new, hn, hon, hh⟩ := h.news
    refine ⟨new, hh, fun event he => ?_⟩
    rintro lease consumer name generation token behind rfl
    -- such a reply would hand out a database
    obtain ⟨entry, _, _, _, _, rfl⟩ := hon _ he
    have hnone := hn.handsOut (fun l g heq => ha ⟨l, g, heq⟩) _ he
    cases hnone

theorem Move.detachOnZero {s s' : WorkerEngine C} {a : Act} (h : Move Q s a s')
    (ha : ∀ lease generation, a ≠ .detach lease generation) :
    s'.counters.detachOnZero = s.counters.detachOnZero := by
  cases h with
  | count _ hz => exact hz
  | burn _ hz _ _ _ => exact hz
  | detachIdle _ _ => exact absurd rfl (ha _ _)
  | note _ | enroll _ _ | close _ _ _ | enqueue _ _ _ _ _ | dequeue _ | assign _ _ _ _ _ _
  | attach _ _ _ | restore _ _ _ | detach _ _ | retire _ _ | reserve _ _ _ _ | settle _ _
  | clean _ | shutdown => rfl

namespace Path

variable {P : Act → Prop} {s t : WorkerEngine C}

/-- A path without `detach` lets nothing go. -/
theorem no_detach (h : Path Q P s t) (hs : Inv Q s)
    (hP : ∀ lease generation, ¬P (.detach lease generation)) :
    t.letGo = s.letGo ∧ t.counters.detachOnZero = s.counters.detachOnZero := by
  refine h.invariant (I := fun t => t.letGo = s.letGo ∧
    t.counters.detachOnZero = s.counters.detachOnZero) ?_ hs ⟨rfl, rfl⟩
  intro s₁ a t₁ ha _ hI hm
  have hne : ∀ lease generation, a ≠ .detach lease generation := by
    rintro lease generation rfl
    exact hP _ _ ha
  exact ⟨(hm.letGo hne).trans hI.1, (hm.detachOnZero hne).trans hI.2⟩

/-- Who is handed a database on a path is known. -/
theorem known (h : Path Q P s t) (hs : Inv Q s) :
    ∃ new, t.history = new ++ s.history ∧ ∀ event ∈ new, event.Known Q := by
  refine h.invariant (I := fun t => ∃ new, t.history = new ++ s.history ∧
    ∀ event ∈ new, event.Known Q) ?_ hs ⟨[], rfl, fun _ hm => absurd hm List.not_mem_nil⟩
  intro s₁ a t₁ _ _ hI hm
  obtain ⟨new, hnew, hk⟩ := hI
  obtain ⟨more, hmore, hk'⟩ := hm.known
  refine ⟨more ++ new, by rw [hmore, hnew, List.append_assoc], fun event he => ?_⟩
  exact (List.mem_append.mp he).elim (hk' event) (hk event)

end Path

end PgTest.Engine
