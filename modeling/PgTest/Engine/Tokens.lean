import PgTest.Engine.Refinement

/-!
# Assignments, tokens and timers

Every assignment draws a generation, a token with the same number and, when
leases expire, one timer.  `Numbered` follows the three through the history: the
generations that were given out decrease from the newest on, an assignment is
current or its token was cancelled, and a cleanup is requested only after every
assignment of its database was cancelled.

It is kept by every change of the ledger.  The changes that touch none of this
(`Event.Plain`) go by `Numbered.congr`; `assign` draws a number, and `restore` and
`retire` cancel one.
-/

namespace PgTest.Engine

open PgTest.Lib

variable {C : Type} {Q : LeaseId → C → Prop}

/-! ### Readings -/

/-- A timer that was submitted: `LeaseMaxTimeReached` for a lease at a generation,
how long it waits, and the token that guards it. -/
structure Timer where
  lease : LeaseId
  generation : Nat
  waitDuration : Nat
  cancellation : Nat
  deriving DecidableEq

def Event.timer : Event C → Option Timer
  | .scheduled lease generation waitDuration cancellation _ =>
      some ⟨lease, generation, waitDuration, cancellation⟩
  | _ => none

def Event.assigns : Event C → Option (LeaseId × Nat × Database)
  | .assigned lease generation database => some (lease, generation, database)
  | _ => none

/-- The event is no assignment, timer, cancellation or request for a cleanup. -/
def Event.Plain : Event C → Prop
  | .assigned _ _ _ | .scheduled _ _ _ _ _ | .cancelled _ | .requestedCleanup _ _ => False
  | _ => True

/-- The part of an entry that an assignment fixes. -/
def LeaseEntry.fixed (entry : LeaseEntry) : Database × Nat × Nat :=
  (entry.database, entry.generation, entry.cancellation)

namespace WorkerEngine

/-- The timers, newest first. -/
def timers (s : WorkerEngine C) : List Timer := s.history.filterMap Event.timer

/-- The assignments, newest first: a lease, its generation and its database. -/
def assignments (s : WorkerEngine C) : List (LeaseId × Nat × Database) :=
  s.history.filterMap Event.assigns

/-- The current assignment of `lease`. -/
def assigned (s : WorkerEngine C) (lease : LeaseId) : Option (Database × Nat × Nat) :=
  (s.leases.lookup lease).map LeaseEntry.fixed

theorem mem_assignments {s : WorkerEngine C} {lease : LeaseId} {generation : Nat}
    {database : Database} :
    (lease, generation, database) ∈ s.assignments ↔
      .assigned lease generation database ∈ s.history := by
  rw [assignments, List.mem_filterMap]
  constructor
  · rintro ⟨event, he, heq⟩
    cases event <;> simp_all [Event.assigns]
  · exact fun h => ⟨_, h, rfl⟩

theorem assigned_eq_some {s : WorkerEngine C} {lease : LeaseId} {fixed : Database × Nat × Nat} :
    s.assigned lease = some fixed ↔
      ∃ entry, s.leases.lookup lease = some entry ∧ entry.fixed = fixed :=
  Option.map_eq_some_iff

theorem assigned_of_lookup {s : WorkerEngine C} {lease : LeaseId} {entry : LeaseEntry}
    (h : s.leases.lookup lease = some entry) :
    s.assigned lease = some (entry.database, entry.generation, entry.cancellation) :=
  assigned_eq_some.mpr ⟨entry, h, rfl⟩

end WorkerEngine

open WorkerEngine

/-! ### The invariant -/

/-- Changes that touch no assignment. -/
def Act.Plain : Act → Prop
  | .assign _ _ | .restore _ _ | .retire _ _ => False
  | _ => True

theorem Move.plain {s s' : WorkerEngine C} {a : Act} (h : Move Q s a s') (ha : a.Plain) :
    (∃ new, s'.history = new ++ s.history ∧ ∀ event ∈ new, event.Plain) ∧
      (∀ lease, s'.assigned lease = s.assigned lease) ∧ s'.nextGeneration = s.nextGeneration ∧
      s'.cancelledTokens = s.cancelledTokens := by
  have update : ∀ {lease : LeaseId} {entry : LeaseEntry} {conns : Nat},
      s.leases.lookup lease = some entry → ∀ other : LeaseId,
      ((s.leases.insert lease { entry with conns := conns }).lookup other).map LeaseEntry.fixed =
        s.assigned other := by
    intro lease entry conns hl other
    rw [assigned]
    by_cases he : other = lease
    · subst he
      rw [Finmap.lookup_insert, hl]
      rfl
    · rw [Finmap.lookup_insert_of_ne _ he]
  cases h with
  | count _ _ | enroll _ _ | enqueue _ _ _ _ _ | dequeue _ | detachIdle _ _ | shutdown =>
    exact ⟨⟨[], rfl, by simp⟩, fun _ => rfl, rfl, rfl⟩
  | @note noted hq =>
    refine ⟨⟨[_], rfl, fun event he => ?_⟩, fun _ => rfl, rfl, rfl⟩
    rw [List.mem_singleton.mp he]
    cases noted <;> simp_all [Quiet, Event.Plain]
  | close _ _ hev =>
    refine ⟨⟨_, rfl, fun event he => ?_⟩, fun _ => rfl, rfl, rfl⟩
    obtain ⟨_, _, rfl⟩ := hev event he
    exact trivial
  | attach hl _ _ => exact ⟨⟨[_], rfl, by simp [Event.Plain]⟩, update hl, rfl, rfl⟩
  | detach hl _ => exact ⟨⟨[_], rfl, by simp [Event.Plain]⟩, update hl, rfl, rfl⟩
  | reserve _ _ _ hev =>
    refine ⟨⟨_, rfl, ?_⟩, fun _ => rfl, rfl, rfl⟩
    rcases hev with rfl | rfl <;> simp [Event.Plain]
  | burn _ _ _ _ _ => exact ⟨⟨[_], rfl, by simp [Event.Plain]⟩, fun _ => rfl, rfl, rfl⟩
  | settle result _ =>
    refine ⟨⟨[_], rfl, ?_⟩, fun _ => rfl, rfl, rfl⟩
    cases result <;> simp [settled, Event.Plain]
  | clean _ => exact ⟨⟨[_], rfl, by simp [Event.Plain]⟩, fun _ => rfl, rfl, rfl⟩
  | assign _ _ _ _ _ _ | restore _ _ _ | retire _ _ => exact ha.elim

namespace WorkerEngine

structure Numbered (s : WorkerEngine C) : Prop where
  le : ∀ x ∈ s.assignments, x.2.1 ≤ s.nextGeneration
  decreasing : s.assignments.Pairwise fun later earlier => earlier.2.1 < later.2.1
  drawn : ∀ generation, 1 ≤ generation → generation ≤ s.nextGeneration →
    ∃ lease database, (lease, generation, database) ∈ s.assignments
  current : ∀ lease database generation token,
    s.assigned lease = some (database, generation, token) →
      (lease, generation, database) ∈ s.assignments
  ended : ∀ lease generation database, (lease, generation, database) ∈ s.assignments →
    s.assigned lease = some (database, generation, generation) ∨ .cancelled generation ∈ s.history
  cancelled : ∀ token, .cancelled token ∈ s.history ↔ token ∈ s.cancelledTokens
  dropped : ∀ request accepted older, .requestedCleanup request accepted :: older <:+ s.history →
    (∃ lease generation,
      .assigned lease generation ⟨request.databaseId, request.databaseName⟩ ∈ older) ∧
    ∀ lease generation,
      .assigned lease generation ⟨request.databaseId, request.databaseName⟩ ∈ older →
        .cancelled generation ∈ older
  timers : s.timers = if 0 < s.config.leaseClaimTimeoutMs then
      s.assignments.map fun x => ⟨x.1, x.2.1, s.config.leaseClaimTimeoutMs % 2 ^ 32, x.2.1⟩
    else []

theorem Numbered.new (config : WorkerEngineConfig) :
    (WorkerEngine.new config : WorkerEngine C).Numbered where
  le := by simp [assignments, WorkerEngine.new]
  decreasing := by simp [assignments, WorkerEngine.new]
  drawn := by simp only [WorkerEngine.new]; omega
  current := by simp [assigned, WorkerEngine.new]
  ended := by simp [assignments, WorkerEngine.new]
  cancelled := by simp [WorkerEngine.new]
  dropped := by simp [WorkerEngine.new]
  timers := by simp [assignments, WorkerEngine.timers, WorkerEngine.new]

/-- A request for a cleanup is not among plain events. -/
theorem suffix_of_plain {request : CleanupDatabase} {accepted : Bool} {older old : List (Event C)} :
    ∀ {new : List (Event C)}, (∀ event ∈ new, event.Plain) →
      .requestedCleanup request accepted :: older <:+ new ++ old →
      .requestedCleanup request accepted :: older <:+ old := by
  intro new
  induction new with
  | nil => intro _ h; exact h
  | cons event new ih =>
    intro hp h
    rcases List.suffix_cons_iff.mp h with heq | h
    · injection heq with heq _
      exact absurd (hp event List.mem_cons_self) (by simp [← heq, Event.Plain])
    · exact ih (fun e he => hp e (List.mem_cons_of_mem _ he)) h

theorem filterMap_plain {α : Type} {f : Event C → Option α} {new old : List (Event C)}
    (hf : ∀ event : Event C, event.Plain → f event = none) (h : ∀ event ∈ new, event.Plain) :
    (new ++ old).filterMap f = old.filterMap f :=
  filterMap_minor fun event he => hf event (h event he)

theorem Numbered.congr {s s' : WorkerEngine C} (h : s.Numbered)
    (hh : ∃ new, s'.history = new ++ s.history ∧ ∀ event ∈ new, event.Plain)
    (hl : ∀ lease, s'.assigned lease = s.assigned lease)
    (hn : s'.nextGeneration = s.nextGeneration) (ht : s'.cancelledTokens = s.cancelledTokens)
    (hc : s'.config = s.config) : s'.Numbered := by
  obtain ⟨new, hh, hp⟩ := hh
  have hassign : s'.assignments = s.assignments := by
    rw [assignments, hh]
    exact filterMap_plain (by intro e; cases e <;> simp [Event.Plain, Event.assigns]) hp
  have htimer : s'.timers = s.timers := by
    rw [WorkerEngine.timers, hh]
    exact filterMap_plain (by intro e; cases e <;> simp [Event.Plain, Event.timer]) hp
  have hcancel : ∀ token, .cancelled token ∈ s'.history ↔ .cancelled token ∈ s.history := by
    intro token
    rw [hh, List.mem_append]
    exact or_iff_right fun he => hp _ he
  refine ⟨?_, ?_, ?_, ?_, ?_, ?_, ?_, ?_⟩
  · rw [hassign, hn]
    exact h.le
  · rw [hassign]
    exact h.decreasing
  · rw [hassign, hn]
    exact h.drawn
  · intro lease database generation token
    rw [hl, hassign]
    exact h.current lease database generation token
  · intro lease generation database
    rw [hl, hassign, hcancel]
    exact h.ended lease generation database
  · intro token
    rw [hcancel, ht]
    exact h.cancelled token
  · intro request accepted older hs
    rw [hh] at hs
    exact h.dropped request accepted older (suffix_of_plain hp hs)
  · rw [htimer, hassign, hc]
    exact h.timers

/-- The timer of an assignment bears the number that is drawn next, twice. -/
theorem Scheduling.numbered {s : WorkerEngine C} (he : s.Entries) {lease : LeaseId}
    {scheduling : List (Event C)} (hsched : s.Scheduling lease scheduling) :
    (0 < s.config.leaseClaimTimeoutMs ∧ ∃ accepted,
      scheduling = [.scheduled lease (s.nextGeneration + 1)
        (s.config.leaseClaimTimeoutMs % 2 ^ 32) (s.nextGeneration + 1) accepted]) ∨
      s.config.leaseClaimTimeoutMs = 0 ∧ scheduling = [] := by
  rw [Scheduling, he.issued] at hsched
  split at hsched
  · exact Or.inl ⟨‹_›, hsched⟩
  · exact Or.inr ⟨by omega, hsched⟩

/-- An assignment draws the next number. -/
theorem Numbered.assign {s : WorkerEngine C} (h : s.Numbered) (he : s.Entries) {lease : LeaseId}
    {database : Database} {rest : List Database} {scheduling : List (Event C)}
    (hl : lease ∉ s.leases) (hsched : s.Scheduling lease scheduling) :
    (s.assignment lease database rest scheduling).Numbered := by
  have hsched' := hsched.numbered he
  have hassign : (s.assignment lease database rest scheduling).assignments =
      (lease, s.nextGeneration + 1, database) :: s.assignments := by
    rcases hsched' with ⟨_, _, rfl⟩ | ⟨_, rfl⟩ <;> rfl
  have hcancel : ∀ token, .cancelled token ∈
      (s.assignment lease database rest scheduling).history ↔ .cancelled token ∈ s.history := by
    intro token
    rcases hsched' with ⟨_, _, rfl⟩ | ⟨_, rfl⟩ <;> simp [assignment]
  have hself : (s.assignment lease database rest scheduling).assigned lease =
      some (database, s.nextGeneration + 1, s.nextGeneration + 1) := by
    rw [← he.issued]
    exact assigned_eq_some.mpr ⟨_, Finmap.lookup_insert _, by rw [he.issued]; rfl⟩
  have hother : ∀ other, other ≠ lease →
      (s.assignment lease database rest scheduling).assigned other = s.assigned other := by
    intro other hne
    exact congrArg (Option.map LeaseEntry.fixed) (Finmap.lookup_insert_of_ne _ hne)
  refine ⟨?_, ?_, ?_, ?_, ?_, ?_, ?_, ?_⟩
  · intro x hx
    rw [hassign, List.mem_cons] at hx
    rcases hx with rfl | hx
    · exact le_refl _
    · exact Nat.le_succ_of_le (h.le x hx)
  · rw [hassign, List.pairwise_cons]
    exact ⟨fun x hx => Nat.lt_succ_of_le (h.le x hx), h.decreasing⟩
  · intro generation h1 h2
    rw [hassign]
    rcases Nat.le_succ_iff.mp h2 with h2 | rfl
    · obtain ⟨lease', database', hm⟩ := h.drawn generation h1 h2
      exact ⟨lease', database', List.mem_cons_of_mem _ hm⟩
    · exact ⟨lease, database, List.mem_cons_self⟩
  · intro other database' generation token ho
    rw [hassign, List.mem_cons]
    by_cases hne : other = lease
    · subst hne
      rw [hself] at ho
      simp only [Option.some.injEq, Prod.mk.injEq] at ho
      obtain ⟨rfl, rfl, _⟩ := ho
      exact Or.inl rfl
    · rw [hother other hne] at ho
      exact Or.inr (h.current other database' generation token ho)
  · intro other generation database' hm
    rw [hassign, List.mem_cons] at hm
    rw [hcancel]
    rcases hm with heq | hm
    · simp only [Prod.mk.injEq] at heq
      obtain ⟨rfl, rfl, rfl⟩ := heq
      exact Or.inl hself
    · refine (h.ended other generation database' hm).imp_left fun ho => ?_
      -- the lease had no database before
      have hne : other ≠ lease := by
        rintro rfl
        obtain ⟨entry, hentry, _⟩ := assigned_eq_some.mp ho
        exact hl (mem_of_lookup hentry)
      rw [hother other hne, ho]
  · intro token
    rw [hcancel]
    exact h.cancelled token
  · intro request accepted older hs
    refine h.dropped request accepted older ?_
    rcases hsched' with ⟨_, _, rfl⟩ | ⟨_, rfl⟩ <;>
      simpa [assignment, List.suffix_cons_iff] using hs
  · have hold := h.timers
    rcases hsched' with ⟨hpos, _, rfl⟩ | ⟨hz, rfl⟩
    · rw [if_pos hpos] at hold
      rw [hassign, show (s.assignment lease database rest _).config = s.config from rfl,
        if_pos hpos]
      exact congrArg (List.cons _) hold
    · rw [if_neg (by omega)] at hold
      rw [show (s.assignment lease database rest []).config = s.config from rfl,
        if_neg (by omega)]
      exact hold

/-- What an assignment of the history is, once the assignment of `lease` may have ended. -/
theorem Numbered.ended_or {s : WorkerEngine C} (h : s.Numbered) {lease other : LeaseId}
    {entry : LeaseEntry} {generation : Nat} {database : Database}
    (hl : s.leases.lookup lease = some entry)
    (hm : (other, generation, database) ∈ s.assignments) :
    other = lease ∧ generation = entry.cancellation ∨
      other ≠ lease ∧ s.assigned other = some (database, generation, generation) ∨
      .cancelled generation ∈ s.history := by
  rcases h.ended other generation database hm with ho | ho
  · by_cases hne : other = lease
    · subst hne
      rw [assigned_of_lookup hl] at ho
      simp only [Option.some.injEq, Prod.mk.injEq] at ho
      exact Or.inl ⟨rfl, ho.2.2.symm⟩
    · exact Or.inr (Or.inl ⟨hne, ho⟩)
  · exact Or.inr (Or.inr ho)

/-- No other lease holds the database of `lease`, so its earlier assignments are cancelled. -/
theorem Numbered.earlier_cancelled {s : WorkerEngine C} (h : s.Numbered) (hb : s.Books)
    {lease other : LeaseId} {entry : LeaseEntry} {generation : Nat}
    (hl : s.leases.lookup lease = some entry)
    (hm : (other, generation, entry.database) ∈ s.assignments) :
    generation = entry.cancellation ∨ .cancelled generation ∈ s.history := by
  rcases h.ended_or hl hm with ⟨_, heq⟩ | ⟨hne, ho⟩ | ho
  · exact Or.inl heq
  · obtain ⟨entry', hl', hfix⟩ := assigned_eq_some.mp ho
    simp only [LeaseEntry.fixed, Prod.mk.injEq] at hfix
    exact absurd (hb.leased_inj hl' hl (by rw [hfix.1])) hne
  · exact Or.inr ho

/-- An assignment ends: its token is cancelled, and the database may be dropped. -/
theorem Numbered.drop {s s' : WorkerEngine C} (h : s.Numbered) (hb : s.Books) (he : s.Entries)
    {lease : LeaseId} {entry : LeaseEntry} {event : Event C}
    (hl : s.leases.lookup lease = some entry)
    (hh : s'.history = event :: .cancelled entry.cancellation :: s.history)
    (hev : event.assigns = none ∧ event.timer = none ∧ (∀ token, event ≠ .cancelled token) ∧
      ∀ request accepted, event = .requestedCleanup request accepted →
        entry.database = ⟨request.databaseId, request.databaseName⟩)
    (hs : s'.leases = s.leases.erase lease) (hn : s'.nextGeneration = s.nextGeneration)
    (ht : s'.cancelledTokens = insert entry.cancellation s.cancelledTokens)
    (hc : s'.config = s.config) : s'.Numbered := by
  obtain ⟨hea, het, hec, her⟩ := hev
  have hassign : s'.assignments = s.assignments := by
    rw [assignments, hh, List.filterMap_cons_none hea]
    rfl
  have htimer : s'.timers = s.timers := by
    rw [WorkerEngine.timers, hh, List.filterMap_cons_none het]
    rfl
  have hcancel : ∀ token, .cancelled token ∈ s'.history ↔
      token = entry.cancellation ∨ .cancelled token ∈ s.history := by
    intro token
    rw [hh, List.mem_cons, List.mem_cons, or_iff_right (hec token).symm]
    simp
  have hself := he.token lease entry hl
  have hother : ∀ other, other ≠ lease → s'.assigned other = s.assigned other := by
    intro other hne
    rw [assigned, hs, Finmap.lookup_erase_ne hne, assigned]
  refine ⟨?_, ?_, ?_, ?_, ?_, ?_, ?_, ?_⟩
  · rw [hassign, hn]
    exact h.le
  · rw [hassign]
    exact h.decreasing
  · rw [hassign, hn]
    exact h.drawn
  · intro other database generation token ho
    rw [hassign]
    by_cases hne : other = lease
    · subst hne
      rw [assigned, hs, Finmap.lookup_erase] at ho
      cases ho
    · rw [hother other hne] at ho
      exact h.current other database generation token ho
  · intro other generation database hm
    rw [hassign] at hm
    rw [hcancel]
    rcases h.ended_or hl hm with ⟨_, rfl⟩ | ⟨hne, ho⟩ | ho
    · exact Or.inr (Or.inl rfl)
    · exact Or.inl ((hother other hne).trans ho)
    · exact Or.inr (Or.inr ho)
  · intro token
    rw [hcancel, ht, Finset.mem_insert, h.cancelled]
  · intro request accepted older hsuf
    rw [hh, List.suffix_cons_iff] at hsuf
    rcases hsuf with heq | hsuf
    · injection heq with heq hold
      subst hold
      have hdb := her request accepted heq.symm
      have hentry := h.current _ _ _ _ (assigned_of_lookup hl)
      rw [hdb] at hentry
      refine ⟨⟨_, _, List.mem_cons_of_mem _ (mem_assignments.mp hentry)⟩, ?_⟩
      intro other generation hm
      rw [List.mem_cons, or_iff_right nofun] at hm
      rw [List.mem_cons]
      have hm := mem_assignments.mpr hm
      rw [← hdb] at hm
      exact (h.earlier_cancelled hb hl hm).imp_left (congrArg _)
    · rcases List.suffix_cons_iff.mp hsuf with heq | hsuf
      · cases heq
      · exact h.dropped request accepted older hsuf
  · rw [htimer, hassign, hc]
    exact h.timers

/-- **Every change keeps the numbering.** -/
theorem Numbered.move {s s' : WorkerEngine C} {a : Act} (h : s.Numbered) (hb : s.Books)
    (he : s.Entries) (hm : Move Q s a s') : s'.Numbered := by
  by_cases ha : a.Plain
  · obtain ⟨hh, hl, hn, ht⟩ := hm.plain ha
    exact h.congr hh hl hn ht hm.config
  · cases hm with
    | assign _ hl _ _ _ hsched => exact h.assign he hl hsched
    | restore hl _ _ =>
      exact h.drop hb he hl rfl ⟨rfl, rfl, nofun, nofun⟩ rfl rfl rfl rfl
    | retire _ hl =>
      refine h.drop hb he hl rfl ⟨rfl, rfl, nofun, fun request accepted heq => ?_⟩ rfl rfl rfl rfl
      injection heq with heq _
      rw [← heq]
    | count _ _ | note _ | enroll _ _ | close _ _ _ | enqueue _ _ _ _ _ | dequeue _
    | attach _ _ _ | detach _ _ | detachIdle _ _ | reserve _ _ _ _ | burn _ _ _ _ _ | settle _ _
    | clean _ | shutdown => exact absurd trivial ha

end WorkerEngine

/-! ### In the runs of the engine -/

variable {config : WorkerEngineConfig} {s t : WorkerEngine C}

theorem ledger_numbered (h : (ledger Q).Reachable s) : s.Numbered := by
  refine h.invariant (fun s hs => ?_) fun s a t hr hs hm => ?_
  · obtain ⟨config, rfl⟩ := hs
    exact .new config
  · have hinv := ledger_inv hr
    exact hs.move hinv.books hinv.entries hm

theorem engine_numbered (h : (engine C config).Reachable s) : s.Numbered :=
  ledger_numbered ((engine_refines C config).reachable h).1

namespace WorkerEngine

/-- What the tokens, cleanups and timers of a running engine have to do with its
assignments. -/
structure Disciplined (s : WorkerEngine C) : Prop where
  /-- An entry was assigned, and its token is the one that was drawn with its generation. -/
  own : ∀ lease entry, s.leases.lookup lease = some entry →
    entry.cancellation = entry.generation ∧
      .assigned lease entry.generation entry.database ∈ s.history
  drawn : ∀ token, 1 ≤ token → token ≤ s.issuedTokens →
    ∃ lease database, .assigned lease token database ∈ s.history
  live : ∀ lease entry, s.leases.lookup lease = some entry →
    s.isCancelled entry.cancellation = false
  ended : ∀ lease generation database, .assigned lease generation database ∈ s.history →
    (∀ entry, s.leases.lookup lease = some entry → entry.generation ≠ generation) →
      s.isCancelled generation = true
  cleanup : ∀ request accepted older, .requestedCleanup request accepted :: older <:+ s.history →
    (∃ lease generation,
      .assigned lease generation ⟨request.databaseId, request.databaseName⟩ ∈ older) ∧
    ∀ lease generation,
      .assigned lease generation ⟨request.databaseId, request.databaseName⟩ ∈ older →
        .cancelled generation ∈ older
  timer : 0 < s.config.leaseClaimTimeoutMs → ∀ lease entry, s.leases.lookup lease = some entry →
    s.timers.filter (fun timer => timer.lease = lease ∧ timer.generation = entry.generation) =
      [⟨lease, entry.generation, s.config.leaseClaimTimeoutMs % 2 ^ 32, entry.cancellation⟩]
  timers : ∀ timer ∈ s.timers, s.isCancelled timer.cancellation = false ↔
    ∃ entry, s.leases.lookup timer.lease = some entry ∧ entry.generation = timer.generation ∧
      entry.cancellation = timer.cancellation

end WorkerEngine

theorem engine_disciplined (h : (engine C config).Reachable s) (hrun : s.rootCancelled = false) :
    s.Disciplined := by
  have hinv := (engine_inv h).1
  have hn := engine_numbered h
  have hcancel : ∀ token, s.isCancelled token = true ↔ .cancelled token ∈ s.history := by
    intro token
    rw [isCancelled, hrun, Bool.false_or, decide_eq_true_eq, hn.cancelled]
  have hlive : ∀ lease entry, s.leases.lookup lease = some entry →
      s.isCancelled entry.cancellation = false := by
    intro lease entry hl
    rw [isCancelled, hrun, decide_eq_false (hinv.entries.token_live lease entry hl)]
    rfl
  have hassigned : ∀ lease entry, s.leases.lookup lease = some entry →
      (lease, entry.generation, entry.database) ∈ s.assignments :=
    fun lease entry hl => hn.current _ _ _ _ (assigned_of_lookup hl)
  -- the numbers tell the timers apart
  have hnodup : s.timers.Nodup := by
    rw [hn.timers]
    split
    · refine List.pairwise_map.mpr (hn.decreasing.imp fun hlt heq => ?_)
      injection heq with _ hgen
      omega
    · exact List.nodup_nil
  refine ⟨fun lease entry hl => ⟨hinv.entries.token lease entry hl,
    mem_assignments.mp (hassigned lease entry hl)⟩, ?_, hlive, ?_, hn.dropped, ?_, ?_⟩
  · intro token h1 h2
    rw [hinv.entries.issued] at h2
    obtain ⟨lease, database, hm⟩ := hn.drawn token h1 h2
    exact ⟨lease, database, mem_assignments.mp hm⟩
  · intro lease generation database hm hend
    rw [hcancel]
    refine (hn.ended lease generation database (mem_assignments.mpr hm)).resolve_left fun hc => ?_
    obtain ⟨entry, hl, hfix⟩ := assigned_eq_some.mp hc
    simp only [LeaseEntry.fixed, Prod.mk.injEq] at hfix
    exact hend entry hl hfix.2.1
  · intro hpos lease entry hl
    have htimers := hn.timers
    rw [if_pos hpos] at htimers
    have hmem : ⟨lease, entry.generation, s.config.leaseClaimTimeoutMs % 2 ^ 32,
        entry.cancellation⟩ ∈ s.timers := by
      rw [htimers, hinv.entries.token lease entry hl]
      exact List.mem_map_of_mem (hassigned lease entry hl)
    rw [List.filter_congr (q := (· == ⟨lease, entry.generation,
      s.config.leaseClaimTimeoutMs % 2 ^ 32, entry.cancellation⟩)), List.filter_beq,
      List.count_eq_one_of_mem hnodup hmem, List.replicate_one]
    intro timer ht
    rw [htimers] at ht
    obtain ⟨x, _, rfl⟩ := List.mem_map.mp ht
    rw [Bool.eq_iff_iff]
    simp [hinv.entries.token lease entry hl]
  · intro timer ht
    rw [hn.timers] at ht
    split at ht
    · obtain ⟨⟨lease, generation, database⟩, hx, rfl⟩ := List.mem_map.mp ht
      constructor
      · intro hc
        rcases hn.ended lease generation database hx with hcur | hcur
        · obtain ⟨entry, hl, hfix⟩ := assigned_eq_some.mp hcur
          simp only [LeaseEntry.fixed, Prod.mk.injEq] at hfix
          exact ⟨entry, hl, hfix.2⟩
        · rw [(hcancel generation).mpr hcur] at hc
          cases hc
      · rintro ⟨entry, hl, _, htok⟩
        exact htok ▸ hlive lease entry hl
    · cases ht

/-- **Cancellation and expiry discipline.**  Before `Shutdown` the tokens of the
current assignments are live and those of all others cancelled, a cleanup was
requested only once every assignment of its database was cancelled, and each
current assignment has one timer, guarded by its own token.  `Shutdown`, and the
end of `run`, cancel every token. -/
theorem cancellation_discipline (h : (engine C config).Reachable s) :
    (s.rootCancelled = false → s.Disciplined) ∧
      (s.rootCancelled = true → ∀ token, s.isCancelled token = true) ∧
      (∀ env t, processMessage env .shutdown s = .ok t →
        ∀ token, t.isCancelled token = true) ∧
      ∀ messages t, WorkerEngine.run messages s = .ok t →
        ∀ token, t.isCancelled token = true := by
  refine ⟨engine_disciplined h, fun hroot token => ?_, fun env t hok token => ?_,
    fun messages t hok token => ?_⟩
  · simp [isCancelled, hroot]
  · cases hok
    simp [isCancelled]
  · obtain ⟨u, _, hu⟩ := bind_ok hok
    cases hu
    simp [isCancelled]

/-- The small engine after its first lease was released and assigned anew. -/
theorem cancellation_discipline_sample : ∃ s : WorkerEngine Nat,
    (engine Nat Sample.settings).Reachable s ∧
      (s.leases.lookup Sample.leaseB).isSome = true ∧ s.Disciplined := by
  obtain ⟨s, hs, hl, hrun⟩ := Sample.reached
    [.attachOrJoin Sample.leaseA 0 0, .releaseLease Sample.leaseA 1,
      .attachOrJoin Sample.leaseB 2 0]
    (fun s => (s.leases.lookup Sample.leaseB).isSome = true ∧ s.rootCancelled = false)
    (by decide)
  exact ⟨s, hs, hl, (cancellation_discipline hs).1 hrun⟩

end PgTest.Engine
