import Mathlib.Data.Multiset.Bind
import Mathlib.Tactic.Abel
import PgTest.Engine.Late

/-!
# What the engine asks of its workers

While both worker channels are open every request is accepted.  `Jobs` balances
what handling a message does to `creating` and `retiring`: what is in them before,
with what the engine asked for, is what is in them after, with what the message
settled.  Changes without a job (`Act.Jobless`) need no account of their own.
-/

namespace PgTest.Engine

open PgTest.Lib

variable {C : Type} {Q : LeaseId → C → Prop}

/-- The identifiers of a batch, by index. -/
def CreateDatabases.numbers (request : CreateDatabases) : List Nat :=
  (List.range request.amount).map (request.firstDatabaseId + ·)

theorem CreateDatabases.nodup_numbers (request : CreateDatabases) : request.numbers.Nodup :=
  List.nodup_range.map fun _ _ h => Nat.add_left_cancel h

theorem CreateDatabases.ids_val (request : CreateDatabases) :
    request.ids.val = (request.numbers : Multiset Nat) := by
  rw [CreateDatabases.ids, ← DatabaseInventory.toFinset_range_map, List.toFinset_val]
  exact congrArg _ request.nodup_numbers.dedup

/-- The request that the creation worker got. -/
def Event.asksCreation : Event C → Option CreateDatabases
  | .requestedCreation request true => some request
  | _ => none

/-- The request that the cleanup worker got. -/
def Event.asksCleanup : Event C → Option CleanupDatabase
  | .requestedCleanup request true => some request
  | _ => none

/-- Both worker channels are open: a send succeeds. -/
def Env.connected (env : Env C) : Env C :=
  { env with requestCreation := fun _ => true, requestCleanup := fun _ => true }

/-- The databases of the creations that were asked for. -/
def creationsAsked (events : List (Event C)) : Multiset Nat :=
  (events.filterMap Event.asksCreation).flatMap CreateDatabases.numbers

/-- The databases of the cleanups that were asked for. -/
def cleanupsAsked (events : List (Event C)) : Multiset Nat :=
  (events.filterMap Event.asksCleanup).map CleanupDatabase.databaseId

@[simp] theorem creationsAsked_append (new old : List (Event C)) :
    creationsAsked (new ++ old) = creationsAsked new + creationsAsked old := by
  simp [creationsAsked]

@[simp] theorem cleanupsAsked_append (new old : List (Event C)) :
    cleanupsAsked (new ++ old) = cleanupsAsked new + cleanupsAsked old := by
  simp [cleanupsAsked]

namespace WorkerEngine

/-- From `s` to `t` the creations `settled` and the cleanups `cleaned` were reported. -/
def Jobs (settled cleaned : Multiset Nat) (s t : WorkerEngine C) : Prop :=
  ∃ new, t.history = new ++ s.history ∧
    t.inventory.creating.val + settled = s.inventory.creating.val + creationsAsked new ∧
    t.inventory.retiring.keys.val + cleaned = s.inventory.retiring.keys.val + cleanupsAsked new

namespace Jobs

variable {settled cleaned settled' cleaned' : Multiset Nat} {s t u : WorkerEngine C}

theorem refl (s : WorkerEngine C) : Jobs 0 0 s s := ⟨[], rfl, rfl, rfl⟩

theorem trans (h : Jobs settled cleaned s t) (g : Jobs settled' cleaned' t u) :
    Jobs (settled + settled') (cleaned + cleaned') s u := by
  obtain ⟨new, h1, h2, h3⟩ := h
  obtain ⟨more, g1, g2, g3⟩ := g
  refine ⟨more ++ new, by rw [g1, h1, List.append_assoc], ?_, ?_⟩
  · calc u.inventory.creating.val + (settled + settled')
        = u.inventory.creating.val + settled' + settled := by abel
      _ = t.inventory.creating.val + settled + creationsAsked more := by rw [g2]; abel
      _ = s.inventory.creating.val + creationsAsked (more ++ new) := by
        rw [h2, creationsAsked_append]; abel
  · calc u.inventory.retiring.keys.val + (cleaned + cleaned')
        = u.inventory.retiring.keys.val + cleaned' + cleaned := by abel
      _ = t.inventory.retiring.keys.val + cleaned + cleanupsAsked more := by rw [g3]; abel
      _ = s.inventory.retiring.keys.val + cleanupsAsked (more ++ new) := by
        rw [h3, cleanupsAsked_append]; abel

theorem before (h : Jobs settled cleaned s t) (g : Jobs 0 0 t u) : Jobs settled cleaned s u := by
  simpa using h.trans g

theorem after (h : Jobs 0 0 s t) (g : Jobs settled cleaned t u) : Jobs settled cleaned s u := by
  simpa using h.trans g

/-- Neither set changes, and nothing is asked. -/
theorem same (hc : t.inventory.creating = s.inventory.creating)
    (hr : t.inventory.retiring = s.inventory.retiring)
    (hh : ∃ new, t.history = new ++ s.history ∧
      ∀ event ∈ new, event.asksCreation = none ∧ event.asksCleanup = none) : Jobs 0 0 s t := by
  obtain ⟨new, hh, hnew⟩ := hh
  refine ⟨new, hh, ?_, ?_⟩
  · rw [hc, creationsAsked, List.filterMap_eq_nil_iff.mpr fun event he => (hnew event he).1]
    simp
  · rw [hr, cleanupsAsked, List.filterMap_eq_nil_iff.mpr fun event he => (hnew event he).2]
    simp

end Jobs

end WorkerEngine

open WorkerEngine

/-- Changes that neither start nor end a job. -/
def Act.Jobless : Act → Prop
  | .reserve | .settle _ | .retire _ _ | .clean _ => False
  | _ => True

theorem Act.Attaching.jobless {a : Act} {base : Nat} (h : a.Attaching base) : a.Jobless := by
  cases a with
  | note | enroll _ | close _ | enqueue _ | dequeue _ | assign _ _ | attach _ _ | restore _ _
  | detach _ _ | shutdown => exact trivial
  | reserve | settle _ | retire _ _ | clean _ =>
    obtain ⟨_, h⟩ := h
    exact h.elim

theorem Move.jobs {s t : WorkerEngine C} {a : Act} (h : Move Q s a t) (ha : a.Jobless) :
    Jobs 0 0 s t := by
  cases h with
  | count _ _ | enroll _ _ | enqueue _ _ _ _ _ | dequeue _ | detachIdle _ _ | shutdown =>
    exact .same rfl rfl ⟨[], rfl, by simp⟩
  | @note noted hq =>
    refine .same rfl rfl ⟨[noted], rfl, ?_⟩
    cases noted <;> simp_all [Quiet, Event.asksCreation, Event.asksCleanup]
  | close _ _ hev =>
    refine .same rfl rfl ⟨_, rfl, fun event he => ?_⟩
    obtain ⟨_, _, rfl⟩ := hev event he
    exact ⟨rfl, rfl⟩
  | @assign lease database rest scheduling _ _ _ _ _ hsched =>
    refine .same rfl rfl ⟨scheduling ++ [.assigned lease (s.nextGeneration + 1) database],
      by simp [assignment], ?_⟩
    rw [Scheduling] at hsched
    split at hsched
    · obtain ⟨_, rfl⟩ := hsched
      simp [Event.asksCreation, Event.asksCleanup]
    · subst hsched
      simp [Event.asksCreation, Event.asksCleanup]
  | attach _ _ _ | detach _ _ =>
    exact .same rfl rfl ⟨[_], rfl, by simp [Event.asksCreation, Event.asksCleanup]⟩
  | restore _ _ _ =>
    exact .same rfl rfl ⟨[_, _], rfl, by simp [Event.asksCreation, Event.asksCleanup]⟩
  | reserve _ _ _ _ | burn _ _ _ _ _ | settle _ _ | retire _ _ | clean _ => exact ha.elim

theorem Path.jobs {s t : WorkerEngine C} (h : Path Q Act.Jobless s t) (hs : Inv Q s) :
    Jobs 0 0 s t := by
  refine h.invariant (I := fun t => Jobs 0 0 s t) (fun _ _ _ ha _ hI hm => ?_) hs (.refl s)
  exact hI.before (hm.jobs ha)

theorem Path.fits {s t : WorkerEngine C} {P : Act → Prop} (h : Path Q P s t) (hs : Inv Q s)
    (hfit : s.inventory.nextDatabaseId ≤ u64Max) : t.inventory.nextDatabaseId ≤ u64Max := by
  refine h.invariant (I := fun t => t.inventory.nextDatabaseId ≤ u64Max) ?_ hs hfit
  intro s₁ a t₁ _ _ hI hm
  cases hm with
  | reserve _ _ hmax _ => exact hmax
  | burn _ _ _ _ hmax => exact hmax
  | @settle databaseId result hc =>
    obtain ⟨_, hn, _⟩ :=
      @held_settle C s₁ (s₁.settledWith databaseId result) databaseId result hc rfl rfl
    exact hn ▸ hI
  | count _ _ | note _ | enroll _ _ | close _ _ _ | enqueue _ _ _ _ _ | dequeue _
  | assign _ _ _ _ _ _ | attach _ _ _ | restore _ _ _ | detach _ _ | detachIdle _ _ | retire _ _
  | clean _ | shutdown => exact hI

namespace WorkerEngine

variable {env : Env C} {s t : WorkerEngine C}

theorem grow_jobs (h : s.Books) (hok : grow env.connected s = .ok t) : Jobs 0 0 s t := by
  rcases grow_cases hok with ⟨rfl, _⟩ | ⟨_, _, _, ⟨_, rfl⟩ | ⟨hno, _⟩⟩
  · exact .same rfl rfl ⟨[_], rfl, by simp [Event.asksCreation, Event.asksCleanup]⟩
  · refine ⟨[_, _], rfl, ?_, by simp [grown, cleanupsAsked, Event.asksCleanup]⟩
    -- the new identifiers are in no batch under way
    have hdisj : Disjoint s.inventory.creating (s.growth env.connected.now).ids :=
      h.disjoint_ids rfl
    show (s.inventory.creating ∪ (s.growth env.connected.now).ids).val + 0 = _
    rw [← Finset.disjUnion_eq_union _ _ hdisj, Finset.disjUnion_val, CreateDatabases.ids_val,
      add_zero]
    simp [creationsAsked, Event.asksCreation, List.filterMap_cons]
  · cases hno

theorem retired_jobs {lease : LeaseId} {entry : LeaseEntry} (h : s.Books)
    (hl : s.leases.lookup lease = some entry) :
    Jobs 0 0 s (s.retired env.connected lease entry) := by
  refine ⟨[_, _], rfl, by simp [retired, creationsAsked, Event.asksCreation], ?_⟩
  show (s.inventory.retiring.insert _ _).keys.val + 0 = _
  rw [keys_insert _ (h.retiring_of_leased hl)]
  simp only [cleanupsAsked, Event.asksCleanup, Env.connected, List.filterMap_cons,
    List.filterMap_nil, List.map_cons, List.map_nil, Multiset.coe_singleton, add_zero]
  exact ((Multiset.add_comm _ _).trans (Multiset.singleton_add _ _)).symm

theorem retireLease_jobs {lease : LeaseId} (h : Inv Q s)
    (hok : retireLease env.connected lease s = .ok t) : Jobs 0 0 s t := by
  cases hl : s.leases.lookup lease with
  | none =>
    rw [retireLease_none hl] at hok
    cases hok
    exact .refl _
  | some entry =>
    have hinv : Inv Q (s.retired env.connected lease entry) := h.move (retired_move hl)
    exact (retired_jobs h.books hl).before (grow_jobs hinv.books (retireLease_some hl hok))

theorem releaseLease_jobs {lease : LeaseId} {result : Except ReleaseError Unit} (h : Inv Q s)
    (hok : releaseLease env.connected lease s = .ok (result, t)) : Jobs 0 0 s t := by
  cases ha : s.admitLease lease with
  | mk outcome s₀ =>
    have hp : Path Q Act.Jobless s s₀ := (admitLease_path ha).mono fun _ he => he ▸ trivial
    have hinv := hp.inv h
    have hadmission := hp.jobs h
    cases outcome with
    | error error =>
      rw [releaseLease, ha] at hok
      cases hok
      exact hadmission
    | ok status =>
      cases status with
      | closed =>
        rw [releaseLease, ha] at hok
        cases hok
        exact hadmission
      | opened =>
        obtain ⟨_, hret⟩ := releaseLease_opened ha hok
        refine hadmission.before ?_
        cases hl : s₀.leases.lookup lease with
        | none =>
          cases (retireLease_none (by exact hl)).symm.trans hret
          refine .same rfl rfl ⟨s₀.rejections env.connected lease, rfl, fun event he => ?_⟩
          obtain ⟨_, _, rfl⟩ := List.mem_map.mp (List.mem_reverse.mp he)
          exact ⟨rfl, rfl⟩
        | some entry =>
          rw [hinv.rejections_nil hl] at hret
          have hgrow := retireLease_some (by exact hl) hret
          have hclose : Move Q (s₀.retired env.connected lease entry) (.close lease) _ :=
            retired_close_move env.connected (admitLease_lookup ha)
          have hinv₁ := (hinv.move (retired_move hl)).move hclose
          have hretired : Jobs 0 0 s₀ (s₀.retired env.connected lease entry) :=
            retired_jobs hinv.books hl
          exact (hretired.before (hclose.jobs trivial)).before (grow_jobs hinv₁.books hgrow)

theorem attachOpen_jobs {lease : LeaseId} {reply : C} {messageTime : Nat} (h : Inv Q s)
    (hidle : s.NoIdle) (hopen : s.leaseRecords.lookup lease = some .opened) (hQ : Q lease reply)
    (hok : attachOpen env.connected lease reply messageTime s = .ok t) : Jobs 0 0 s t := by
  cases hl : s.leases.lookup lease with
  | some entry =>
    rw [attachOpen, hl] at hok
    have hp : Path Q (Act.Serving lease 0) s t := (replyAttached_path hl hQ hok).1
    exact (hp.mono fun _ ha => ha.dispatching.attaching.jobless).jobs h
  | none =>
    obtain ⟨u, hp, _, hgrow⟩ := attachOpen_path h hidle hopen hQ (Nat.zero_le _) hl hok
    have hgrown := grow_jobs (hp.inv h).books hgrow
    exact ((hp.mono fun _ ha => ha.jobless).jobs h).before hgrown

theorem attachOrJoin_jobs {lease : LeaseId} {reply : C} {messageTime : Nat} (h : Inv Q s)
    (hidle : s.NoIdle) (hQ : Q lease reply)
    (hok : attachOrJoin env.connected lease reply messageTime s = .ok t) : Jobs 0 0 s t := by
  cases ha : s.admitLease lease with
  | mk outcome s₀ =>
    have hp : Path Q Act.Jobless s s₀ := (admitLease_path ha).mono fun _ he => he ▸ trivial
    have hsend : ∀ error, Jobs 0 0 s (s₀.send env.connected lease (.attachRejected error) reply) :=
      fun error => (hp.jobs h).before (.same rfl rfl ⟨[_], rfl, by
        simp [Event.asksCreation, Event.asksCleanup]⟩)
    rw [attachOrJoin, ha] at hok
    cases outcome with
    | error error => cases error <;> cases hok <;> exact hsend _
    | ok status =>
      cases status with
      | closed =>
        cases hok
        exact hsend _
      | opened =>
        have hidle₀ : s₀.NoIdle := by
          rw [admitLease_keeps ha]
          exact hidle
        have hopen := attachOpen_jobs (hp.inv h) hidle₀ (admitLease_lookup ha) hQ hok
        exact (hp.jobs h).before hopen

/-- An accepted creation settles its identifier. -/
theorem creationFinished_jobs {databaseId : Nat}
    {result : Except PostgresDDLClientError ReadString} (h : Inv Q s)
    (hc : databaseId ∈ s.inventory.creating)
    (hok : handleDatabaseWorkerMessage env.connected (.creationFinished databaseId result) s =
      .ok t) : Jobs {databaseId} 0 s t := by
  obtain ⟨_, s₂, h1, h2⟩ := (creationFinished_cases hok).resolve_left fun hno => hno.1 hc
  have hsettle : Move Q s (.settle databaseId) (s.settledWith databaseId result) :=
    .settle result hc
  have hinv := h.move hsettle
  have hjob : Jobs {databaseId} 0 s (s.settledWith databaseId result) := by
    obtain ⟨hcr, _, hr, _⟩ :=
      @held_settle C s (s.settledWith databaseId result) databaseId result hc rfl rfl
    refine ⟨[settled databaseId result], rfl, ?_, ?_⟩
    · rw [hcr, Finset.erase_val, Multiset.add_comm, Multiset.singleton_add,
        Multiset.cons_erase hc]
      cases result <;> simp [settled, creationsAsked, Event.asksCreation, List.filterMap_cons]
    · rw [hr]
      cases result <;> simp [settled, cleanupsAsked, Event.asksCleanup, List.filterMap_cons]
  have hcount : Move Q (s.settledWith databaseId result) .note _ :=
    .count (s.counters.afterCreation result) (s.counters.afterCreation_detachOnZero result)
  have hp := (dispatchLoop_path (hinv.move hcount) (Nat.zero_le _) rfl h1).1
  have hdisp : Jobs 0 0 _ s₂ :=
    (hp.mono fun _ ha => ha.attaching.jobless).jobs (hinv.move hcount)
  have hgrow := grow_jobs (hp.inv (hinv.move hcount)).books h2
  exact ((hjob.before (hcount.jobs trivial)).before hdisp).before hgrow

theorem detach_jobs (lease : LeaseId) (generation : Nat) :
    Jobs 0 0 s (s.detach lease generation) := by
  rw [detach]
  split
  · exact .refl _
  · split
    · split
      · exact .same rfl rfl ⟨[], rfl, by simp⟩
      · exact .same rfl rfl ⟨[_], rfl, by simp [Event.asksCreation, Event.asksCleanup]⟩
    · exact .refl _

theorem leaseMaxTimeReached_jobs {lease : LeaseId} {generation : Nat} (h : Inv Q s)
    (hok : leaseMaxTimeReached env.connected lease generation s = .ok t) : Jobs 0 0 s t := by
  rw [leaseMaxTimeReached] at hok
  split at hok
  · have hcount : Move Q s .note { s with counters := { s.counters with
        rejectedAttachMaxLifetime := s.counters.rejectedAttachMaxLifetime + 1 } } := .count _ rfl
    exact (hcount.jobs trivial).before (retireLease_jobs (h.move hcount) hok)
  · cases hok
    exact .refl _

end WorkerEngine

/-- The creation that a message settles. -/
def EngineMessage.settles : EngineMessage C → Multiset Nat
  | .databaseWorker (.creationFinished databaseId _) => {databaseId}
  | _ => 0

/-- The cleanup that a message brings to its end. -/
def EngineMessage.cleans : EngineMessage C → Multiset Nat
  | .databaseWorker (.cleanupFinished databaseId (.ok ())) => {databaseId}
  | _ => 0

/-- **A message settles its own job**, if the engine waits for it, and asks for others. -/
theorem processMessage_jobs {env : Env C} {message : EngineMessage C} {s t : WorkerEngine C}
    (h : Inv Q s) (hidle : s.NoIdle) (hQ : message.Known Q)
    (ha : ∀ result, message = .databaseWorker result → result.Accepted s)
    (hok : processMessage env.connected message s = .ok t) :
    Jobs message.settles message.cleans s t := by
  cases message with
  | attachOrJoin lease reply messageTime => exact attachOrJoin_jobs h hidle hQ hok
  | releaseLease lease reply =>
    obtain ⟨⟨result, s₁⟩, h1, h2⟩ := bind_ok hok
    cases h2
    exact (releaseLease_jobs h h1).before (.same rfl rfl ⟨[_], rfl, by
      simp [Event.asksCreation, Event.asksCleanup]⟩)
  | detach lease generation =>
    cases hok
    exact detach_jobs lease generation
  | leaseMaxTimeReached lease generation => exact leaseMaxTimeReached_jobs h hok
  | databaseWorker message =>
    cases message with
    | creationFinished databaseId result => exact creationFinished_jobs h (ha _ rfl) hok
    | cleanupFinished databaseId result =>
      have hr : databaseId ∈ s.inventory.retiring := ha _ rfl
      cases result with
      | ok =>
        simp only [processMessage, handleDatabaseWorkerMessage, DatabaseInventory.completeCleanup,
          hr, if_true] at hok
        cases hok
        refine ⟨[.cleaned databaseId], rfl, ?_, ?_⟩
        · show s.inventory.creating.val + 0 = s.inventory.creating.val + _
          simp [creationsAsked, Event.asksCreation, List.filterMap_cons]
        · show (s.inventory.retiring.erase databaseId).keys.val + {databaseId} = _
          rw [Multiset.add_comm, Multiset.singleton_add, ← keys_erase hr]
          simp [cleanupsAsked, Event.asksCleanup, List.filterMap_cons]
      | error error =>
        simp only [processMessage, handleDatabaseWorkerMessage, DatabaseInventory.completeCleanup,
          hr, if_true] at hok
        cases hok
        exact .refl _
  | shutdown =>
    cases hok
    exact .same rfl rfl ⟨[], rfl, by simp⟩

/-- Identifiers are `u64` values. -/
theorem identities_fit {config : WorkerEngineConfig} {s : WorkerEngine C}
    (h : (engine C config).Reachable s) : s.inventory.nextDatabaseId ≤ u64Max := by
  refine h.invariant (I := fun s => s.inventory.nextDatabaseId ≤ u64Max) (fun s hs => ?_)
    fun s i t hr hI hstep => ?_
  · obtain ⟨_, hok⟩ := hs
    exact (tryInit_path (Q := Anyone) hok).1.fits (.new config) (Nat.zero_le _)
  · exact (engine_step hr hstep.2).fits (engine_inv hr).1 hI

end PgTest.Engine
