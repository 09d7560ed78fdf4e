import PgTest.Engine.Core

/-!
# The ledger: what the engine may do to its state

The engine changes its state through a small number of atomic changes, listed
here as the steps of a machine of their own.  Each step names what it does
(`Act`) and carries the condition under which the engine does it: a database is
put back only while nobody was told of it, a lease waits only while nothing is
ready, an identifier is new when it is reserved.

`engine_refines` shows that handling a message is a run of this machine, so an
invariant has to be kept by the steps below and by nothing else.

`Q lease consumer` is what is known of a consumer whose request for `lease` is
served.  It is `True` where the engine runs on its own.
-/

namespace PgTest.Engine

open PgTest.Lib

variable {C : Type}

/-- What a delivered `Attached` reply hands out: a lease, its generation and the
database behind them. -/
def Event.handsOut : Event C → Option (LeaseId × Nat × Nat)
  | .reply lease _ (.attached _ generation _) (some databaseId) true =>
      some (lease, generation, databaseId)
  | _ => none

namespace WorkerEngine

/-- All that was handed out, newest first. -/
def handed (s : WorkerEngine C) : List (LeaseId × Nat × Nat) :=
  s.history.filterMap Event.handsOut

/-- Nobody was told of the assignment `generation` of `lease`. -/
def Undelivered (s : WorkerEngine C) (lease : LeaseId) (generation : Nat) : Prop :=
  ∀ databaseId, (lease, generation, databaseId) ∉ s.handed

/-- An event that goes with no change of a lease, a database or the queue. -/
def Quiet (s : WorkerEngine C) : Event C → Prop
  | .reply lease _ (.attached databaseName generation cancellation) behind delivered =>
      delivered = false ∧ ∃ entry, s.leases.lookup lease = some entry ∧
        databaseName = entry.database.databaseName ∧ generation = entry.generation ∧
        cancellation = entry.cancellation ∧ behind = some entry.database.databaseId
  | .reply lease _ (.releaseResult (.ok ())) _ _ => s.leaseRecords.lookup lease = some .closed
  | .reply _ _ _ _ _ => True
  | .expired _ _ => True
  | .grew => True
  | _ => False

/-- What `assign_database` does after it has drawn a database. -/
def assignment (lease : LeaseId) (database : Database) (rest : List Database)
    (scheduling : List (Event C)) (s : WorkerEngine C) : WorkerEngine C :=
  { s with
    inventory := { s.inventory with ready := rest }
    nextGeneration := s.nextGeneration + 1
    issuedTokens := s.issuedTokens + 1
    leases := s.leases.insert lease
      { database := database, conns := 0, generation := s.nextGeneration + 1,
        cancellation := s.issuedTokens + 1 }
    history := scheduling ++ .assigned lease (s.nextGeneration + 1) database :: s.history }

/-- The expiry timer that goes with an assignment, when leases expire. -/
def Scheduling (s : WorkerEngine C) (lease : LeaseId) (scheduling : List (Event C)) : Prop :=
  if 0 < s.config.leaseClaimTimeoutMs then
    ∃ accepted, scheduling = [.scheduled lease (s.nextGeneration + 1)
      (s.config.leaseClaimTimeoutMs % 2 ^ 32) (s.issuedTokens + 1) accepted]
  else scheduling = []

end WorkerEngine

/-- A new number of connections leaves the rest of every entry. -/
theorem lookup_update {leases : Finmap fun _ : LeaseId => LeaseEntry} {lease l : LeaseId}
    {entry e' : LeaseEntry} {conns : Nat} (hl : leases.lookup lease = some entry)
    (he' : (leases.insert lease { entry with conns := conns }).lookup l = some e') :
    ∃ e, leases.lookup l = some e ∧ e.generation = e'.generation ∧ e.database = e'.database ∧
      e.cancellation = e'.cancellation := by
  rcases lookup_insert_eq_some.mp he' with ⟨rfl, rfl⟩ | ⟨_, he'⟩
  · exact ⟨entry, hl, rfl, rfl, rfl⟩
  · exact ⟨e', he', rfl, rfl, rfl⟩

/-- The name of an atomic change. -/
inductive Act
  | note
  | enroll (lease : LeaseId)
  | close (lease : LeaseId)
  | enqueue (lease : LeaseId)
  | dequeue (lease : LeaseId)
  | assign (lease : LeaseId) (generation : Nat)
  | attach (lease : LeaseId) (generation : Nat)
  | restore (lease : LeaseId) (generation : Nat)
  | detach (lease : LeaseId) (generation : Nat)
  | retire (lease : LeaseId) (generation : Nat)
  | reserve
  | settle (databaseId : Nat)
  | clean (databaseId : Nat)
  | shutdown

/-- The atomic changes. -/
inductive Move (Q : LeaseId → C → Prop) : WorkerEngine C → Act → WorkerEngine C → Prop
  | count {s : WorkerEngine C} (counters : EngineCounters)
      (hz : counters.detachOnZero = s.counters.detachOnZero) :
      Move Q s .note { s with counters := counters }
  | note {s : WorkerEngine C} {event : Event C} (hq : s.Quiet event) :
      Move Q s .note (s.log event)
  | enroll {s : WorkerEngine C} {lease : LeaseId} (hnew : lease ∉ s.leaseRecords)
      (hcap : s.leaseRecords.keys.card < s.config.maxLeaseRecords) :
      Move Q s (.enroll lease) { s with leaseRecords := s.leaseRecords.insert lease .opened }
  | close {s : WorkerEngine C} {lease : LeaseId} {events : List (Event C)}
      (hopen : s.leaseRecords.lookup lease = some .opened) (hl : lease ∉ s.leases)
      (hev : ∀ event ∈ events, ∃ consumer delivered,
        event = .reply lease consumer (.attachRejected .leaseClosed) none delivered) :
      Move Q s (.close lease) { s with
        leaseRecords := s.leaseRecords.insert lease .closed
        groupWaiters := s.groupWaiters.erase lease
        waiters := s.waiters.filter (· ≠ lease)
        history := events ++ s.history }
  | enqueue {s : WorkerEngine C} {lease : LeaseId} {consumer : C} (messageTime : Nat)
      (hopen : s.leaseRecords.lookup lease = some .opened) (hl : lease ∉ s.leases)
      (hready : s.inventory.ready = []) (hQ : Q lease consumer) :
      Move Q s (.enqueue lease) (s.enqueue lease consumer messageTime)
  | dequeue {s : WorkerEngine C} {lease : LeaseId} {rest : List LeaseId}
      (hw : s.waiters = lease :: rest) :
      Move Q s (.dequeue lease) { s with
        waiters := rest, groupWaiters := s.groupWaiters.erase lease }
  | assign {s : WorkerEngine C} {lease : LeaseId} {database : Database} {rest : List Database}
      {scheduling : List (Event C)} (hopen : s.leaseRecords.lookup lease = some .opened)
      (hl : lease ∉ s.leases) (hw : lease ∉ s.groupWaiters)
      (hready : s.inventory.ready = database :: rest) (hmax : s.nextGeneration + 1 ≤ u64Max)
      (hsched : s.Scheduling lease scheduling) :
      Move Q s (.assign lease (s.nextGeneration + 1))
        (s.assignment lease database rest scheduling)
  | attach {s : WorkerEngine C} {lease : LeaseId} {entry : LeaseEntry} {consumer : C}
      (hl : s.leases.lookup lease = some entry) (hc : entry.conns + 1 ≤ u16Max)
      (hQ : Q lease consumer) :
      Move Q s (.attach lease entry.generation) { s with
        leases := s.leases.insert lease { entry with conns := entry.conns + 1 }
        history := .reply lease consumer
          (.attached entry.database.databaseName entry.generation entry.cancellation)
          (some entry.database.databaseId) true :: s.history }
  | restore {s : WorkerEngine C} {lease : LeaseId} {entry : LeaseEntry}
      (hl : s.leases.lookup lease = some entry) (hc : entry.conns = 0)
      (hu : s.Undelivered lease entry.generation) :
      Move Q s (.restore lease entry.generation) { s with
        leases := s.leases.erase lease
        cancelledTokens := insert entry.cancellation s.cancelledTokens
        inventory := { s.inventory with ready := entry.database :: s.inventory.ready }
        history := .returned lease entry.generation entry.database ::
          .cancelled entry.cancellation :: s.history }
  | detach {s : WorkerEngine C} {lease : LeaseId} {entry : LeaseEntry}
      (hl : s.leases.lookup lease = some entry) (hc : entry.conns ≠ 0) :
      Move Q s (.detach lease entry.generation) { s with
        leases := s.leases.insert lease { entry with conns := entry.conns - 1 }
        history := .detached lease entry.generation :: s.history }
  | detachIdle {s : WorkerEngine C} {lease : LeaseId} {entry : LeaseEntry}
      (hl : s.leases.lookup lease = some entry) (hc : entry.conns = 0) :
      Move Q s (.detach lease entry.generation) { s with
        counters := { s.counters with detachOnZero := s.counters.detachOnZero + 1 } }
  | retire {s : WorkerEngine C} {lease : LeaseId} {entry : LeaseEntry} (accepted : Bool)
      (hl : s.leases.lookup lease = some entry) :
      Move Q s (.retire lease entry.generation) { s with
        leases := s.leases.erase lease
        cancelledTokens := insert entry.cancellation s.cancelledTokens
        inventory := { s.inventory with
          retiring := s.inventory.retiring.insert entry.database.databaseId
            entry.database.databaseName }
        history := .requestedCleanup
            ⟨entry.database.databaseId, entry.database.databaseName⟩ accepted ::
          .cancelled entry.cancellation :: s.history }
  /-- A reservation, of the initial databases or of a request the worker accepted. -/
  | reserve {s : WorkerEngine C} {request : CreateDatabases} {events : List (Event C)}
      (hfirst : request.firstDatabaseId = s.inventory.nextDatabaseId + 1)
      (hamount : request.amount ≠ 0)
      (hmax : s.inventory.nextDatabaseId + request.amount ≤ u64Max)
      (hev : events = [] ∨ events = [.requestedCreation request true]) :
      Move Q s .reserve { s with
        inventory := { s.inventory with
          creating := s.inventory.creating ∪ request.ids
          nextDatabaseId := s.inventory.nextDatabaseId + request.amount }
        history := events ++ s.history }
  /-- A reservation whose request was refused: its identifiers are never used. -/
  | burn {s : WorkerEngine C} {request : CreateDatabases} (counters : EngineCounters)
      (hz : counters.detachOnZero = s.counters.detachOnZero)
      (hfirst : request.firstDatabaseId = s.inventory.nextDatabaseId + 1)
      (hamount : request.amount ≠ 0)
      (hmax : s.inventory.nextDatabaseId + request.amount ≤ u64Max) :
      Move Q s .reserve { s with
        inventory := { s.inventory with
          nextDatabaseId := s.inventory.nextDatabaseId + request.amount }
        counters := counters
        history := .requestedCreation request false :: s.history }
  | settle {s : WorkerEngine C} {databaseId : Nat}
      (result : Except PostgresDDLClientError ReadString)
      (hc : databaseId ∈ s.inventory.creating) :
      Move Q s (.settle databaseId) { s with
        inventory := (s.inventory.completeCreation databaseId result).2
        history := WorkerEngine.settled databaseId result :: s.history }
  | clean {s : WorkerEngine C} {databaseId : Nat} (hr : databaseId ∈ s.inventory.retiring) :
      Move Q s (.clean databaseId) { s with
        inventory := { s.inventory with retiring := s.inventory.retiring.erase databaseId }
        history := .cleaned databaseId :: s.history }
  | shutdown {s : WorkerEngine C} : Move Q s .shutdown { s with rootCancelled := true }

/-- The ledger machine, from a new engine. -/
def ledger (Q : LeaseId → C → Prop) : Machine (WorkerEngine C) Act where
  init s := ∃ config, s = .new config
  step := Move Q

end PgTest.Engine
