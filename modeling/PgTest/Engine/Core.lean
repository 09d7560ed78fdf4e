import Mathlib.Data.Finset.Card
import PgTest.Engine.Inventory
import PgTest.Lib.Machine

/-!
# The worker engine

`WorkerEngine` of `core.rs`, function by function.  A call that panics in the
source is an `Except.error`.

What the engine calls outside itself is the `Env` of the message it handles:
whether each reply is delivered, whether a submission to a worker or a timer is
accepted, and what the clock reads.  A reply handle is consumed by its one reply
and its age is read at most once while one message is handled, and each other
call is made at most once or with arguments of its own, so an `Env` that answers
by the arguments leaves every pattern of outcomes open.

`history` is not part of the source.  It records, newest first, every call to
the outside with its outcome and the accepted changes of databases and
assignments, and nothing reads it.
-/

namespace PgTest.Engine

open PgTest.Lib

/-! ### The state -/

structure WorkerEngineConfig where
  initialSlots : Nat
  starvationThreshold : Nat
  growBatchSize : Nat
  leaseClaimTimeoutMs : Nat
  maxLeaseRecords : Nat
  deriving DecidableEq, Repr

inductive LeaseStatus
  | opened
  | closed
  deriving DecidableEq, Repr

structure LeaseEntry where
  database : Database
  conns : Nat
  generation : Nat
  cancellation : Nat
  deriving DecidableEq, Repr

structure EngineCounters where
  rejectedAttachMaxLifetime : Nat := 0
  waiterTimeouts : Nat := 0
  templateCreateFailures : Nat := 0
  detachOnZero : Nat := 0
  unableToStartDatabaseSlots : Nat := 0
  deriving DecidableEq, Repr

/-- What the outside answers while one message is handled; `true` is `Ok`. -/
structure Env (C : Type) where
  reply : C → ConsumerReply → Bool
  requestCreation : CreateDatabases → Bool
  requestCleanup : CleanupDatabase → Bool
  sendDelayedMessage : EngineMessage C → Nat → Nat → Bool
  now : C → Nat

/-- One entry of the history. -/
inductive Event (C : Type)
  /-- A reply to a request of `lease`; `behind` is the database an `Attached` stands for. -/
  | reply (lease : LeaseId) (consumer : C) (message : ConsumerReply) (behind : Option Nat)
      (delivered : Bool)
  | assigned (lease : LeaseId) (generation : Nat) (database : Database)
  | scheduled (lease : LeaseId) (generation waitDuration cancellation : Nat) (accepted : Bool)
  | cancelled (cancellation : Nat)
  | returned (lease : LeaseId) (generation : Nat) (database : Database)
  | requestedCreation (request : CreateDatabases) (accepted : Bool)
  | requestedCleanup (request : CleanupDatabase) (accepted : Bool)
  | created (database : Database)
  | creationFailed (databaseId : Nat)
  | cleaned (databaseId : Nat)
  | expired (lease : LeaseId) (consumer : C)
  | detached (lease : LeaseId) (generation : Nat)
  | grew
  deriving DecidableEq

/-- `WorkerEngine`.  Of the root token it keeps how many children it has, which
of them are cancelled, and whether it is cancelled itself. -/
structure WorkerEngine (C : Type) where
  leases : Finmap (fun _ : LeaseId => LeaseEntry)
  leaseRecords : Finmap (fun _ : LeaseId => LeaseStatus)
  nextGeneration : Nat
  config : WorkerEngineConfig
  waiters : List LeaseId
  groupWaiters : Finmap (fun _ : LeaseId => List (C × Nat))
  counters : EngineCounters
  inventory : DatabaseInventory
  issuedTokens : Nat
  cancelledTokens : Finset Nat
  rootCancelled : Bool
  history : List (Event C)

namespace WorkerEngine

variable {C : Type}

/-- `WorkerEngine::new`. -/
def new (config : WorkerEngineConfig) : WorkerEngine C where
  leases := ∅
  leaseRecords := ∅
  nextGeneration := 0
  config := config
  waiters := []
  groupWaiters := ∅
  counters := {}
  inventory := .default
  issuedTokens := 0
  cancelledTokens := ∅
  rootCancelled := false
  history := []

def log (event : Event C) (s : WorkerEngine C) : WorkerEngine C :=
  { s with history := event :: s.history }

/-- `CancellationToken::is_cancelled` of a child of the root token. -/
def isCancelled (s : WorkerEngine C) (token : Nat) : Bool :=
  s.rootCancelled || decide (token ∈ s.cancelledTokens)

/-- `CancellationToken::cancel`. -/
def cancel (token : Nat) (s : WorkerEngine C) : WorkerEngine C :=
  { s with
    cancelledTokens := insert token s.cancelledTokens
    history := .cancelled token :: s.history }

/-- A reply that hands out no database, its result ignored as in `let _ = reply.reply(..)`. -/
def send (env : Env C) (lease : LeaseId) (message : ConsumerReply) (reply : C)
    (s : WorkerEngine C) : WorkerEngine C :=
  s.log (.reply lease reply message none (env.reply reply message))

/-! ### Growth -/

/-- A request is live while its age is within the claim timeout, and always when
the timeout is `0`. -/
def live (s : WorkerEngine C) (now messageTime : Nat) : Prop :=
  s.config.leaseClaimTimeoutMs = 0 ∨ elapsedMillis now messageTime ≤ s.config.leaseClaimTimeoutMs

instance (s : WorkerEngine C) (now messageTime : Nat) : Decidable (s.live now messageTime) := by
  unfold live; infer_instance

/-- The waiting leases with a live request, each request read at its own instant. -/
def waiting (s : WorkerEngine C) (now : C → Nat) : Finset LeaseId :=
  s.groupWaiters.keys.filter fun lease =>
    lease ∉ s.leases ∧
      ∃ request ∈ (s.groupWaiters.lookup lease).getD [], s.live (now request.1) request.2

/-- The loop of `grow` that undoes a reservation. -/
def cancelCreations (request : CreateDatabases) (inventory : DatabaseInventory) :
    Except Panic DatabaseInventory :=
  (List.range request.amount).foldlM
    (fun inventory index => do
      let databaseId ← request.databaseIdAt index
      return (inventory.cancelCreation databaseId).2)
    inventory

/-- `usize::div_ceil`, with the product that follows it. -/
def roundUp (deficit batchSize : Nat) : Nat := (deficit + batchSize - 1) / batchSize * batchSize

/-- `grow`. -/
def grow (env : Env C) (s : WorkerEngine C) : Except Panic (WorkerEngine C) :=
  let s := s.log .grew
  let batchSize := s.config.growBatchSize
  if batchSize = 0 then .ok s
  else
    let required := (s.waiting env.now).card + s.config.starvationThreshold + 1
    let deficit := required - s.inventory.supplyLen
    if deficit = 0 then .ok s
    else
      let count := roundUp deficit batchSize
      match s.inventory.reserveCreations count with
      | (.error panic, _) => .error panic
      | (.ok none, _) => .error .growthCountZero
      | (.ok (some request), inventory) =>
        if env.requestCreation request then
          .ok ({ s with inventory := inventory }.log (.requestedCreation request true))
        else do
          let inventory ← cancelCreations request inventory
          return { s with
            inventory := inventory
            counters := { s.counters with
              unableToStartDatabaseSlots := s.counters.unableToStartDatabaseSlots + count } }.log
            (.requestedCreation request false)

/-! ### Assignment -/

/-- `reply_attached`. -/
def replyAttached (env : Env C) (lease : LeaseId) (databaseName : ReadString) (reply : C)
    (s : WorkerEngine C) : Except Panic (WorkerEngine C) :=
  match s.leases.lookup lease with
  | none => .error .replyWithoutLease
  | some entry =>
    -- `entry.conns.checked_add(1)`
    if u16Max < entry.conns + 1 then .ok (s.send env lease .failedToAttach reply)
    else
      let entry := { entry with conns := entry.conns + 1 }
      let s := { s with leases := s.leases.insert lease entry }
      let message := .attached databaseName entry.generation entry.cancellation
      let behind := some entry.database.databaseId
      if env.reply reply message then .ok (s.log (.reply lease reply message behind true))
      else if entry.conns = 0 then .error .connectionCountUnderflow
      else
        .ok ({ s with
          leases := s.leases.insert lease { entry with conns := entry.conns - 1 } }.log
            (.reply lease reply message behind false))

/-- `restore_unclaimed_database`. -/
def restoreUnclaimedDatabase (lease : LeaseId) (s : WorkerEngine C) :
    Except Panic (Bool × WorkerEngine C) :=
  match s.leases.lookup lease with
  | none => .ok (false, s)
  | some entry =>
    if entry.conns = 0 then do
      let s := { s with leases := s.leases.erase lease }.cancel entry.cancellation
      let inventory ← s.inventory.returnReady entry.database
      return (true,
        { s with inventory := inventory }.log (.returned lease entry.generation entry.database))
    else .ok (false, s)

/-- `assign_database`.  The delay goes through `as u32`. -/
def assignDatabase (env : Env C) (lease : LeaseId) (database : Database) (s : WorkerEngine C) :
    Except Panic (ReadString × WorkerEngine C) :=
  if lease ∈ s.leases then .error .leaseAlreadyAssigned
  else if u64Max < s.nextGeneration + 1 then .error .leaseGenerationExhausted
  else
    let generation := s.nextGeneration + 1
    let cancellation := s.issuedTokens + 1
    let s := { s with
      nextGeneration := generation
      issuedTokens := cancellation
      leases := s.leases.insert lease
        { database := database, conns := 0, generation := generation,
          cancellation := cancellation } }.log (.assigned lease generation database)
    if 0 < s.config.leaseClaimTimeoutMs then
      let waitDuration := s.config.leaseClaimTimeoutMs % 2 ^ 32
      .ok (database.databaseName, s.log (.scheduled lease generation waitDuration cancellation
        (env.sendDelayedMessage (.leaseMaxTimeReached lease generation) waitDuration cancellation)))
    else .ok (database.databaseName, s)

/-! ### The queue -/

/-- The database of `lease`, assigned now if it has none: the `match` in the
inner loop of `dispatch_waiters`. -/
def claimDatabase (env : Env C) (lease : LeaseId) (s : WorkerEngine C) :
    Except Panic (ReadString × WorkerEngine C) :=
  match s.leases.lookup lease with
  | some entry => .ok (entry.database.databaseName, s)
  | none =>
    match s.inventory.takeReady with
    | (none, _) => .error .dispatchWithoutReadyDatabase
    | (some database, inventory) =>
      assignDatabase env lease database { s with inventory := inventory }

/-- One turn of the inner loop of `dispatch_waiters`. -/
def serveRequest (env : Env C) (lease : LeaseId) (s : WorkerEngine C) (request : C × Nat) :
    Except Panic (WorkerEngine C) :=
  if 0 < s.config.leaseClaimTimeoutMs ∧
      s.config.leaseClaimTimeoutMs < elapsedMillis (env.now request.1) request.2 then
    .ok ({ s with
      counters := { s.counters with waiterTimeouts := s.counters.waiterTimeouts + 1 } }.log
        (.expired lease request.1))
  else do
    let (databaseName, s) ← claimDatabase env lease s
    replyAttached env lease databaseName request.1 s

/-- One turn of the outer loop, for a group that was taken out of the queue. -/
def serveGroup (env : Env C) (lease : LeaseId) (replies : List (C × Nat)) (s : WorkerEngine C) :
    Except Panic (WorkerEngine C) :=
  if s.leaseRecords.lookup lease = some .closed then
    .ok (replies.foldl
      (fun s request => s.send env lease (.attachRejected .leaseClosed) request.1) s)
  else do
    let served ← replies.foldlM (serveRequest env lease) s
    if lease ∈ s.leases then return served
    else
      let restored ← restoreUnclaimedDatabase lease served
      return restored.2

/-- The outer loop of `dispatch_waiters`; the list is the queue that is left. -/
def dispatchLoop (env : Env C) : List LeaseId → WorkerEngine C → Except Panic (WorkerEngine C)
  | [], s => .ok s
  | lease :: rest, s =>
    if s.inventory.ready.isEmpty then .ok s
    else
      let s := { s with waiters := rest }
      match s.groupWaiters.lookup lease with
      | none => dispatchLoop env rest s
      | some replies => do
        let s ← serveGroup env lease replies
          { s with groupWaiters := s.groupWaiters.erase lease }
        dispatchLoop env rest s

/-- `dispatch_waiters`. -/
def dispatchWaiters (env : Env C) (s : WorkerEngine C) : Except Panic (WorkerEngine C) :=
  dispatchLoop env s.waiters s

/-! ### The handlers -/

/-- `retire_lease`. -/
def retireLease (env : Env C) (lease : LeaseId) (s : WorkerEngine C) :
    Except Panic (WorkerEngine C) :=
  match s.leases.lookup lease with
  | none => .ok s
  | some entry => do
    let s := { s with leases := s.leases.erase lease }.cancel entry.cancellation
    let (request, inventory) ← s.inventory.retire entry.database
    grow env ({ s with inventory := inventory }.log
      (.requestedCleanup request (env.requestCleanup request)))

/-- `admit_lease`. -/
def admitLease (lease : LeaseId) (s : WorkerEngine C) :
    Except ReleaseError LeaseStatus × WorkerEngine C :=
  match s.leaseRecords.lookup lease with
  | some status => (.ok status, s)
  | none =>
    if s.config.maxLeaseRecords ≤ s.leaseRecords.keys.card then
      (.error .leaseRecordLimitReached, s)
    else (.ok .opened, { s with leaseRecords := s.leaseRecords.insert lease .opened })

/-- `release_lease`. -/
def releaseLease (env : Env C) (lease : LeaseId) (s : WorkerEngine C) :
    Except Panic (Except ReleaseError Unit × WorkerEngine C) :=
  match s.admitLease lease with
  | (.error error, s) => .ok (.error error, s)
  | (.ok .closed, s) => .ok (.ok (), s)
  | (.ok .opened, s) => do
    let s := { s with leaseRecords := s.leaseRecords.insert lease .closed }
    let replies := (s.groupWaiters.lookup lease).getD []
    let s := replies.foldl
      (fun s request => s.send env lease (.attachRejected .leaseClosed) request.1)
      { s with groupWaiters := s.groupWaiters.erase lease }
    let s := { s with waiters := s.waiters.filter (· ≠ lease) }
    let s ← retireLease env lease s
    return (.ok (), s)

/-- The queueing branch of `attach_or_join`. -/
def enqueue (lease : LeaseId) (reply : C) (messageTime : Nat) (s : WorkerEngine C) :
    WorkerEngine C :=
  { s with
    waiters := if lease ∈ s.groupWaiters then s.waiters else s.waiters ++ [lease]
    groupWaiters := s.groupWaiters.insert lease
      ((s.groupWaiters.lookup lease).getD [] ++ [(reply, messageTime)]) }

/-- `attach_or_join` of an open lease. -/
def attachOpen (env : Env C) (lease : LeaseId) (reply : C) (messageTime : Nat)
    (s : WorkerEngine C) : Except Panic (WorkerEngine C) :=
  match s.leases.lookup lease with
  | some entry => replyAttached env lease entry.database.databaseName reply s
  | none =>
    match s.inventory.takeReady with
    | (none, _) => grow env (s.enqueue lease reply messageTime)
    | (some database, inventory) => do
      let (databaseName, s) ← assignDatabase env lease database { s with inventory := inventory }
      let s ← replyAttached env lease databaseName reply s
      let (restored, s) ← restoreUnclaimedDatabase lease s
      let s ← if restored then dispatchWaiters env s else .ok s
      grow env s

/-- `attach_or_join`. -/
def attachOrJoin (env : Env C) (lease : LeaseId) (reply : C) (messageTime : Nat)
    (s : WorkerEngine C) : Except Panic (WorkerEngine C) :=
  match s.admitLease lease with
  | (.ok .closed, s) => .ok (s.send env lease (.attachRejected .leaseClosed) reply)
  | (.error .invalidLeaseId, s) => .ok (s.send env lease (.attachRejected .invalidLeaseId) reply)
  | (.error _, s) => .ok (s.send env lease (.attachRejected .leaseRecordLimitReached) reply)
  | (.ok .opened, s) => attachOpen env lease reply messageTime s

/-- The `Detach` arm of `process_messages`. -/
def detach (lease : LeaseId) (generation : Nat) (s : WorkerEngine C) : WorkerEngine C :=
  match s.leases.lookup lease with
  | none => s
  | some entry =>
    if entry.generation = generation then
      if entry.conns = 0 then
        { s with counters := { s.counters with detachOnZero := s.counters.detachOnZero + 1 } }
      else
        { s with leases := s.leases.insert lease { entry with conns := entry.conns - 1 } }.log
          (.detached lease generation)
    else s

/-- The `LeaseMaxTimeReached` arm of `process_messages`. -/
def leaseMaxTimeReached (env : Env C) (lease : LeaseId) (generation : Nat) (s : WorkerEngine C) :
    Except Panic (WorkerEngine C) :=
  if (s.leases.lookup lease).any (fun entry => entry.generation == generation) then
    retireLease env lease { s with
      counters := { s.counters with
        rejectedAttachMaxLifetime := s.counters.rejectedAttachMaxLifetime + 1 } }
  else .ok s

/-- The history of a settled creation. -/
def settled (databaseId : Nat) : Except PostgresDDLClientError ReadString → Event C
  | .ok databaseName => .created ⟨databaseId, databaseName⟩
  | .error _ => .creationFailed databaseId

/-- `handle_database_worker_message`. -/
def handleDatabaseWorkerMessage (env : Env C) (message : DatabaseWorkerMessages)
    (s : WorkerEngine C) : Except Panic (WorkerEngine C) :=
  match message with
  | .creationFinished databaseId result =>
    match s.inventory.completeCreation databaseId result with
    | (none, _) => .ok s
    | (some outcome, inventory) => do
      let s := { s with inventory := inventory }.log (settled databaseId result)
      let s := match outcome with
        | .ok () => s
        | .error _ => { s with counters := { s.counters with
            templateCreateFailures := s.counters.templateCreateFailures + 1 } }
      let s ← dispatchWaiters env s
      grow env s
  | .cleanupFinished databaseId result =>
    match s.inventory.completeCleanup databaseId result with
    | (none, _) => .ok s
    | (some (.ok ()), inventory) =>
      .ok ({ s with inventory := inventory }.log (.cleaned databaseId))
    | (some (.error _), inventory) => .ok { s with inventory := inventory }

/-- One turn of the loop of `process_messages`. -/
def processMessage (env : Env C) (message : EngineMessage C) (s : WorkerEngine C) :
    Except Panic (WorkerEngine C) :=
  match message with
  | .attachOrJoin lease reply messageTime => attachOrJoin env lease reply messageTime s
  | .releaseLease lease reply => do
    let (result, s) ← releaseLease env lease s
    return s.send env lease (.releaseResult result) reply
  | .detach lease generation => .ok (s.detach lease generation)
  | .leaseMaxTimeReached lease generation => leaseMaxTimeReached env lease generation s
  | .databaseWorker message => handleDatabaseWorkerMessage env message s
  | .shutdown => .ok { s with rootCancelled := true }

/-- `process_messages`: the inbox in order, up to a `Shutdown`. -/
def processMessages : List (Env C × EngineMessage C) → WorkerEngine C →
    Except Panic (WorkerEngine C)
  | [], s => .ok s
  | (env, .shutdown) :: _, s => processMessage env .shutdown s
  | (env, message) :: rest, s => do
    let s ← processMessage env message s
    processMessages rest s

/-- `run`: the inbox, and then the root token. -/
def run (messages : List (Env C × EngineMessage C)) (s : WorkerEngine C) :
    Except Panic (WorkerEngine C) := do
  let s ← processMessages messages s
  return { s with rootCancelled := true }

/-! ### Initialisation -/

/-- The callback of `try_init`, with the first error so far. -/
def reportInitial (request : CreateDatabases)
    (acc : Option PostgresDDLClientError × WorkerEngine C)
    (report : Nat × Except PostgresDDLClientError ReadString) :
    Except Panic (Option PostgresDDLClientError × WorkerEngine C) := do
  let databaseId ← request.databaseIdAt report.1
  match acc.2.inventory.completeCreation databaseId report.2 with
  | (none, _) => .error .initialCreationWithoutReservation
  | (some outcome, inventory) =>
    let s := { acc.2 with inventory := inventory }.log (settled databaseId report.2)
    match outcome with
    | .ok () => return (acc.1, s)
    | .error error => return (acc.1.or (some error), s)

/-- `try_init`, where the client reports `reports` in this order. -/
def tryInit (reports : List (Nat × Except PostgresDDLClientError ReadString))
    (s : WorkerEngine C) : Except Panic (Except PostgresDDLClientError Unit × WorkerEngine C) :=
  match s.inventory.reserveCreations s.config.initialSlots with
  | (.error panic, _) => .error panic
  | (.ok none, _) => .ok (.ok (), s)
  | (.ok (some request), inventory) => do
    let (firstError, s) ← reports.foldlM (reportInitial request)
      (none, { s with inventory := inventory })
    match firstError with
    | none => return (.ok (), s)
    | some error => return (.error error, s)

end WorkerEngine

/-! ### Runs -/

variable {C : Type}

/-- The engine from a successful `try_init`, one message a step.  A step starts
only while the loop runs, that is before a `Shutdown` was handled. -/
def engine (C : Type) (config : WorkerEngineConfig) :
    Machine (WorkerEngine C) (Env C × EngineMessage C) where
  init s := ∃ reports, (WorkerEngine.new config).tryInit reports = .ok (.ok (), s)
  step s i t := s.rootCancelled = false ∧ s.processMessage i.1 i.2 = .ok t

end PgTest.Engine
