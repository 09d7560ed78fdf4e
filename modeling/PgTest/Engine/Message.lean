import Mathlib.Data.Finmap

/-!
# What the engine is told and what it answers

The data of `worker_engine`: lease identifiers, databases and the jobs on them,
the messages of the inbox and the replies to a consumer.  Consumers stay
generic, as `ConsumerIO` is a trait of the source: a `C` is one reply handle,
which is consumed by its one reply.

Numbers stand for the newtypes and handles of the source that are compared and
counted only: a `DatabaseId`, a generation, a `CancellationToken` (the number of
a child of the engine's root token), and an `Instant`, in nanoseconds, so that
`elapsedMillis` truncates as `as_millis` does.
-/

namespace PgTest.Engine

def u16Max : Nat := 2 ^ 16 - 1
def u64Max : Nat := 2 ^ 64 - 1

/-- `ReadString`: shared immutable text. -/
abbrev ReadString := String

/-- `Instant::elapsed().as_millis()`, which is `0` before `since`. -/
def elapsedMillis (now since : Nat) : Nat := (now - since) / 1000000

/-! ### Lease identifiers -/

structure InvalidLeaseId where
  deriving DecidableEq, Repr

/-- 1 to 256 bytes of UTF-8, without `/` and NUL. -/
def LeaseId.Valid (value : String) : Prop :=
  value.utf8ByteSize ≠ 0 ∧ value.utf8ByteSize ≤ 256 ∧
    ∀ c ∈ value.toList, c ≠ '/' ∧ c ≠ '\x00'

instance (value : String) : Decidable (LeaseId.Valid value) :=
  letI : Decidable (∀ c ∈ value.toList, c ≠ '/' ∧ c ≠ '\x00') := List.decidableBAll _ _
  inferInstanceAs (Decidable (_ ∧ _ ∧ _))

/-- A validated lease identifier, preserving its original text. -/
structure LeaseId where
  value : ReadString
  valid : LeaseId.Valid value
  deriving DecidableEq

/-- `LeaseId::new`. -/
def LeaseId.new (value : ReadString) : Except InvalidLeaseId LeaseId :=
  if h : LeaseId.Valid value then .ok ⟨value, h⟩ else .error ⟨⟩

/-! ### Databases and the jobs on them -/

structure Database where
  databaseId : Nat
  databaseName : ReadString
  deriving DecidableEq, Repr

inductive PostgresDDLClientError
  | operationFailed (message : String)
  deriving DecidableEq, Repr

structure CreateDatabases where
  firstDatabaseId : Nat
  amount : Nat
  deriving DecidableEq, Repr

structure CleanupDatabase where
  databaseId : Nat
  databaseName : ReadString
  deriving DecidableEq, Repr

inductive DatabaseWorkerMessages
  | creationFinished (databaseId : Nat) (result : Except PostgresDDLClientError ReadString)
  | cleanupFinished (databaseId : Nat) (result : Except PostgresDDLClientError Unit)

/-! ### Messages and replies -/

inductive ReleaseError
  | invalidLeaseId
  | leaseRecordLimitReached
  | engineUnavailable
  | replyTimedOut
  | unexpectedReply
  deriving DecidableEq, Repr

inductive AttachError
  | invalidLeaseId
  | leaseRecordLimitReached
  | leaseClosed
  | templateMismatch
  | engineUnavailable
  | timedOut
  | failed
  deriving DecidableEq, Repr

inductive EngineMessage (C : Type)
  | attachOrJoin (lease : LeaseId) (reply : C) (messageTime : Nat)
  | releaseLease (lease : LeaseId) (reply : C)
  | detach (lease : LeaseId) (generation : Nat)
  | leaseMaxTimeReached (lease : LeaseId) (generation : Nat)
  | databaseWorker (message : DatabaseWorkerMessages)
  | shutdown

inductive ConsumerReply
  | attached (databaseName : ReadString) (generation : Nat) (cancellation : Nat)
  | failedToAttach
  | attachRejected (error : AttachError)
  | releaseResult (result : Except ReleaseError Unit)
  deriving DecidableEq

/-! ### Failed assertions -/

/-- Where an `expect`, an `unwrap`, an `assert`, a `debug_assert` or a checked
subtraction of the engine fails. -/
inductive Panic
  | databaseIdentityExhausted
  | creationIndexOutsideBatch
  | initialCreationWithoutReservation
  | databaseAlreadyInventoried
  | dispatchWithoutReadyDatabase
  | replyWithoutLease
  | leaseAlreadyAssigned
  | leaseGenerationExhausted
  | growthCountZero
  | connectionCountUnderflow
  deriving DecidableEq, Repr

end PgTest.Engine
