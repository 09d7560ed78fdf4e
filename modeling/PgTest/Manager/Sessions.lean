import PgTest.Engine.Refinement

/-!
# Sessions: the engine among its callers

The engine of `worker_manager`, with the `ConsumerWorker` and the `LeaseSession`
of `worker_io.rs`.  A `System` holds the engine, its inbox, the reply channels
and the sessions that callers hold.  Callers attach, release, read a reply, give
one up and drop a session at any moment, timers and workers post at any moment,
and the engine handles the inbox in order.

A reply channel is a `oneshot` channel, named by its place in `channels`.  While
the engine handles a message, a caller can only give up a channel or read it
and drop what it read; both commute with what the engine does next, so a message
is handled in one step.
-/

namespace PgTest.Manager

open PgTest.Lib PgTest.Engine

/-! ### Sessions and replies -/

/-- `LeaseSession`, less the sender of the engine's inbox. -/
structure LeaseSession where
  databaseName : ReadString
  leaseId : LeaseId
  generation : Nat
  cancellation : Nat
  detachOnDrop : Bool
  deriving DecidableEq

/-- `ConsumerWorker`, less the sender of the engine's inbox. -/
structure ConsumerWorker where
  oneshotChannel : Nat
  attachment : Option LeaseId
  deriving DecidableEq

abbrev Message := EngineMessage ConsumerWorker

/-- `LeaseSession::new`. -/
def LeaseSession.new (databaseName : ReadString) (leaseId : LeaseId) (generation : Nat)
    (cancellation : Nat) : LeaseSession :=
  { databaseName, leaseId, generation, cancellation, detachOnDrop := true }

/-- `Drop` of a `LeaseSession`: what it posts. -/
def LeaseSession.drop (session : LeaseSession) : List Message :=
  if session.detachOnDrop then [.detach session.leaseId session.generation] else []

inductive ManagerReply
  | attached (session : LeaseSession)
  | engine (message : ConsumerReply)
  deriving DecidableEq

/-- A reply that nobody reads drops the session in it. -/
def ManagerReply.drop : ManagerReply → List Message
  | .attached session => session.drop
  | .engine _ => []

/-- A reply that was not delivered: the session in it does not detach. -/
def ManagerReply.disarm : ManagerReply → ManagerReply
  | .attached session => .attached { session with detachOnDrop := false }
  | .engine message => .engine message

/-! ### Reply channels -/

/-- A `oneshot` channel: before its reply, with an unread reply, and done. -/
inductive Channel
  | waiting
  | holding (reply : ManagerReply)
  | closed
  deriving DecidableEq

/-- `oneshot::Sender::send`, which takes the sender: there is none left of a
channel that holds a reply. -/
def Channel.send (reply : ManagerReply) : Channel → Option (Except ManagerReply Channel)
  | .waiting => some (.ok (.holding reply))
  | .closed => some (.error reply)
  | .holding _ => none

/-- The sender is dropped without a reply. -/
def Channel.dropSender : Channel → Channel
  | .waiting => .closed
  | channel => channel

/-- What `ConsumerWorker` makes of a reply of the engine. -/
def ConsumerWorker.managerReply (worker : ConsumerWorker) (message : ConsumerReply) :
    ManagerReply :=
  match worker.attachment, message with
  | some lease, .attached databaseName generation cancellation =>
      .attached (.new databaseName lease generation cancellation)
  | _, _ => .engine message

/-- `ConsumerWorker::reply` on its channel: the channel after it, whether the
reply was delivered, and what was posted. -/
def ConsumerWorker.reply (message : ConsumerReply) (worker : ConsumerWorker) (channel : Channel) :
    Option (Channel × Bool × List Message) :=
  match channel.send (worker.managerReply message) with
  | none => none
  | some (.ok channel) => some (channel, true, [])
  | some (.error reply) => some (channel, false, reply.disarm.drop)

/-- How `attach` ends once its channel has a reply, and what the end posts. -/
def attachResult (isCancelled : Nat → Bool) :
    ManagerReply → Except AttachError LeaseSession × List Message
  | .attached session =>
    if isCancelled session.cancellation then (.error .leaseClosed, session.drop)
    else (.ok session, [])
  | .engine (.attachRejected error) => (.error error, [])
  | .engine _ => (.error .failed, [])

/-! ### The system -/

structure System where
  engine : WorkerEngine ConsumerWorker
  inbox : List Message
  channels : List Channel
  sessions : List LeaseSession

namespace System

/-- What one event of the engine does to the channels.  It is `none` where the
event has another outcome than its channel, and where a handle replies twice: a
handle is moved into its reply, so no run of the source does. -/
def answer (event : Event ConsumerWorker) (s : System) : Option System :=
  match event with
  | .reply _ worker message _ delivered =>
    match s.channels[worker.oneshotChannel]?.bind (worker.reply message) with
    | some (channel, outcome, posted) =>
      if outcome = delivered then
        some { s with
          channels := s.channels.set worker.oneshotChannel channel
          inbox := s.inbox ++ posted }
      else none
    | none => none
  | .expired _ worker =>
    some { s with channels := s.channels.modify worker.oneshotChannel Channel.dropSender }
  | _ => some s

/-- The events of a list, the last one first. -/
def answers : List (Event ConsumerWorker) → System → Option System
  | [], s => some s
  | event :: earlier, s => (answers earlier s).bind (answer event)

/-- What one history adds to another. -/
def news (history old : List (Event ConsumerWorker)) : List (Event ConsumerWorker) :=
  history.take (history.length - old.length)

/-- The engine takes the next message from its inbox. -/
def handle (env : Env ConsumerWorker) (s : System) : Option System :=
  match s.inbox with
  | [] => none
  | message :: rest =>
    match s.engine.processMessage env message with
    | .error _ => none
    | .ok engine =>
      answers (news engine.history s.engine.history) { s with engine := engine, inbox := rest }

def post (messages : List Message) (s : System) : System :=
  { s with inbox := s.inbox ++ messages }

end System

/-- Who does what next. -/
inductive Action
  /-- `attach` up to its wait. -/
  | attach (lease : LeaseId) (messageTime : Nat)
  /-- `release` up to its wait. -/
  | release (lease : LeaseId)
  /-- The wait of `attach` ends with a reply. -/
  | attachEnds (channel : Nat)
  /-- The receiver of a channel is dropped: a timeout, a caller that went away, a read reply. -/
  | dropReceiver (channel : Nat)
  | dropSession (index : Nat)
  | leaseTimer (lease : LeaseId) (generation : Nat)
  | databaseWorker (message : DatabaseWorkerMessages)
  | shutdown
  | handle (env : Env ConsumerWorker)

namespace System

/-- One step of the system; `none` where the action cannot happen. -/
def act (s : System) : Action → Option System
  | .attach lease messageTime =>
    some (post [.attachOrJoin lease ⟨s.channels.length, some lease⟩ messageTime]
      { s with channels := s.channels ++ [.waiting] })
  | .release lease =>
    some (post [.releaseLease lease ⟨s.channels.length, none⟩]
      { s with channels := s.channels ++ [.waiting] })
  | .attachEnds channel =>
    match s.channels[channel]? with
    | some (.holding reply) =>
      let result := attachResult s.engine.isCancelled reply
      some (post result.2 { s with
        channels := s.channels.set channel .closed
        sessions := result.1.toOption.toList ++ s.sessions })
    | _ => none
  | .dropReceiver channel =>
    match s.channels[channel]? with
    | some .waiting => some { s with channels := s.channels.set channel .closed }
    | some (.holding reply) =>
      some (post reply.drop { s with channels := s.channels.set channel .closed })
    | _ => none
  | .dropSession index =>
    match s.sessions[index]? with
    | some session => some (post session.drop { s with sessions := s.sessions.eraseIdx index })
    | none => none
  | .leaseTimer lease generation => some (s.post [.leaseMaxTimeReached lease generation])
  | .databaseWorker message => some (s.post [.databaseWorker message])
  | .shutdown => some (s.post [.shutdown])
  | .handle env => s.handle env

end System

/-- The system from a successful `try_init`, while its engine runs. -/
def system (config : WorkerEngineConfig) : Machine System Action where
  init s := (engine ConsumerWorker config).init s.engine ∧
    s.inbox = [] ∧ s.channels = [] ∧ s.sessions = []
  step s a t := s.engine.rootCancelled = false ∧ s.act a = some t

end PgTest.Manager
