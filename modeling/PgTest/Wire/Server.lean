import PgTest.Manager.Ownership
import PgTest.Wire.Connection
import PgTest.Wire.Relay

/-!
# The server

`handle_connection` of `connection.rs`, the accept loops of `wire_listener.rs` and
`serve` of the command line, around the callers' `System`: all calls of the manager are
made by the tasks of connections.

A task stops at each of its `await`s, so a `Client` keeps how far its task is, with what
the task owns there: a reply channel, or a session.  What its peers do is given with the
step: the startup message, whether a write succeeds, what the upstream sends.  Where a
`select!` is `biased` to a cancellation, the other branches wait for a token that is not
cancelled.  A task that is aborted drops what it owns.

The requests of the control panel are those of `PgTest.ControlPanel`; here a control
connection releases leases and waits for the replies.
-/

namespace PgTest.Wire

open PgTest.Lib PgTest.Engine PgTest.Manager

/-! ### One connection -/

inductive Listener
  | tcp
  | unix
  deriving DecidableEq, Repr

/-- What `handle_connection` itself sends to a client. -/
inductive Answer
  | authenticationOk
  | errorResponse (code message : String)
  deriving DecidableEq, Repr

/-- Where the task of a connection is. -/
inductive Stage
  | startup
  | control (release : Option Nat)
  | negotiating
  | authenticating
  | attaching (channel : Nat)
  | connecting (session : LeaseSession)
  | relaying (session : LeaseSession) (upstream : UpstreamSession)
  /-- It sends an `ErrorResponse`, the last thing it does. -/
  | rejecting (session : Option LeaseSession)
  | ended

structure Client where
  listener : Listener
  /-- The parameters of its startup message. -/
  params : Option Parameters := none
  stage : Stage := .startup
  sent : List Answer := []
  /-- The lease it asked for, with the channel of the reply. -/
  request : Option (LeaseId × Nat) := none

/-- The code of `handle_connection` for a failed `attach`. -/
def AttachError.code : AttachError → String
  | .invalidLeaseId => "22023"
  | .leaseRecordLimitReached => "53400"
  | .leaseClosed => "55000"
  | .templateMismatch => "3D000"
  | .engineUnavailable | .timedOut | .failed => "08006"

/-- `AttachError::to_string`. -/
def AttachError.text : AttachError → String
  | .invalidLeaseId => "invalid lease ID"
  | .leaseRecordLimitReached => "the lease record limit has been reached"
  | .leaseClosed => "the lease has been released"
  | .templateMismatch => "database does not match the configured template"
  | .engineUnavailable => "the worker engine is unavailable"
  | .timedOut => "timed out waiting for a database"
  | .failed => "the worker engine could not attach this lease"

namespace Client

def stop (client : Client) : Client := { client with stage := .ended }

/-- `reject_connection` up to its `await`, while the task owns a session or none. -/
def rejectWith (session : Option LeaseSession) (code message : String) (client : Client) :
    Client :=
  { client with
    stage := .rejecting session
    sent := client.sent ++ [.errorResponse code message] }

def reject (code message : String) (client : Client) : Client :=
  client.rejectWith none code message

def refuse (error : AttachError) (client : Client) : Client :=
  client.reject (AttachError.code error) (AttachError.text error)

/-- `handle_connection` up to its first `await` after the startup message; there is none
where the client sent none in time. -/
def route (startup : Option Parameters) (client : Client) : Client :=
  match startup with
  | none => client.stop
  | some params =>
    let client := { client with params := some params }
    if (params "replication").isSome then
      client.reject "0A000" "replication connections are not supported"
    else
      match params "database" with
      | none => client.reject "3D000" "database is required in the connection URI"
      | some database =>
        if database = "pgtest" then { client with stage := .control none }
        else { client with stage := .negotiating }

/-- The `database` of the startup message. -/
def database (client : Client) : String := ((client.params.bind (· "database")).getD "")

/-- The task did not end. -/
def running (client : Client) : Bool :=
  match client.stage with
  | .ended => false
  | _ => true

/-- The session that the task owns. -/
def sessions (client : Client) : List LeaseSession :=
  match client.stage with
  | .connecting session | .relaying session _ => [session]
  | .rejecting session => session.toList
  | _ => []

/-- The reply channel that the task owns. -/
def channels (client : Client) : List Nat :=
  match client.stage with
  | .attaching channel | .control (some channel) => [channel]
  | _ => []

end Client

/-- What a task goes on with. -/
inductive Progress
  /-- The startup message, or that there was none within a minute. -/
  | startup (params : Option Parameters)
  /-- `protocol_negotiation` ends. -/
  | negotiated (ok : Bool)
  /-- `AuthenticationOk` was sent or not; the clock reads `now`. -/
  | authenticated (ok : Bool) (now : Nat)
  /-- The wait for the reply of the engine ends. -/
  | replied
  | timedOut
  | unanswered
  /-- `connect` ends, with what `connect_stream` returned. -/
  | connected (stream : Except IoError UpstreamStream)
  /-- The token of the session was seen cancelled. -/
  | cancelled
  /-- The relay ends by itself. -/
  | closed
  /-- The `ErrorResponse` was sent, or could not be. -/
  | rejected
  /-- A control connection calls `release`, and its wait ends. -/
  | release (lease : LeaseId)
  | released
  /-- A control connection ends. -/
  | left
  /-- The task is aborted. -/
  | aborted

/-- Dropping the receiver of a channel, which may have been closed before. -/
def dropReceiver (channel : Nat) (system : System) : System :=
  (system.act (.dropReceiver channel)).getD system

def dropSession (session : LeaseSession) (system : System) : System :=
  (system.act (.dropSession (system.sessions.idxOf session))).getD system

/-- `attach` up to its wait, for the database that the client asked for. -/
def askForLease (template : String) (now : Nat) (system : System) (client : Client) :
    Option (System × Client) :=
  match parseConnectionField client.database with
  | .error _ =>
    some (system, client.reject "22023" "expected template/lease-id with a valid lease ID")
  | .ok (database, lease) =>
    if template ≠ database then some (system, client.refuse .templateMismatch)
    else
      (system.act (.attach lease now)).map fun after =>
        (after, { client with
          stage := .attaching system.channels.length
          request := some (lease, system.channels.length) })

/-- The end of `attach`: the session, or a rejection. -/
def takeReply (channel : Nat) (system : System) (client : Client) : Option (System × Client) :=
  match system.channels[channel]? with
  | some (.holding reply) =>
    (system.act (.attachEnds channel)).map fun after =>
      (after,
        match (attachResult system.engine.isCancelled reply).1 with
        | .ok session => { client with stage := .connecting session }
        | .error error => client.refuse error)
  | _ => none

/-- One step of the task of a connection; `none` where it cannot happen. -/
def Client.progress (pgwire : Pgwire) (template : String) (system : System) (client : Client) :
    Progress → Option (System × Client)
  | .startup params =>
    match client.stage with
    | .startup => some (system, client.route params)
    | _ => none
  | .negotiated ok =>
    match client.stage with
    | .negotiating =>
      some (system, if ok then { client with stage := .authenticating } else client.stop)
    | _ => none
  | .authenticated ok now =>
    match client.stage with
    | .authenticating =>
      if ok then
        askForLease template now system { client with sent := client.sent ++ [.authenticationOk] }
      else some (system, client.stop)
    | _ => none
  | .replied =>
    match client.stage with
    | .attaching channel => takeReply channel system client
    | _ => none
  | .timedOut =>
    match client.stage with
    | .attaching channel =>
      if system.engine.config.leaseClaimTimeoutMs = 0 then none
      else some (dropReceiver channel system, client.refuse .timedOut)
    | _ => none
  | .unanswered =>
    match client.stage with
    | .attaching channel =>
      if system.channels[channel]? = some .closed then
        some (system, client.refuse .engineUnavailable)
      else none
    | _ => none
  | .connected stream =>
    match client.stage with
    | .connecting session =>
      if system.engine.isCancelled session.cancellation then none
      else
        match connect pgwire session.databaseName (client.params.getD fun _ => none) stream with
        | .ok upstream => some (system, { client with stage := .relaying session upstream })
        | .error _ =>
          some (system,
            client.rejectWith (some session) "08006" "unable to connect to PostgreSQL")
    | _ => none
  | .cancelled =>
    match client.stage with
    | .connecting session =>
      if system.engine.isCancelled session.cancellation then
        some (system,
          client.rejectWith (some session) "55000" "lease was closed during connection startup")
      else none
    | .relaying session _ =>
      if system.engine.isCancelled session.cancellation then
        some (dropSession session system, client.stop)
      else none
    | _ => none
  | .closed =>
    match client.stage with
    | .relaying session _ =>
      if system.engine.isCancelled session.cancellation then none
      else some (dropSession session system, client.stop)
    | _ => none
  | .rejected =>
    match client.stage with
    | .rejecting session => some (session.toList.foldr dropSession system, client.stop)
    | _ => none
  | .release lease =>
    match client.stage with
    | .control none =>
      (system.act (.release lease)).map fun after =>
        (after, { client with stage := .control (some system.channels.length) })
    | _ => none
  | .released =>
    match client.stage with
    | .control (some channel) =>
      some (dropReceiver channel system, { client with stage := .control none })
    | _ => none
  | .left =>
    match client.stage with
    | .control none => some (system, client.stop)
    | _ => none
  | .aborted =>
    match client.stage with
    | .ended => none
    | _ =>
      some (client.sessions.foldr dropSession (client.channels.foldr dropReceiver system),
        client.stop)

/-! ### The listeners and `serve` -/

/-- The task of a listener. -/
inductive Listening
  | unbound
  | accepting
  | stopping
  | stopped
  deriving DecidableEq, Repr

/-- Where `serve` is. -/
inductive Serving
  | opening (listener : Listener)
  | serving
  | closing (listener : Listener)
  | unwrapping
  /-- `Arc::try_unwrap` was called. -/
  | done (retained : Bool)
  deriving DecidableEq, Repr

/-- Which listeners the options ask for. -/
abbrev Configured := Listener → Bool

structure Server where
  system : System
  clients : List Client
  listeners : Listener → Listening
  serving : Serving

inductive Occurrence
  | accept (listener : Listener)
  | progress (client : Nat) (progress : Progress)
  /-- What else happens to the engine: it handles a message, a timer fires, a worker reports. -/
  | engine (action : Action)
  /-- A listener is opened, where it is configured. -/
  | opens (ok : Bool)
  | signal
  | close
  | stopped (listener : Listener)
  | unwrap

/-- The phase after a listener was opened, or had not to be. -/
def Serving.afterOpen : Listener → Serving
  | .tcp => .opening .unix
  | .unix => .serving

def Serving.afterClose : Listener → Serving
  | .tcp => .closing .unix
  | .unix => .unwrapping

namespace Server

/-- The tasks with a clone of the `Arc` of the manager. -/
def holders (s : Server) : Nat :=
  [Listener.tcp, .unix].countP
      (fun listener => s.listeners listener = .accepting ∨ s.listeners listener = .stopping) +
    s.clients.countP Client.running

/-- The tasks of the listener that did not end. -/
def unended (s : Server) (listener : Listener) : Nat :=
  s.clients.countP fun client => client.running && decide (client.listener = listener)

/-- The actions of the system that no connection takes part in. -/
def outside : Action → Bool
  | .handle _ | .leaseTimer _ _ | .databaseWorker _ => true
  | _ => false

/-- One step of the server; `none` where it cannot happen.  An aborted task is one of a
listener that stops. -/
def act (pgwire : Pgwire) (template : String) (configured : Configured) (s : Server) :
    Occurrence → Option Server
  | .accept listener =>
    if s.listeners listener = .accepting then
      some { s with clients := s.clients ++ [{ listener := listener }] }
    else none
  | .progress index progress =>
    match s.clients[index]? with
    | none => none
    | some client =>
      match progress, s.listeners client.listener with
      | .aborted, .unbound | .aborted, .accepting | .aborted, .stopped => none
      | progress, _ =>
        (client.progress pgwire template s.system progress).map fun after =>
          { s with system := after.1, clients := s.clients.set index after.2 }
  | .engine action =>
    if outside action then
      (s.system.act action).map fun system => { s with system := system }
    else none
  | .opens ok =>
    match s.serving with
    | .opening listener =>
      if configured listener then
        if ok then
          some { s with
            listeners := Function.update s.listeners listener .accepting
            serving := .afterOpen listener }
        else some { s with serving := .closing .tcp }
      else some { s with serving := .afterOpen listener }
    | _ => none
  | .signal =>
    match s.serving with
    | .serving => some { s with serving := .closing .tcp }
    | _ => none
  | .close =>
    match s.serving with
    | .closing listener =>
      match s.listeners listener with
      | .unbound | .stopped => some { s with serving := .afterClose listener }
      | .accepting => some { s with
          listeners := Function.update s.listeners listener .stopping }
      | .stopping => none
    | _ => none
  | .stopped listener =>
    if s.listeners listener = .stopping ∧ s.unended listener = 0 then
      some { s with listeners := Function.update s.listeners listener .stopped }
    else none
  | .unwrap =>
    match s.serving with
    | .unwrapping => some { s with serving := .done (decide (s.holders ≠ 0)) }
    | _ => none

end Server

/-- The server from a successful `WorkerEngineManager::start`, while its engine runs. -/
def server (pgwire : Pgwire) (template : String) (configured : Configured)
    (config : WorkerEngineConfig) : Machine Server Occurrence where
  init s := (system config).init s.system ∧ s.clients = [] ∧
    (∀ listener, s.listeners listener = .unbound) ∧ s.serving = .opening .tcp
  step s occurrence t := s.system.engine.rootCancelled = false ∧
    s.act pgwire template configured occurrence = some t

namespace Sample

def configured : Configured := fun _ => true

/-- The startup message of a client of the first lease. -/
def startup : Parameters := fun name => if name = "database" then some "t/a" else none

/-- The server after `serve` began, and `occurrences`. -/
def served (occurrences : List Occurrence) : Option Server :=
  match (WorkerEngine.new Engine.Sample.settings).tryInit Engine.Sample.reports with
  | .ok (.ok (), e) =>
    occurrences.foldlM (fun s occurrence =>
      if s.system.engine.rootCancelled = false then s.act decoder "t" configured occurrence
      else none) ⟨⟨e, [], [], []⟩, [], fun _ => .unbound, .opening .tcp⟩
  | _ => none

/-- Both listeners are open; a client connects and asks for its database. -/
def asked : List Occurrence :=
  [.opens true, .opens true, .accept .tcp, .progress 0 (.startup (some startup)),
    .progress 0 (.negotiated true), .progress 0 (.authenticated true 0)]

/-- The client has its database. -/
def connected : List Occurrence :=
  asked ++ [.engine (.handle (Manager.Sample.env true)), .progress 0 .replied,
    .progress 0 (.connected (.ok upstream))]

theorem reachable_served {occurrences : List Occurrence} {s : Server}
    (h : served occurrences = some s) :
    (server decoder "t" configured Engine.Sample.settings).Reachable s := by
  rw [served] at h
  split at h
  case h_1 e he =>
    refine .run (.of_init ⟨⟨⟨_, he⟩, rfl, rfl, rfl⟩, rfl, fun _ => rfl, rfl⟩)
      (.of_foldlM (fun s occurrence t hstep => ?_) h)
    split at hstep
    case isTrue hrun => exact ⟨hrun, hstep⟩
    case isFalse => cases hstep
  case h_2 => cases h

end Sample

end PgTest.Wire
