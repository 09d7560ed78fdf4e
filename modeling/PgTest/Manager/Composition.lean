import PgTest.Engine.Waiting
import PgTest.Manager.Connections
import PgTest.Manager.Timers
import PgTest.Manager.Workers

/-!
# The whole manager

What `start_workers` puts together: the engine and its inbox, the callers with their
reply channels and sessions, both database workers with their tasks, the timers, a
clock, and `shutdown`.  A step is what one task does between two awaits, so every
order in which the tasks may be scheduled is a run.

Seen by its callers, its timers, its workers and its clock, the manager is the
`system`, the `timers`, the `workers` and the `clocked` engine (`manager_components`):
what holds of each of them holds of the one manager in which they share the engine and
its inbox.
-/

namespace PgTest.Manager

open PgTest.Lib PgTest.Engine PgTest.Engine.WorkerEngine

/-! ### The manager -/

/-- How far `shutdown` has come. -/
inductive Phase
  | serving
  /-- The token is cancelled, and `shutdown` waits for the tracker. -/
  | waiting
  /-- `Shutdown` was sent, and `shutdown` waits for the engine. -/
  | closing
  deriving DecidableEq

/-- `WorkerEngineManager`, with all that runs for it.  Until `busy` the engine handles
its last message. -/
structure WorkerEngineManager extends System where
  creationInbox : List CreateDatabases
  creationWorker : Bool
  batches : List Batch
  cleanupInbox : List CleanupDatabase
  cleanupWorker : Bool
  drops : List CleanupDatabase
  spawned : List Timer
  sleeping : List (Timer × Nat)
  now : Nat
  busy : Nat
  phase : Phase
  failed : List Nat
  delivered : List (LeaseId × Nat × Nat)

/-- Who does what next. -/
inductive Activity
  /-- A caller of the manager, or the holder of a session. -/
  | call (action : Action)
  /-- A worker, or one of its tasks. -/
  | work (job : Job ConsumerWorker)
  /-- The clock, or a timer. -/
  | time (turn : Turn ConsumerWorker)
  /-- The engine takes the next message from its inbox. -/
  | handle (env : Env ConsumerWorker) (elapsed : Nat)
  /-- `shutdown` up to its wait for the tracker. -/
  | shutdown
  /-- `DatabaseCreationWorker::run` breaks out of its loop. -/
  | endCreationWorker
  | endCleanupWorker
  /-- The task of a batch sees the shutdown. -/
  | endBatch (batch : Nat)
  | endDrop (drop : Nat)
  /-- `tracker.wait()` returns. -/
  | waited

namespace WorkerEngineManager

/-- What `start_workers` builds around an engine. -/
def started (engine : WorkerEngine ConsumerWorker) (now : Nat) : WorkerEngineManager where
  engine := engine
  inbox := []
  channels := []
  sessions := []
  creationInbox := []
  creationWorker := true
  batches := []
  cleanupInbox := []
  cleanupWorker := true
  drops := []
  spawned := []
  sleeping := []
  now := now
  busy := now
  phase := .serving
  failed := []
  delivered := []

/-- What the workers see of the manager. -/
def workers (s : WorkerEngineManager) : Workers ConsumerWorker where
  engine := s.engine
  inbox := s.inbox
  creationInbox := s.creationInbox
  batches := s.batches
  cleanupInbox := s.cleanupInbox
  drops := s.drops
  failed := s.failed

/-- The manager after a worker did something. -/
def withWorkers (s : WorkerEngineManager) (workers : Workers ConsumerWorker) :
    WorkerEngineManager :=
  { s with
    inbox := workers.inbox
    creationInbox := workers.creationInbox
    batches := workers.batches
    cleanupInbox := workers.cleanupInbox
    drops := workers.drops }

/-- What the timers see of the manager. -/
def timers (s : WorkerEngineManager) : Timers ConsumerWorker where
  engine := s.engine
  now := s.now
  inbox := s.inbox
  spawned := s.spawned
  sleeping := s.sleeping
  stopped := decide (s.phase ≠ .serving)
  delivered := s.delivered

/-- The manager after the clock or a timer did something. -/
def withTimers (s : WorkerEngineManager) (timers : Timers ConsumerWorker) : WorkerEngineManager :=
  { s with
    now := timers.now
    inbox := timers.inbox
    spawned := timers.spawned
    sleeping := timers.sleeping
    delivered := timers.delivered }

/-- A call borrows the manager, which `shutdown` takes; a session does not. -/
def calls (s : WorkerEngineManager) : Action → Bool
  | .attach _ messageTime => decide (s.phase = .serving ∧ messageTime ≤ s.now)
  | .release _ => decide (s.phase = .serving)
  | .attachEnds _ | .dropReceiver _ | .dropSession _ => true
  | .leaseTimer _ _ | .databaseWorker _ | .shutdown | .handle _ => false

/-- The workers and their tasks look at the shutdown token first. -/
def works (s : WorkerEngineManager) : Job ConsumerWorker → Bool
  | .startBatch | .report _ _ _ | .startDrop | .finishDrop _ _ => decide (s.phase = .serving)
  | .post _ | .handle _ => false

def times : Turn ConsumerWorker → Bool
  | .tick _ | .start _ | .fire _ | .abandon _ => true
  | .post _ | .handle _ | .stop => false

/-- What `WorkerEngineIO` answers: a worker takes requests while it runs, and a timer
is always spawned. -/
def outside (s : WorkerEngineManager) (env : Env ConsumerWorker) : Env ConsumerWorker :=
  { env with
    requestCreation := fun _ => s.creationWorker
    requestCleanup := fun _ => s.cleanupWorker
    sendDelayedMessage := fun _ _ _ => true }

/-- What the channel of a worker holds after a send; a closed one takes nothing. -/
def sendAll {α : Type} (runs : Bool) (queue requests : List α) : List α :=
  if runs then queue ++ requests else queue

/-- The engine handles a message, and its `WorkerEngineIO` passes on what it asks for. -/
def handle (env : Env ConsumerWorker) (elapsed : Nat) (s : WorkerEngineManager) :
    Option WorkerEngineManager :=
  match s.inbox, s.toSystem.handle (s.outside env) with
  | message :: _, some callers =>
    let events := (news callers.engine.history s.engine.history).reverse
    some { s with
      toSystem := callers
      creationInbox := sendAll s.creationWorker s.creationInbox
        (events.filterMap Event.asksCreation)
      cleanupInbox := sendAll s.cleanupWorker s.cleanupInbox
        (events.filterMap Event.asksCleanup)
      spawned := s.spawned ++ events.filterMap Event.timer
      busy := s.now + elapsed
      failed := failedDrop message ++ s.failed }
  | _, _ => none

/-- No task of the tracker is left.  The task of a batch ends with its last report. -/
def idle (s : WorkerEngineManager) : Bool :=
  !s.creationWorker && !s.cleanupWorker && s.batches.all (·.unreported.isEmpty) &&
    s.drops.isEmpty && s.spawned.isEmpty && s.sleeping.isEmpty

/-- One step of the manager; `none` where the activity cannot happen. -/
def act (s : WorkerEngineManager) : Activity → Option WorkerEngineManager
  | .call action =>
    if s.calls action then
      (s.toSystem.act action).map fun callers => { s with toSystem := callers }
    else none
  | .work job => if s.works job then (s.workers.act job).map s.withWorkers else none
  | .time turn => if times turn then (s.timers.act turn).map s.withTimers else none
  | .handle env elapsed => s.handle env elapsed
  | .shutdown =>
    if s.phase = .serving ∧ ∀ channel ∈ s.channels, channel = .closed then
      some { s with phase := .waiting }
    else none
  | .endCreationWorker =>
    if s.phase ≠ .serving then some { s with creationWorker := false, creationInbox := [] }
    else none
  | .endCleanupWorker =>
    if s.phase ≠ .serving then some { s with cleanupWorker := false, cleanupInbox := [] }
    else none
  | .endBatch batch =>
    if s.phase ≠ .serving ∧ batch < s.batches.length then
      some { s with batches := s.batches.eraseIdx batch }
    else none
  | .endDrop drop =>
    if s.phase ≠ .serving ∧ drop < s.drops.length then
      some { s with drops := s.drops.eraseIdx drop }
    else none
  | .waited =>
    if s.phase = .waiting ∧ s.idle then
      some { s with inbox := s.inbox ++ [.shutdown], phase := .closing }
    else none

/-- The engine reads the clock while it handles a message, and handles one at a time. -/
def OnTime (s : WorkerEngineManager) : Activity → Prop
  | .handle env elapsed => s.busy ≤ s.now ∧
      ∀ consumer, s.now ≤ env.now consumer ∧ env.now consumer ≤ s.now + elapsed
  | _ => True

end WorkerEngineManager

/-- The manager after a successful `start_workers` for which the client reported one
result for each index, while its engine runs. -/
def manager (config : WorkerEngineConfig) : Machine WorkerEngineManager Activity where
  init s := ∃ reports engine now, (reports.map Prod.fst).Perm (List.range config.initialSlots) ∧
    (WorkerEngine.new config).tryInit reports = .ok (.ok (), engine) ∧ s = .started engine now
  step s activity t :=
    s.engine.rootCancelled = false ∧ s.OnTime activity ∧ s.act activity = some t

/-! ### What a step does -/

namespace WorkerEngineManager

variable {config : WorkerEngineConfig} {s t : WorkerEngineManager}

/-- The engine handled a message. -/
structure Handled (s : WorkerEngineManager) (env : Env ConsumerWorker) (elapsed : Nat)
    (t : WorkerEngineManager) (message : Message) (rest : List Message) (callers : System) :
    Prop where
  inbox : s.inbox = message :: rest
  handle : s.toSystem.handle (s.outside env) = some callers
  after : t = { s with
    toSystem := callers
    creationInbox := sendAll s.creationWorker s.creationInbox
      ((news callers.engine.history s.engine.history).reverse.filterMap Event.asksCreation)
    cleanupInbox := sendAll s.cleanupWorker s.cleanupInbox
      ((news callers.engine.history s.engine.history).reverse.filterMap Event.asksCleanup)
    spawned := s.spawned ++
      (news callers.engine.history s.engine.history).reverse.filterMap Event.timer
    busy := s.now + elapsed
    failed := failedDrop message ++ s.failed }

theorem handled {env : Env ConsumerWorker} {elapsed : Nat} (h : s.handle env elapsed = some t) :
    ∃ message rest callers, s.Handled env elapsed t message rest callers := by
  rw [handle] at h
  split at h
  case h_1 message rest callers hi hc =>
    cases h
    exact ⟨message, rest, callers, hi, hc, rfl⟩
  case h_2 => cases h

/-- **What a step does.** -/
inductive Did (s : WorkerEngineManager) : Activity → WorkerEngineManager → Prop
  | call {action : Action} {callers : System} : s.calls action = true →
      s.toSystem.act action = some callers → Did s (.call action) { s with toSystem := callers }
  | work {job : Job ConsumerWorker} {workers : Workers ConsumerWorker} : s.works job = true →
      s.workers.act job = some workers → Did s (.work job) (s.withWorkers workers)
  | time {turn : Turn ConsumerWorker} {timers : Timers ConsumerWorker} : times turn = true →
      s.timers.act turn = some timers → Did s (.time turn) (s.withTimers timers)
  | handle {env : Env ConsumerWorker} {elapsed : Nat} {t : WorkerEngineManager}
      {message : Message} {rest : List Message} {callers : System} :
      s.Handled env elapsed t message rest callers → Did s (.handle env elapsed) t
  | shutdown : s.phase = .serving → (∀ channel ∈ s.channels, channel = .closed) →
      Did s .shutdown { s with phase := .waiting }
  | endCreationWorker : s.phase ≠ .serving →
      Did s .endCreationWorker { s with creationWorker := false, creationInbox := [] }
  | endCleanupWorker : s.phase ≠ .serving →
      Did s .endCleanupWorker { s with cleanupWorker := false, cleanupInbox := [] }
  | endBatch {batch : Nat} : s.phase ≠ .serving → batch < s.batches.length →
      Did s (.endBatch batch) { s with batches := s.batches.eraseIdx batch }
  | endDrop {drop : Nat} : s.phase ≠ .serving → drop < s.drops.length →
      Did s (.endDrop drop) { s with drops := s.drops.eraseIdx drop }
  | waited : s.phase = .waiting → s.idle = true →
      Did s .waited { s with inbox := s.inbox ++ [.shutdown], phase := .closing }

theorem did {activity : Activity} (h : s.act activity = some t) : s.Did activity t := by
  cases activity with
  | call action =>
    rw [act] at h
    split at h
    case isTrue hc =>
      obtain ⟨callers, h1, rfl⟩ := Option.map_eq_some_iff.mp h
      exact .call hc h1
    case isFalse => cases h
  | work job =>
    rw [act] at h
    split at h
    case isTrue hw =>
      obtain ⟨workers, h1, rfl⟩ := Option.map_eq_some_iff.mp h
      exact .work hw h1
    case isFalse => cases h
  | time turn =>
    rw [act] at h
    split at h
    case isTrue ht =>
      obtain ⟨timers, h1, rfl⟩ := Option.map_eq_some_iff.mp h
      exact .time ht h1
    case isFalse => cases h
  | handle env elapsed =>
    obtain ⟨message, rest, callers, hh⟩ := handled h
    exact .handle hh
  | shutdown =>
    rw [act] at h
    split at h <;> cases h
    rename_i hp
    exact .shutdown hp.1 hp.2
  | endCreationWorker =>
    rw [act] at h
    split at h <;> cases h
    rename_i hp
    exact .endCreationWorker hp
  | endCleanupWorker =>
    rw [act] at h
    split at h <;> cases h
    rename_i hp
    exact .endCleanupWorker hp
  | endBatch batch =>
    rw [act] at h
    split at h <;> cases h
    rename_i hp
    exact .endBatch hp.1 hp.2
  | endDrop drop =>
    rw [act] at h
    split at h <;> cases h
    rename_i hp
    exact .endDrop hp.1 hp.2
  | waited =>
    rw [act] at h
    split at h <;> cases h
    rename_i hp
    exact .waited hp.1 hp.2

/-! ### What is posted -/

/-- The rest of the state is as it was, and `messages` are new in the inbox. -/
theorem call_posts {action : Action} {callers : System} (hc : s.calls action = true)
    (h : s.toSystem.act action = some callers) :
    callers.engine = s.engine ∧ ∃ messages, callers.inbox = s.inbox ++ messages ∧
      ∀ message ∈ messages, External message = true ∧ NotTimed message = true := by
  have hdrop : ∀ session : LeaseSession, ∀ message ∈ session.drop,
      External message = true ∧ NotTimed message = true := by
    intro session message hm
    rw [LeaseSession.drop] at hm
    split at hm
    · rw [List.mem_singleton.mp hm]
      exact ⟨rfl, rfl⟩
    · exact absurd hm List.not_mem_nil
  have hreply : ∀ reply : ManagerReply, ∀ message ∈ reply.drop,
      External message = true ∧ NotTimed message = true := by
    intro reply
    cases reply with
    | attached session => exact hdrop session
    | engine message => exact fun _ hm => absurd hm List.not_mem_nil
  cases action with
  | attach lease messageTime =>
    cases h
    refine ⟨rfl, _, rfl, fun message hm => ?_⟩
    rw [List.mem_singleton.mp hm]
    exact ⟨rfl, rfl⟩
  | release lease =>
    cases h
    refine ⟨rfl, _, rfl, fun message hm => ?_⟩
    rw [List.mem_singleton.mp hm]
    exact ⟨rfl, rfl⟩
  | attachEnds channel =>
    rw [System.act] at h
    split at h <;> cases h
    rename_i reply _
    refine ⟨rfl, _, rfl, ?_⟩
    cases reply with
    | engine message =>
      cases message with
      | attached _ _ _ | failedToAttach | attachRejected _ | releaseResult _ =>
        exact fun _ hm => absurd hm List.not_mem_nil
    | attached session =>
      rw [attachResult]
      split
      · exact hdrop session
      · exact fun _ hm => absurd hm List.not_mem_nil
  | dropReceiver channel =>
    rw [System.act] at h
    split at h <;> cases h
    · exact ⟨rfl, [], (List.append_nil _).symm, fun _ hm => absurd hm List.not_mem_nil⟩
    · exact ⟨rfl, _, rfl, hreply _⟩
  | dropSession index =>
    rw [System.act] at h
    split at h <;> cases h
    exact ⟨rfl, _, rfl, hdrop _⟩
  | leaseTimer _ _ | databaseWorker _ | shutdown | handle _ => cases hc

theorem work_posts {job : Job ConsumerWorker} {workers : Workers ConsumerWorker}
    (hw : s.works job = true) (h : s.workers.act job = some workers) :
    workers.engine = s.engine ∧ workers.failed = s.failed ∧ (workers.inbox = s.inbox ∨
      ∃ message, workers.inbox = s.inbox ++ [.databaseWorker message]) := by
  cases job with
  | post _ | handle _ => cases hw
  | startBatch =>
    rw [Workers.act, Workers.startBatch] at h
    split at h
    · cases h
    · split at h <;> cases h <;> exact ⟨rfl, rfl, Or.inl rfl⟩
  | report batch index result =>
    rw [Workers.act, Workers.report] at h
    split at h
    · cases h
    split at h
    · split at h <;> cases h
      exact ⟨rfl, rfl, Or.inr ⟨_, rfl⟩⟩
    · cases h
  | startDrop =>
    rw [Workers.act, Workers.startDrop] at h
    split at h <;> cases h
    exact ⟨rfl, rfl, Or.inl rfl⟩
  | finishDrop drop result =>
    rw [Workers.act, Workers.finishDrop] at h
    split at h <;> cases h
    exact ⟨rfl, rfl, Or.inr ⟨_, rfl⟩⟩

theorem time_posts {turn : Turn ConsumerWorker} {timers : Timers ConsumerWorker}
    (ht : times turn = true) (h : s.timers.act turn = some timers) :
    timers.engine = s.engine ∧ timers.stopped = s.timers.stopped ∧ s.now ≤ timers.now ∧
      (timers.inbox = s.inbox ∨ ∃ lease generation,
        timers.inbox = s.inbox ++ [.leaseMaxTimeReached lease generation]) := by
  cases turn with
  | post _ | handle _ | stop => cases ht
  | tick elapsed =>
    cases h
    exact ⟨rfl, rfl, Nat.le_add_right _ _, Or.inl rfl⟩
  | start task =>
    rw [Timers.act, Timers.start] at h
    split at h <;> cases h
    exact ⟨rfl, rfl, le_refl _, Or.inl rfl⟩
  | fire task =>
    rw [Timers.act, Timers.fire] at h
    split at h
    · cases h
    split at h <;> cases h
    exact ⟨rfl, rfl, le_refl _, Or.inr ⟨_, _, rfl⟩⟩
  | abandon task =>
    rw [Timers.act, Timers.abandon] at h
    split at h
    · cases h
    split at h <;> cases h
    exact ⟨rfl, rfl, le_refl _, Or.inl rfl⟩

/-! ### What the callers see -/

theorem system_ext {u v : System} (he : u.engine = v.engine) (hi : u.inbox = v.inbox)
    (hc : u.channels = v.channels) (hs : u.sessions = v.sessions) : u = v := by
  cases u
  cases v
  cases he
  cases hi
  cases hc
  cases hs
  rfl

/-- **The callers see an action, or nothing.** -/
theorem Did.callers {activity : Activity} (h : s.Did activity t) :
    t.toSystem = s.toSystem ∨ ∃ action, s.toSystem.act action = some t.toSystem := by
  cases h with
  | call _ h => exact Or.inr ⟨_, h⟩
  | handle h =>
    rw [h.after]
    exact Or.inr ⟨.handle (s.outside _), h.handle⟩
  | work hw h =>
    obtain ⟨_, _, hi | ⟨message, hi⟩⟩ := work_posts hw h
    · exact Or.inl (system_ext rfl hi rfl rfl)
    · exact Or.inr ⟨.databaseWorker message, congrArg some (system_ext rfl hi.symm rfl rfl)⟩
  | time ht h =>
    obtain ⟨_, _, _, hi | ⟨lease, generation, hi⟩⟩ := time_posts ht h
    · exact Or.inl (system_ext rfl hi rfl rfl)
    · exact Or.inr ⟨.leaseTimer lease generation, congrArg some (system_ext rfl hi.symm rfl rfl)⟩
  | shutdown _ _ | endCreationWorker _ | endCleanupWorker _ | endBatch _ _ | endDrop _ _ =>
    exact Or.inl rfl
  | waited _ _ => exact Or.inr ⟨.shutdown, rfl⟩

end WorkerEngineManager

open WorkerEngineManager

variable {config : WorkerEngineConfig} {s t : WorkerEngineManager}

/-- **Seen by its callers the manager is the system.** -/
theorem manager_callers (config : WorkerEngineConfig) :
    (manager config).Refines (system config) WorkerEngineManager.toSystem (fun _ => True) where
  init := by
    rintro s ⟨reports, engine, now, _, hok, rfl⟩
    exact ⟨.of_init ⟨⟨reports, hok⟩, rfl, rfl, rfl⟩, trivial⟩
  step := by
    rintro s activity t _ _ ⟨hrun, _, hact⟩
    refine ⟨?_, trivial⟩
    rcases (did hact).callers with he | ⟨action, ha⟩
    · exact ⟨[], he ▸ .nil _⟩
    · exact ⟨[action], .single ⟨hrun, ha⟩⟩

theorem manager_system (h : (manager config).Reachable s) : (system config).Reachable s.toSystem :=
  ((manager_callers config).reachable h).1

namespace WorkerEngineManager

/-- **What the engine makes of its message**: it takes no other one from the inbox, and
posts none. -/
theorem Handled.spec {env : Env ConsumerWorker} {elapsed : Nat} {message : Message}
    {rest : List Message} {callers : System} (hr : (system config).Reachable s.toSystem)
    (h : s.Handled env elapsed t message rest callers) :
    s.engine.processMessage (s.outside env) message = .ok callers.engine ∧
      callers.inbox = rest := by
  obtain ⟨first, others, engine, hi, hok, hanswers⟩ := System.handle_cases h.handle
  rw [h.inbox] at hi
  cases hi
  have hb := system_balanced hr
  have hh := processMessage_handles hb.inv hb.noIdle
    (hb.known message (h.inbox ▸ List.mem_cons_self)) hok
  obtain ⟨new, hnew, hknown⟩ := hh.path.known hb.inv
  rw [hnew, System.news_append] at hanswers
  have hgives := System.answers_gives hknown hanswers
  have hengine : callers.engine = engine := hgives.engine
  rw [hengine]
  exact ⟨hok, hgives.inbox⟩

/-! ### What the timers see -/

/-- What others post is a run of the timers. -/
theorem post_timers {messages : List Message} (u : Timers ConsumerWorker)
    (hm : ∀ message ∈ messages, NotTimed message = true) :
    (Manager.timers ConsumerWorker config).Run u (messages.map .post)
      { u with inbox := u.inbox ++ messages } := by
  have hrun : (Manager.timers ConsumerWorker config).Run { u with inbox := u.inbox ++ [] }
      (messages.map .post) { u with inbox := u.inbox ++ messages } := by
    refine .of_concat (g := fun l => { u with inbox := u.inbox ++ l }) fun l message hmem => ?_
    show Timers.act _ (.post message) = _
    rw [Timers.act, if_pos (hm message hmem), List.append_assoc]
  rwa [List.append_nil] at hrun

/-- **The timers see a run.** -/
theorem Did.timers {activity : Activity} (hr : (system config).Reachable s.toSystem)
    (hrun : s.engine.rootCancelled = false) (h : s.Did activity t) :
    ∃ turns, (Manager.timers ConsumerWorker config).Run s.timers turns t.timers := by
  cases h with
  | @call action callers hc h =>
    obtain ⟨he, messages, hi, hm⟩ := call_posts hc h
    refine ⟨messages.map .post, ?_⟩
    rw [show WorkerEngineManager.timers { s with toSystem := callers } =
      { s.timers with inbox := s.timers.inbox ++ messages } by
        simp only [WorkerEngineManager.timers, he, hi]]
    exact post_timers s.timers fun message hmem => (hm message hmem).2
  | @work job workers hw h =>
    obtain ⟨_, _, hi | ⟨message, hi⟩⟩ := work_posts hw h
    · refine ⟨[], ?_⟩
      rw [show (s.withWorkers workers).timers = s.timers by
        simp only [WorkerEngineManager.timers, withWorkers, hi]]
      exact .nil _
    · refine ⟨[.post (.databaseWorker message)], .single ?_⟩
      show Timers.act s.timers (.post (.databaseWorker message)) = _
      rw [show (s.withWorkers workers).timers =
        { s.timers with inbox := s.timers.inbox ++ [.databaseWorker message] } by
          simp only [WorkerEngineManager.timers, withWorkers, hi]]
      rfl
  | @time turn timers ht h =>
    obtain ⟨he, hs, _, _⟩ := time_posts ht h
    refine ⟨[turn], .single ?_⟩
    rw [show (s.withTimers timers).timers = timers by
      simp only [WorkerEngineManager.timers, withTimers, ← he]
      rw [show decide (s.phase ≠ .serving) = timers.stopped from hs.symm]]
    exact h
  | @handle env elapsed _ message rest callers h =>
    obtain ⟨hok, hrest⟩ := h.spec hr
    refine ⟨[.handle (s.outside env)], .single ?_⟩
    show Timers.handle (s.outside env) s.timers = _
    have hok : s.engine.processMessage (scheduling (s.outside env)) message =
      .ok callers.engine := hok
    rw [Timers.handle, show s.timers.inbox = message :: rest from h.inbox, h.after]
    simp only [WorkerEngineManager.timers, hrun, hok, hrest]
    rfl
  | shutdown hp _ => exact ⟨[.stop], .single rfl⟩
  | endCreationWorker _ | endCleanupWorker _ | endBatch _ _ | endDrop _ _ => exact ⟨[], .nil _⟩
  | waited hp _ =>
    refine ⟨[.post .shutdown], .single ?_⟩
    show some _ = some _
    simp only [WorkerEngineManager.timers, hp]
    rfl

/-! ### What the workers see -/

/-- Until the shutdown both workers run. -/
theorem Did.working {activity : Activity} (h : s.Did activity t)
    (hw : s.phase = .serving → s.creationWorker = true ∧ s.cleanupWorker = true) :
    t.phase = .serving → s.phase = .serving ∧ t.creationWorker = true ∧
      t.cleanupWorker = true := by
  intro hp
  cases h with
  | call _ _ | work _ _ | time _ _ => exact ⟨hp, hw hp⟩
  | handle h =>
    rw [h.after] at hp ⊢
    exact ⟨hp, hw hp⟩
  | shutdown _ _ => cases hp
  | endCreationWorker h | endCleanupWorker h | endBatch h _ | endDrop h _ => exact absurd hp h
  | waited _ _ => cases hp

/-- What others post is a run of the workers. -/
theorem post_workers {messages : List Message} (u : Workers ConsumerWorker)
    (hrun : u.engine.rootCancelled = false)
    (hm : ∀ message ∈ messages, External message = true) :
    (Manager.workers ConsumerWorker config).Run u (messages.map .post)
      { u with inbox := u.inbox ++ messages } := by
  have hposts : (Manager.workers ConsumerWorker config).Run { u with inbox := u.inbox ++ [] }
      (messages.map .post) { u with inbox := u.inbox ++ messages } := by
    refine .of_concat (g := fun l => { u with inbox := u.inbox ++ l }) fun l message hmem => ?_
    refine ⟨hrun, ?_⟩
    rw [Workers.act, if_pos (hm message hmem), List.append_assoc]
  rwa [List.append_nil] at hposts

/-- **Until the shutdown the workers see a run.** -/
theorem Did.workers {activity : Activity} (hr : (system config).Reachable s.toSystem)
    (hrun : s.engine.rootCancelled = false) (hc : s.creationWorker = true)
    (hd : s.cleanupWorker = true) (hp : t.phase = .serving) (h : s.Did activity t) :
    ∃ jobs, (Manager.workers ConsumerWorker config).Run s.workers jobs t.workers := by
  cases h with
  | @call action callers hcalls h =>
    obtain ⟨he, messages, hi, hm⟩ := call_posts hcalls h
    refine ⟨messages.map .post, ?_⟩
    rw [show WorkerEngineManager.workers { s with toSystem := callers } =
      { s.workers with inbox := s.workers.inbox ++ messages } by
        simp only [WorkerEngineManager.workers, he, hi]]
    exact post_workers s.workers hrun fun message hmem => (hm message hmem).1
  | @work job workers hw h =>
    obtain ⟨he, hf, _⟩ := work_posts hw h
    refine ⟨[job], .single ⟨hrun, ?_⟩⟩
    rw [show (s.withWorkers workers).workers = workers by
      simp only [WorkerEngineManager.workers, withWorkers, ← he, ← hf]]
    exact h
  | @time turn timers ht h =>
    obtain ⟨_, _, _, hi | ⟨lease, generation, hi⟩⟩ := time_posts ht h
    · refine ⟨[], ?_⟩
      rw [show (s.withTimers timers).workers = s.workers by
        simp only [WorkerEngineManager.workers, withTimers, hi]]
      exact .nil _
    · refine ⟨[.post (.leaseMaxTimeReached lease generation)], .single ⟨hrun, ?_⟩⟩
      rw [show (s.withTimers timers).workers = { s.workers with
        inbox := s.workers.inbox ++ [.leaseMaxTimeReached lease generation] } by
          simp only [WorkerEngineManager.workers, withTimers, hi]]
      rfl
  | @handle env elapsed _ message rest callers h =>
    obtain ⟨hok, hrest⟩ := h.spec hr
    refine ⟨[.handle (s.outside env)], .single ⟨hrun, ?_⟩⟩
    -- both workers run, so their channels are open
    have hopen : (s.outside env).connected = s.outside env := by
      simp only [Env.connected, outside, hc, hd]
    have hok : s.engine.processMessage (s.outside env).connected message =
        .ok callers.engine := by
      rw [hopen]
      exact hok
    show Workers.handle (s.outside env) s.workers = _
    rw [Workers.handle, show s.workers.inbox = message :: rest from h.inbox, h.after]
    simp only [WorkerEngineManager.workers, hok, hrest, sendAll, hc, hd, if_true]
  | shutdown _ _ | waited _ _ => cases hp
  | endCreationWorker h | endCleanupWorker h | endBatch h _ | endDrop h _ => exact absurd hp h

/-! ### What the clock sees -/

/-- **Until the shutdown the engine has a clock, and every request is accepted.** -/
theorem Did.clocked {activity : Activity} (hr : (system config).Reachable s.toSystem)
    (hrun : s.engine.rootCancelled = false) (hc : s.creationWorker = true)
    (htime : s.OnTime activity) (h : s.Did activity t) :
    ∃ is, (Engine.clocked ConsumerWorker config).Run (s.engine, s.busy) is (t.engine, t.busy) := by
  cases h with
  | call hcalls h =>
    rw [(call_posts hcalls h).1]
    exact ⟨[], .nil _⟩
  | @handle env elapsed _ message rest callers h =>
    obtain ⟨hok, _⟩ := h.spec hr
    refine ⟨[(s.outside env, message)], .single ?_⟩
    rw [h.after]
    obtain ⟨hle, hreads⟩ := htime
    refine ⟨⟨hrun, hok⟩, hle.trans (Nat.le_add_right _ _), fun consumer => ?_, fun _ => hc⟩
    exact ⟨hle.trans (hreads consumer).1, (hreads consumer).2⟩
  | work _ _ | time _ _ | shutdown _ _ | endCreationWorker _ | endCleanupWorker _ | endBatch _ _
  | endDrop _ _ | waited _ _ => exact ⟨[], .nil _⟩

end WorkerEngineManager

/-! ### All of them at once -/

/-- **The manager is the system, the timers, the workers and the clocked engine at once.**
The workers and the clock as long as it serves, the callers and the timers to the end. -/
theorem manager_components (h : (manager config).Reachable s) :
    (system config).Reachable s.toSystem ∧
    (timers ConsumerWorker config).Reachable s.timers ∧
    (s.phase = .serving → s.creationWorker = true ∧ s.cleanupWorker = true ∧
      (workers ConsumerWorker config).Reachable s.workers ∧
      (clocked ConsumerWorker config).Reachable (s.engine, s.busy)) := by
  refine ⟨manager_system h, h.invariant
    (I := fun s => (timers ConsumerWorker config).Reachable s.timers ∧
      (s.phase = .serving → s.creationWorker = true ∧ s.cleanupWorker = true ∧
        (workers ConsumerWorker config).Reachable s.workers ∧
        (clocked ConsumerWorker config).Reachable (s.engine, s.busy))) ?_ ?_⟩
  · rintro s ⟨reports, engine, now, hall, hok, rfl⟩
    have hinit : (Engine.engine ConsumerWorker config).init engine := ⟨reports, hok⟩
    refine ⟨.of_init ⟨hinit, rfl, rfl, rfl, rfl, rfl⟩, fun _ => ?_⟩
    have hworkers : (workers ConsumerWorker config).init (started engine now).workers :=
      ⟨⟨reports, hall, hok⟩, rfl, rfl, rfl, rfl, rfl, rfl⟩
    exact ⟨rfl, rfl, .of_init hworkers, .of_init hinit⟩
  · rintro s activity t hr ⟨htimers, hserve⟩ ⟨hrun, htime, hact⟩
    have hsystem := manager_system hr
    have hdid := did hact
    obtain ⟨turns, h1⟩ := hdid.timers hsystem hrun
    refine ⟨htimers.run h1, fun hp => ?_⟩
    obtain ⟨hs, hc, hd⟩ := hdid.working (fun hp => ⟨(hserve hp).1, (hserve hp).2.1⟩) hp
    obtain ⟨hc', hd', hworkers, hclocked⟩ := hserve hs
    obtain ⟨jobs, h2⟩ := hdid.workers hsystem hrun hc' hd' hp
    obtain ⟨is, h3⟩ := hdid.clocked hsystem hrun hc' htime
    exact ⟨hc, hd, hworkers.run h2, hclocked.run h3⟩

theorem manager_engine (h : (manager config).Reachable s) :
    (engine ConsumerWorker config).Reachable s.engine :=
  (timers_tracked (manager_components h).2.1).reachable

/-! ### A small manager -/

namespace ManagerSample

open Engine.Sample (settings reports leaseA leaseB)

/-- A step in which the engine reads the clock at once. -/
def step (s : WorkerEngineManager) (activity : Activity) : Option WorkerEngineManager :=
  if s.engine.rootCancelled = false ∧ s.busy ≤ s.now then
    match activity with
    | .handle env elapsed => s.handle { env with now := fun _ => s.now } elapsed
    | activity => s.act activity
  else none

theorem reachable_step {s t : WorkerEngineManager} {activity : Activity}
    (hr : (manager settings).Reachable s) (h : step s activity = some t) :
    (manager settings).Reachable t := by
  unfold step at h
  split at h
  case isFalse => cases h
  case isTrue hp =>
    obtain ⟨hrun, hle⟩ := hp
    split at h
    case h_1 env elapsed =>
      refine hr.step (i := .handle { env with now := fun _ => s.now } elapsed) ⟨hrun, ?_, h⟩
      exact ⟨hle, fun _ => ⟨le_refl _, Nat.le_add_right _ _⟩⟩
    case h_2 hne =>
      refine hr.step (i := activity) ⟨hrun, ?_, h⟩
      cases activity with
      | handle env elapsed => exact (hne env elapsed rfl).elim
      | call _ | work _ | time _ | shutdown | endCreationWorker | endCleanupWorker | endBatch _
      | endDrop _ | waited => trivial

/-- The manager after `start_workers` and then `activities`, from instant `0` on. -/
def after (activities : List Activity) : Option WorkerEngineManager :=
  match (WorkerEngine.new settings).tryInit reports with
  | .ok (.ok (), engine) => activities.foldlM step (.started engine 0)
  | _ => none

theorem reachable_after {activities : List Activity} {s : WorkerEngineManager}
    (h : after activities = some s) : (manager settings).Reachable s := by
  rw [after] at h
  split at h
  case h_1 engine he =>
    have hinit : (manager settings).init (.started engine 0) :=
      ⟨reports, engine, 0, .refl _, he, rfl⟩
    exact .of_foldlM (fun _ _ _ => reachable_step) (.of_init hinit) h
  case h_2 => cases h

/-- One lease is attached and released while another one waits, a worker creates and
drops, and a timer starts. -/
def activities : List Activity :=
  let handle : Activity := .handle (Sample.env true) 0
  [.call (.attach leaseA 0), .call (.attach leaseB 0), handle, handle, .call (.attachEnds 0),
    .call (.release leaseA), .time (.start 0), .time (.tick 5), handle, .call (.dropReceiver 2),
    .work .startBatch, .work .startDrop, .work (.report 0 0 (.ok "third")), handle]

end ManagerSample

/-- While a database is created, another one is dropped. -/
theorem manager_components_small : ∃ s, (manager Engine.Sample.settings).Reachable s ∧
    s.phase = .serving ∧ s.drops.length = 1 ∧ s.sleeping.length = 1 ∧ s.busy = 5 ∧
    (workers ConsumerWorker Engine.Sample.settings).Reachable s.workers := by
  have hrun : ((ManagerSample.after ManagerSample.activities).any fun s =>
      decide (s.phase = .serving ∧ s.drops.length = 1 ∧ s.sleeping.length = 1 ∧ s.busy = 5)) =
        true := by decide
  obtain ⟨s, hs, hp⟩ := (Option.any_eq_true _ _).mp hrun
  obtain ⟨h1, h2, h3, h4⟩ := of_decide_eq_true hp
  have hreach := ManagerSample.reachable_after hs
  exact ⟨s, hreach, h1, h2, h3, h4, ((manager_components hreach).2.2 h1).2.2.1⟩

end PgTest.Manager
