import PgTest.Manager.Cluster
import PgTest.Wire.Closing
import PgTest.Wire.Isolation

/-!
# The whole program

`serve` with its listeners and connections in front of the manager, its workers and
timers, and the PostgreSQL server behind it.  The front and the manager share the callers'
system: a connection calls the manager, and everything else that happens to the manager is
none of its business.  After `Arc::try_unwrap` the program shuts the manager down.

The program is the `cluster` (`Assembled.cluster`), and until the engine is told to stop it
is the `server` (`Assembled.server`).
-/

namespace PgTest.Wire

open PgTest.Lib PgTest.Engine PgTest.Manager

structure Deployment where
  cluster : Cluster
  clients : List Client
  listeners : Listener → Listening
  serving : Serving

/-- What happens next, in front of the manager or behind it. -/
inductive Happens
  | front (occurrence : Occurrence)
  | back (happening : Happening)

namespace Deployment

/-- What `serve` sees of the program. -/
def server (d : Deployment) : Server where
  system := d.cluster.manager.toSystem
  clients := d.clients
  listeners := d.listeners
  serving := d.serving

/-- The program after `serve` did something. -/
def withServer (d : Deployment) (s : Server) : Deployment where
  cluster := { d.cluster with manager := { d.cluster.manager with toSystem := s.system } }
  clients := s.clients
  listeners := s.listeners
  serving := s.serving

/-- An `attach` reads the clock before it sends. -/
def fronts (d : Deployment) : Occurrence → Bool
  | .engine _ => false
  | .progress _ (.authenticated _ now) => decide (now ≤ d.cluster.manager.now)
  | _ => true

/-- Calls are those of connections, and `shutdown` takes the manager out of its `Arc`. -/
def backs (d : Deployment) : Happening → Bool
  | .activity (.call _) => false
  | .activity .shutdown => decide (d.serving = .done false)
  | _ => true

/-- One step of the program; `none` where it cannot happen. -/
def act (pgwire : Pgwire) (template : String) (configured : Configured) (d : Deployment) :
    Happens → Option Deployment
  | .front occurrence =>
    if d.fronts occurrence then
      (d.server.act pgwire template configured occurrence).map d.withServer
    else none
  | .back happening =>
    if d.backs happening then
      (d.cluster.act happening).map fun cluster => { d with cluster := cluster }
    else none

end Deployment

/-- The program from a successful `WorkerEngineManager::start`. -/
def deployment (pgwire : Pgwire) (template : String) (configured : Configured)
    (config : WorkerEngineConfig) : Machine Deployment Happens where
  init d := (cluster config).init d.cluster ∧ d.clients = [] ∧
    (∀ listener, d.listeners listener = .unbound) ∧ d.serving = .opening .tcp
  step d happens e := d.act pgwire template configured happens = some e ∧
    (∀ occurrence, happens = .front occurrence →
      d.cluster.manager.engine.rootCancelled = false) ∧
    ∀ happening, happens = .back happening → (cluster config).step d.cluster happening e.cluster

variable {pgwire : Pgwire} {template : String} {configured : Configured}
variable {config : WorkerEngineConfig} {d e : Deployment}

/-! ### What the front does to the manager -/

/-- The creations that were made are not reported yet. -/
theorem cluster_owed {s : Cluster} (h : (cluster config).Reachable s) :
    ∀ creation ∈ s.made, creation.1 ∈ s.manager.owed := by
  refine h.invariant (I := fun s => ∀ creation ∈ s.made, creation.1 ∈ s.manager.owed)
    (fun s hs => ?_) fun s happening t _ hI hstep => ?_
  · obtain ⟨_, hmade, _⟩ := hs
    simp [hmade]
  · obtain ⟨_, hact⟩ := hstep
    cases happening with
    | activity activity =>
      simp only [Cluster.act] at hact
      split at hact
      case isFalse => cases hact
      case isTrue =>
        obtain ⟨manager, _, he⟩ := Option.map_eq_some_iff.mp hact
        cases he
        intro creation hm
        exact of_decide_eq_true (List.mem_filter.mp hm).2
    | create databaseId databaseName =>
      simp only [Cluster.act] at hact
      split at hact
      case isFalse => cases hact
      case isTrue howed =>
        obtain ⟨databases, _, he⟩ := Option.map_eq_some_iff.mp hact
        cases he
        intro creation hm
        rcases List.mem_append.mp hm with hm | hm
        · exact hI creation hm
        · rw [List.mem_singleton.mp hm]
          exact howed.1
    | drop request | others databases =>
      simp only [Cluster.act] at hact
      split at hact <;> cases hact
      exact hI

/-- **A call is a step of the cluster** that changes the callers' system only. -/
theorem call_step {s : Cluster} {action : Action} {system : System}
    (h : (cluster config).Reachable s) (hrun : s.manager.engine.rootCancelled = false)
    (hc : s.manager.calls action = true) (ha : s.manager.toSystem.act action = some system) :
    (cluster config).step s (.activity (.call action))
      { s with manager := { s.manager with toSystem := system } } := by
  have hmanager : s.manager.act (.call action) = some { s.manager with toSystem := system } := by
    simp only [WorkerEngineManager.act, hc, if_true, ha, Option.map_some]
  have howed : (s.made.filter fun creation =>
      creation.1 ∈ ({ s.manager with toSystem := system } : WorkerEngineManager).owed) = s.made :=
    List.filter_eq_self.mpr fun creation hm => decide_eq_true (cluster_owed h creation hm)
  refine ⟨fun activity heq => ?_, ?_⟩
  · cases heq
    exact ⟨hrun, trivial, hmanager⟩
  · simp only [Cluster.act, Cluster.truthful, if_true, hmanager, Option.map_some, howed,
      WorkerEngineManager.begins, List.append_nil]

/-- The manager takes calls while it serves; an `attach` has read the clock. -/
theorem calls_of_called {s : WorkerEngineManager} {action : Action} (hp : s.phase = .serving)
    (hc : called action = true) (htime : ∀ lease now, action = .attach lease now → now ≤ s.now) :
    s.calls action = true := by
  cases action with
  | attach lease now =>
    simp only [WorkerEngineManager.calls, hp, true_and, decide_eq_true_eq]
    exact htime lease now rfl
  | release lease => simp only [WorkerEngineManager.calls, hp, decide_true]
  | attachEnds _ | dropReceiver _ | dropSession _ => rfl
  | leaseTimer _ _ | databaseWorker _ | shutdown | handle _ => cases hc

/-- **A step of the front is a run of the cluster.** -/
theorem front_cluster {occurrence : Occurrence} (h : (cluster config).Reachable d.cluster)
    (hrun : d.cluster.manager.engine.rootCancelled = false)
    (hp : d.cluster.manager.phase = .serving)
    (htended : d.server.Tended) (hfronts : d.fronts occurrence = true) {s : Server}
    (hact : d.server.act pgwire template configured occurrence = some s) :
    ∃ happenings, (cluster config).Run d.cluster happenings (d.withServer s).cluster := by
  have hsame : s.system = d.server.system → ∃ happenings,
      (cluster config).Run d.cluster happenings (d.withServer s).cluster := by
    intro hs
    refine ⟨[], ?_⟩
    rw [Deployment.withServer, hs]
    exact .nil _
  rcases Server.act_cases hact with ⟨hs, _⟩ | ⟨index, client, after, progress, rfl, hc, hgo, _⟩ |
    ⟨action, rfl, _⟩
  · exact hsame hs
  · rcases (progress_goes hgo).action (htended.owns hc) with heq | ⟨action, ha, hcalled, hattach⟩
    · exact hsame heq
    · refine ⟨[.activity (.call action)], .single (call_step h hrun ?_ ha)⟩
      refine calls_of_called hp hcalled fun lease now heq => ?_
      obtain ⟨_, rfl, _⟩ := hattach lease now heq
      exact of_decide_eq_true hfronts
  · cases hfronts

/-! ### What happens behind the front -/

/-- Behind the front the manager does something, or only PostgreSQL does. -/
theorem back_did {happening : Happening} {s t : Cluster}
    (h : (cluster config).step s happening t) :
    (∃ activity, happening = .activity activity ∧ s.manager.engine.rootCancelled = false ∧
      s.manager.Did activity t.manager) ∨ t.manager = s.manager := by
  obtain ⟨hstep, hact⟩ := h
  cases happening with
  | activity activity =>
    obtain ⟨hrun, _, hmanager⟩ := hstep activity rfl
    exact Or.inl ⟨activity, rfl, hrun, WorkerEngineManager.did hmanager⟩
  | create databaseId databaseName =>
    simp only [Cluster.act] at hact
    split at hact
    case isFalse => cases hact
    case isTrue =>
      obtain ⟨databases, _, rfl⟩ := Option.map_eq_some_iff.mp hact
      exact Or.inr rfl
  | drop request | others databases =>
    simp only [Cluster.act] at hact
    split at hact <;> cases hact
    exact Or.inr rfl

/-- **`serve` sees a message handled, a timer or a report**, or nothing. -/
theorem did_outside {s t : WorkerEngineManager} {activity : Activity} (h : s.Did activity t)
    (hc : ∀ action, activity ≠ .call action) (hw : activity ≠ .waited) :
    t.toSystem = s.toSystem ∨ ∃ action, Server.outside action = true ∧
      s.toSystem.act action = some t.toSystem := by
  cases h with
  | call _ _ => exact absurd rfl (hc _)
  | waited _ _ => exact absurd rfl hw
  | handle h =>
    rw [h.after]
    exact Or.inr ⟨.handle (s.outside _), rfl, h.handle⟩
  | work hworks h =>
    obtain ⟨_, _, hi | ⟨message, hi⟩⟩ := WorkerEngineManager.work_posts hworks h
    · exact Or.inl (WorkerEngineManager.system_ext rfl hi rfl rfl)
    · exact Or.inr ⟨.databaseWorker message, rfl,
        congrArg some (WorkerEngineManager.system_ext rfl hi.symm rfl rfl)⟩
  | time ht h =>
    obtain ⟨_, _, _, hi | ⟨lease, generation, hi⟩⟩ := WorkerEngineManager.time_posts ht h
    · exact Or.inl (WorkerEngineManager.system_ext rfl hi rfl rfl)
    · exact Or.inr ⟨.leaseTimer lease generation, rfl,
        congrArg some (WorkerEngineManager.system_ext rfl hi.symm rfl rfl)⟩
  | shutdown _ _ | endCreationWorker _ | endCleanupWorker _ | endBatch _ _ | endDrop _ _ =>
    exact Or.inl rfl

/-! ### The program is its parts -/

namespace Deployment

/-- Nobody can call the manager any more. -/
structure Over (d : Deployment) : Prop where
  done : d.serving = .done false
  shut : ∀ listener, (d.listeners listener).Shut
  ended : ∀ client ∈ d.clients, client.running = false

/-- **The program is the cluster and the server**; it shuts the manager down when nobody
can call it. -/
structure Assembled (pgwire : Pgwire) (template : String) (configured : Configured)
    (config : WorkerEngineConfig) (d : Deployment) : Prop where
  cluster : (Manager.cluster config).Reachable d.cluster
  server : d.cluster.manager.phase ≠ .closing →
    (Wire.server pgwire template configured config).Reachable d.server
  gone : d.cluster.manager.phase ≠ .serving → d.Over

/-- In front of a manager that shuts down nothing happens. -/
theorem Over.front (h : d.Over) {occurrence : Occurrence} (hfronts : d.fronts occurrence = true)
    {s : Server} (hact : d.server.act pgwire template configured occurrence = some s) : False := by
  have hserving : d.server.serving = .done false := h.done
  have hdown : ∀ listener, d.server.listeners listener ≠ .accepting ∧
      d.server.listeners listener ≠ .stopping := by
    intro listener
    have hl : d.server.listeners listener = .unbound ∨ d.server.listeners listener = .stopped :=
      h.shut listener
    rcases hl with hl | hl <;> simp [hl]
  cases occurrence with
  | accept listener => simp [Server.act, (hdown listener).1] at hact
  | stopped listener => simp [Server.act, (hdown listener).2] at hact
  | opens ok | signal | close | unwrap => simp [Server.act, hserving] at hact
  | engine action => cases hfronts
  | progress index progress =>
    obtain ⟨client, after, hc, hp, _⟩ := Server.act_progress hact
    have hend : client.running = false := h.ended client (List.mem_of_getElem? hc)
    rw [progress_running hp] at hend
    cases hend

/-- **A step of the front keeps the parts together.** -/
theorem Assembled.front (h : d.Assembled pgwire template configured config)
    {occurrence : Occurrence} (hrun : d.cluster.manager.engine.rootCancelled = false)
    (hfronts : d.fronts occurrence = true) {s : Server}
    (hact : d.server.act pgwire template configured occurrence = some s) :
    (d.withServer s).Assembled pgwire template configured config := by
  have hserver : d.cluster.manager.phase ≠ .closing →
      (Wire.server pgwire template configured config).Reachable s := fun hp =>
    (h.server hp).step ⟨hrun, hact⟩
  by_cases hp : d.cluster.manager.phase = .serving
  · have htended := (server_tended (h.server (by simp [hp]))).2
    obtain ⟨happenings, hcluster⟩ := front_cluster h.cluster hrun hp htended hfronts hact
    exact ⟨h.cluster.run hcluster, hserver, fun hne => absurd hp hne⟩
  · exact ((h.gone hp).front hfronts hact).elim

/-- **A step behind the front keeps the parts together.** -/
theorem Assembled.back (h : d.Assembled pgwire template configured config)
    {happening : Happening} (hbacks : d.backs happening = true) {after : Cluster}
    (hstep : (Manager.cluster config).step d.cluster happening after) :
    ({ d with cluster := after } : Deployment).Assembled pgwire template configured config := by
  have hcluster := h.cluster.step hstep
  have hsame : after.manager.toSystem = d.cluster.manager.toSystem →
      ({ d with cluster := after } : Deployment).server = d.server := by
    intro hs
    unfold Deployment.server
    rw [hs]
  have hover : d.Over → ({ d with cluster := after } : Deployment).Over := fun ho =>
    ⟨ho.done, ho.shut, ho.ended⟩
  rcases back_did hstep with ⟨activity, rfl, hrun, hdid⟩ | hm
  · have hcall : ∀ action, activity ≠ .call action := by
      rintro action rfl
      cases hbacks
    by_cases hshutdown : activity = .shutdown
    · subst hshutdown
      have hdone : d.serving = .done false := of_decide_eq_true hbacks
      generalize after.manager = manager at hdid hsame
      cases hdid with
      | shutdown hp _ =>
        have hserver := h.server (by simp [hp])
        have hpast : ∀ listener, d.server.serving.Past listener := by
          intro listener
          show d.serving.Past listener
          rw [hdone]
          trivial
        refine ⟨hcluster, fun _ => ?_, fun _ => ⟨hdone, fun listener =>
          (server_orderly hserver).past listener (hpast listener),
          (nothing_left hserver hpast).2.1⟩⟩
        rw [hsame rfl]
        exact hserver
    by_cases hwaited : activity = .waited
    · subst hwaited
      have hphases : d.cluster.manager.phase = .waiting ∧ after.manager.phase = .closing := by
        generalize after.manager = manager at hdid
        cases hdid with
        | waited hp _ => exact ⟨hp, rfl⟩
      exact ⟨hcluster, fun hp => absurd hphases.2 hp,
        fun _ => hover (h.gone (by simp [hphases.1]))⟩
    · have hphase := hdid.phase hshutdown hwaited
      refine ⟨hcluster, fun hp => ?_, fun hp => hover (h.gone (hphase ▸ hp))⟩
      have hserver := h.server (hphase ▸ hp)
      rcases did_outside hdid hcall hwaited with hs | ⟨action, hout, ha⟩
      · rw [hsame hs]
        exact hserver
      · refine hserver.step (i := .engine action) ⟨hrun, ?_⟩
        have ha : d.server.system.act action = some after.manager.toSystem := ha
        simp only [Server.act, hout, if_true, ha, Option.map_some]
        rfl
  · refine ⟨hcluster, fun hp => ?_, fun hp => hover (h.gone (hm ▸ hp))⟩
    rw [hsame (by rw [hm])]
    exact h.server (hm ▸ hp)

end Deployment

/-- **The program is the cluster and the server**, in every reachable state. -/
theorem deployment_assembled (h : (deployment pgwire template configured config).Reachable d) :
    d.Assembled pgwire template configured config := by
  refine h.invariant (I := Deployment.Assembled pgwire template configured config)
    (fun d hd => ?_) fun d happens e _ hI ⟨hact, hrun, hcluster⟩ => ?_
  · obtain ⟨hinit, hclients, hlisteners, hserving⟩ := hd
    have hcluster := Machine.Reachable.of_init hinit
    obtain ⟨⟨reports, engine, now, _, hok, hstarted⟩, _⟩ := hinit
    have hsystem : (system config).init d.server.system := by
      show (system config).init d.cluster.manager.toSystem
      rw [hstarted]
      exact ⟨⟨reports, hok⟩, rfl, rfl, rfl⟩
    refine ⟨hcluster, fun _ => .of_init ⟨hsystem, hclients, hlisteners, hserving⟩, fun hp => ?_⟩
    rw [hstarted] at hp
    exact absurd rfl hp
  · cases happens with
    | front occurrence =>
      simp only [Deployment.act] at hact
      split at hact
      case isFalse => cases hact
      case isTrue hfronts =>
        obtain ⟨s, hs, rfl⟩ := Option.map_eq_some_iff.mp hact
        exact hI.front (hrun occurrence rfl) hfronts hs
    | back happening =>
      simp only [Deployment.act] at hact
      split at hact
      case isFalse => cases hact
      case isTrue hbacks =>
        obtain ⟨after, _, rfl⟩ := Option.map_eq_some_iff.mp hact
        exact hI.back hbacks (hcluster happening rfl)

/-! ### What clients see -/

/-- The manager serves while a client relays. -/
theorem Deployment.Assembled.serving (h : d.Assembled pgwire template configured config)
    {client : Client} (hm : client ∈ d.clients) (hrun : client.running = true) :
    d.cluster.manager.phase = .serving := by
  by_contra hp
  rw [(h.gone hp).ended client hm] at hrun
  cases hrun

namespace Sample

/-- A step of the small program; the engine reads the clock at once. -/
def deploy (d : Deployment) : Happens → Option Deployment
  | .front occurrence =>
    if d.cluster.manager.engine.rootCancelled = false then
      d.act decoder "t" Sample.configured (.front occurrence)
    else none
  | .back happening =>
    if d.backs (ClusterSample.timed d.cluster.manager happening) then
      (ClusterSample.step d.cluster happening).map fun cluster => { d with cluster := cluster }
    else none

theorem deploy_reachable {happens : Happens}
    (hr : (deployment decoder "t" Sample.configured Engine.Sample.settings).Reachable d)
    (h : deploy d happens = some e) :
    (deployment decoder "t" Sample.configured Engine.Sample.settings).Reachable e := by
  cases happens with
  | front occurrence =>
    rw [deploy] at h
    split at h
    case isFalse => cases h
    case isTrue hrun => exact hr.step (i := .front occurrence) ⟨h, fun _ _ => hrun, nofun⟩
  | back happening =>
    rw [deploy] at h
    split at h
    case isFalse => cases h
    case isTrue hbacks =>
      obtain ⟨after, hafter, rfl⟩ := Option.map_eq_some_iff.mp h
      have hstep := ClusterSample.timed_step hafter
      refine hr.step (i := .back (ClusterSample.timed d.cluster.manager happening))
        ⟨?_, nofun, fun other heq => ?_⟩
      · simp only [Deployment.act, hbacks, if_true, hstep.2, Option.map_some]
      · cases heq
        exact hstep

/-- The program after a start with two databases, and `happens`. -/
def deployed (happens : List Happens) : Option Deployment :=
  match (WorkerEngine.new Engine.Sample.settings).tryInit Engine.Sample.reports with
  | .ok (.ok (), engine) =>
    if (["first", "second"] : List _) = engine.active.map Database.databaseName then
      happens.foldlM deploy ⟨ClusterSample.start engine, [], fun _ => .unbound, .opening .tcp⟩
    else none
  | _ => none

theorem reachable_deployed {happens : List Happens} (h : deployed happens = some d) :
    (deployment decoder "t" Sample.configured Engine.Sample.settings).Reachable d := by
  rw [deployed] at h
  split at h
  case h_2 => cases h
  case h_1 engine he =>
    split at h
    case isFalse => cases h
    case isTrue hnames =>
      exact .of_foldlM (fun _ _ _ => deploy_reachable)
        (.of_init ⟨ClusterSample.start_init he hnames, rfl, fun _ => rfl, rfl⟩) h

/-- A client connects and asks for a lease. -/
def arrives (client : Nat) (database : String) : List Happens :=
  [.accept .tcp,
    .progress client (.startup (some fun name => if name = "database" then some database else none)),
    .progress client (.negotiated true), .progress client (.authenticated true 0)].map .front

/-- Two clients of two leases are relayed. -/
def relayed : List Happens :=
  [.front (.opens true), .front (.opens true)] ++ arrives 0 "t/a" ++ arrives 1 "t/b" ++
    [.back (.activity (.handle (Manager.Sample.env true) 0)),
      .back (.activity (.handle (Manager.Sample.env true) 0)),
      .front (.progress 0 .replied), .front (.progress 1 .replied),
      .front (.progress 0 (.connected (.ok upstream))),
      .front (.progress 1 (.connected (.ok upstream)))]

end Sample

/-- The program does this by itself once it shuts down. -/
def Happens.Own : Happens → Prop
  | .front occurrence => occurrence.own = true
  | .back (.activity .shutdown) => True
  | .back (.activity activity) => activity.Ends
  | .back _ => False

/-- What `serve` does by itself it does in the program. -/
theorem front_run : ∀ {occurrences : List Occurrence} {d : Deployment} {t : Server},
    (server pgwire template configured config).Run d.server occurrences t →
    (∀ occurrence ∈ occurrences, occurrence.own = true) →
    (deployment pgwire template configured config).Run d (occurrences.map .front)
      (d.withServer t) := by
  intro occurrences
  induction occurrences with
  | nil =>
    intro d t h _
    cases h
    exact .nil _
  | cons occurrence occurrences ih =>
    intro d t h hown
    cases h with
    | @cons _ u _ _ _ hstep hrest =>
      obtain ⟨hrun, hact⟩ := hstep
      have hfronts : d.fronts occurrence = true := by
        have hfirst := hown occurrence List.mem_cons_self
        cases occurrence with
        | close | unwrap | stopped _ => rfl
        | progress _ progress =>
          cases progress with
          | aborted => rfl
          | startup _ | negotiated _ | authenticated _ _ | replied | timedOut | unanswered
          | connected _ | cancelled | closed | rejected | release _ | released | left =>
            cases hfirst
        | accept _ | engine _ | opens _ | signal => cases hfirst
      have hfront : (deployment pgwire template configured config).step d (.front occurrence)
          (d.withServer u) := by
        refine ⟨?_, fun _ _ => hrun, nofun⟩
        simp only [Deployment.act, hfronts, if_true, hact, Option.map_some]
      have hthen := ih (d := d.withServer u) hrest fun other hm =>
        hown other (List.mem_cons_of_mem _ hm)
      exact .cons hfront hthen

/-- The tasks of the manager end in the program. -/
theorem back_run : ∀ {activities : List Activity} {d : Deployment} {t : WorkerEngineManager},
    (manager config).Run d.cluster.manager activities t →
    (∀ activity ∈ activities, activity.Ends) →
    ∃ e, (deployment pgwire template configured config).Run d
        (activities.map fun activity => .back (.activity activity)) e ∧
      e.cluster.manager = t ∧ e.serving = d.serving := by
  intro activities
  induction activities with
  | nil =>
    intro d t h _
    cases h
    exact ⟨d, .nil _, rfl, rfl⟩
  | cons activity activities ih =>
    intro d t h hends
    cases h with
    | @cons _ u _ _ _ hstep hrest =>
      have hfirst := hends activity List.mem_cons_self
      have hbacks : d.backs (.activity activity) = true := by
        cases activity with
        | call _ | shutdown => exact hfirst.elim
        | work _ | time _ | handle _ _ | endCreationWorker | endCleanupWorker | endBatch _
        | endDrop _ | waited => rfl
      have htruthful : d.cluster.truthful activity = true := by
        cases activity with
        | work _ => exact hfirst.elim
        | call _ | shutdown | time _ | handle _ _ | endCreationWorker | endCleanupWorker
        | endBatch _ | endDrop _ | waited => rfl
      obtain ⟨after, hafter, hu⟩ : ∃ after, d.cluster.act (.activity activity) = some after ∧
          after.manager = u := by
        simp only [Cluster.act, htruthful, if_true, hstep.2.2, Option.map_some]
        exact ⟨_, rfl, rfl⟩
      have hback : (deployment pgwire template configured config).step d
          (.back (.activity activity)) { d with cluster := after } := by
        refine ⟨?_, fun occurrence heq => ?_, fun happening heq => ?_⟩
        · simp only [Deployment.act, hbacks, if_true, hafter, Option.map_some]
        · cases heq
        · cases heq
          refine ⟨fun other heq => ?_, hafter⟩
          cases heq
          exact hu ▸ hstep
      obtain ⟨e, hrun, he, hserving⟩ := ih (d := { d with cluster := after }) (hu ▸ hrest)
        fun other hm => hends other (List.mem_cons_of_mem _ hm)
      exact ⟨e, .cons hback hrun, he, hserving⟩

/-- Behind the wait for its tasks the manager stays quiet, and nobody is connected to it,
whatever else happens. -/
theorem quiet_run (h : (deployment pgwire template configured config).Reachable d)
    (hp : d.cluster.manager.phase = .closing) {happens : List Happens}
    (hr : (deployment pgwire template configured config).Run d happens e) :
    e.cluster.manager.Quiet ∧ ∀ client ∈ e.clients, client.running = false := by
  have hmanager : ∀ {d : Deployment},
      (deployment pgwire template configured config).Reachable d →
        d.cluster.manager.Stopping := fun hd =>
    WorkerEngineManager.manager_stopping (Cluster.cluster_manager (deployment_assembled hd).cluster)
  have hall : (deployment pgwire template configured config).Reachable e ∧
      e.cluster.manager.phase = .closing := by
    refine hr.invariant (I := fun d => (deployment pgwire template configured config).Reachable d ∧
      d.cluster.manager.phase = .closing) (fun d happens e _ ⟨hd, hp⟩ hstep => ?_) ⟨h, hp⟩
    refine ⟨hd.step hstep, ?_⟩
    obtain ⟨hact, _, hcluster⟩ := hstep
    cases happens with
    | front occurrence =>
      simp only [Deployment.act] at hact
      split at hact
      case isFalse => cases hact
      case isTrue =>
        obtain ⟨s, _, rfl⟩ := Option.map_eq_some_iff.mp hact
        exact hp
    | back happening =>
      rcases back_did (hcluster happening rfl) with ⟨activity, _, _, hdid⟩ | hm
      · exact (hdid.quiet ((hmanager hd).quiet hp) hp).2
      · rw [hm]
        exact hp
  obtain ⟨he, hclosing⟩ := hall
  have hover : e.Over := (deployment_assembled he).gone (by simp [hclosing])
  exact ⟨(hmanager he).quiet hclosing, hover.ended⟩

/-- **The program comes to its end.**  From the moment in which `serve` begins to shut down,
whatever clients are connected and whatever the manager and PostgreSQL were doing, the
program can go on by itself: the listeners stop and their connections are aborted, the
manager is taken out of its `Arc`, `shutdown` finds nobody inside a call, and the tasks of
the manager end, until only the engine is left, in a bounded number of steps.  From then on
no worker task and no connection runs, so nothing more is sent to PostgreSQL; what it has
begun it may still carry out. -/
theorem program_stops (h : (deployment pgwire template configured config).Reachable d)
    (hclosing : ∃ listener, d.serving = .closing listener) :
    ∃ happens e, (deployment pgwire template configured config).Run d happens e ∧
      (∀ happening ∈ happens, happening.Own) ∧
      happens.length ≤ d.clients.length + d.cluster.manager.tasks + 9 ∧
      e.serving = .done false ∧ e.cluster.manager.phase = .closing ∧
      ∀ later u, (deployment pgwire template configured config).Run e later u →
        u.cluster.manager.Quiet ∧ ∀ client ∈ u.clients, client.running = false := by
  have hassembled := deployment_assembled h
  have hphase : d.cluster.manager.phase = .serving := by
    by_contra hp
    obtain ⟨listener, hc⟩ := hclosing
    cases hc.symm.trans (hassembled.gone hp).done
  -- `serve` gives the manager back
  have hending : d.server.serving.Ending := by
    obtain ⟨listener, hc⟩ := hclosing
    show d.serving.Ending
    rw [hc]
    trivial
  obtain ⟨occurrences, s, hserve, hlen, hown, hdone⟩ :=
    serve_ends (hassembled.server (by simp [hphase])) hending
  have hfront := front_run hserve hown
  have hassembled₁ := deployment_assembled (h.run hfront)
  have hserver : (server pgwire template configured config).Reachable s :=
    hassembled₁.server (show d.cluster.manager.phase ≠ .closing by simp [hphase])
  have hpast : ∀ listener, s.serving.Past listener := by
    intro listener
    rw [hdone]
    trivial
  obtain ⟨_, _, _, hclosed⟩ := nothing_left hserver hpast
  -- nobody is inside a call
  have hchannels : ∀ channel ∈ s.system.channels, channel = .closed := by
    intro state hm
    obtain ⟨channel, hc⟩ := List.mem_iff_getElem?.mp hm
    by_contra hne
    exact hclosed channel ⟨state, hc, hne⟩
  have hrunning := (server_orderly hserver).engine.1
  have hmanager : (d.withServer s).cluster.manager.act .shutdown =
      some { (d.withServer s).cluster.manager with phase := .waiting } :=
    if_pos ⟨hphase, hchannels⟩
  obtain ⟨after, hafter, hwaiting⟩ : ∃ after,
      (d.withServer s).cluster.act (.activity .shutdown) = some after ∧
        after.manager = { (d.withServer s).cluster.manager with phase := .waiting } := by
    have htruthful : (d.withServer s).cluster.truthful .shutdown = true := rfl
    simp only [Cluster.act, htruthful, if_true, hmanager, Option.map_some]
    exact ⟨_, rfl, rfl⟩
  have hshutdown : (deployment pgwire template configured config).step (d.withServer s)
      (.back (.activity .shutdown)) { d.withServer s with cluster := after } := by
    have hbacks : (d.withServer s).backs (.activity .shutdown) = true := decide_eq_true hdone
    refine ⟨?_, fun occurrence heq => ?_, fun happening heq => ?_⟩
    · simp only [Deployment.act, hbacks, if_true, hafter, Option.map_some]
    · cases heq
    · cases heq
      refine ⟨fun activity heq => ?_, hafter⟩
      cases heq
      exact ⟨hrunning, trivial, hwaiting ▸ hmanager⟩
  -- and the tasks of the manager end
  obtain ⟨activities, manager, hends, hcount, hall, hlast⟩ :=
    WorkerEngineManager.ends_run config (s := after.manager) (by rw [hwaiting])
      (by rw [hwaiting]; exact hrunning)
  obtain ⟨e, hback, he, hserving⟩ : ∃ e, (deployment pgwire template configured config).Run
      { d.withServer s with cluster := after }
      (activities.map fun activity => .back (.activity activity)) e ∧
        e.cluster.manager = manager ∧ e.serving = s.serving := back_run hends hall
  have hrun := hfront.append (.cons hshutdown hback)
  have hclosing' : e.cluster.manager.phase = .closing := he ▸ hlast
  refine ⟨_, e, hrun, fun happening hm => ?_, ?_, hserving.trans hdone, hclosing',
    fun later u hlater => quiet_run (h.run hrun) hclosing' hlater⟩
  · rcases List.mem_append.mp hm with hm | hm
    · obtain ⟨occurrence, ho, rfl⟩ := List.mem_map.mp hm
      exact hown occurrence ho
    · rcases List.mem_cons.mp hm with rfl | hm
      · trivial
      · obtain ⟨activity, ha, rfl⟩ := List.mem_map.mp hm
        have hthis := hall activity ha
        cases activity with
        | shutdown => trivial
        | call _ | work _ | time _ | handle _ _ | endCreationWorker | endCleanupWorker
        | endBatch _ | endDrop _ | waited => exact hthis
  · have htasks : after.manager.tasks = d.cluster.manager.tasks := by
      rw [hwaiting]
      rfl
    have hleft : d.server.left ≤ d.clients.length + 7 := d.server.left_le
    simp only [List.length_append, List.length_map, List.length_cons]
    omega

/-- The program stops while two clients are relayed. -/
theorem program_stops_small : ∃ d,
    (deployment Sample.decoder "t" Sample.configured Engine.Sample.settings).Reachable d ∧
      d.clients.countP Client.running = 2 ∧ ∃ happens e,
        (deployment Sample.decoder "t" Sample.configured Engine.Sample.settings).Run d happens e ∧
          happens.length ≤ 17 ∧ e.cluster.manager.Quiet ∧ e.clients.countP Client.running = 0 := by
  have hrun : ((Sample.deployed (Sample.relayed ++ [.front .signal])).any fun d =>
      decide (d.serving = .closing .tcp ∧ d.clients.countP Client.running = 2 ∧
        d.clients.length = 2 ∧ d.cluster.manager.tasks = 6)) = true := by decide
  obtain ⟨d, hd, hp⟩ := (Option.any_eq_true _ _).mp hrun
  obtain ⟨hserving, hrunning, hlength, htasks⟩ := of_decide_eq_true hp
  have hreach := Sample.reachable_deployed hd
  obtain ⟨happens, e, he, _, hle, _, _, hquiet⟩ := program_stops hreach ⟨.tcp, hserving⟩
  obtain ⟨hends, hended⟩ := hquiet [] e (.nil e)
  refine ⟨d, hreach, hrunning, happens, e, he, by omega, hends, ?_⟩
  exact List.countP_eq_zero.mpr fun client hm => by simp [hended client hm]

end PgTest.Wire
