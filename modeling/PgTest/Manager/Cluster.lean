import PgTest.Engine.Active
import PgTest.Manager.Ownership
import PgTest.Manager.Shutdown

/-!
# The databases on the server

The manager in front of a PostgreSQL server with a set of databases.  The task of a
creation has its `CREATE DATABASE` executed, which the server refuses for a name it
knows, and reports afterwards; the task of a cleanup has its `DROP DATABASE IF EXISTS`
executed.  A statement may be executed before or after its task gives up or the manager
is shut down, or never.  Others create and drop what they like, but none of the names
the manager has to do with: this is assumed of everybody else on the server, and of the
clients that are relayed to it, whose SQL the manager does not see.

`names` lists those: of the databases in use, of the creations that were executed or
reported, and of the drops that were asked for and not executed.  No step of the manager
makes a name, so they stay apart from each other (`Kept`): a drop that is executed, or
may still be, is never that of a database in use.
-/

namespace PgTest.Manager

open PgTest.Lib PgTest.Engine PgTest.Engine.WorkerEngine

structure Cluster where
  manager : WorkerEngineManager
  /-- The names of the databases on the server. -/
  databases : Finset ReadString
  /-- Creations that were executed and that their task has not reported. -/
  made : List (Nat × ReadString)
  /-- Drops that a task has begun and that were not executed. -/
  begun : List CleanupDatabase

/-- What happens next. -/
inductive Happening
  | activity (activity : Activity)
  /-- The server executes a `CREATE DATABASE`. -/
  | create (databaseId : Nat) (databaseName : ReadString)
  /-- The server executes a `DROP DATABASE IF EXISTS`. -/
  | drop (request : CleanupDatabase)
  /-- Others change the server. -/
  | others (databases : Finset ReadString)

/-- The names that the results in the inbox bring. -/
def reportedNames (inbox : List Message) : List ReadString :=
  inbox.flatMap fun message => message.creates.map Database.databaseName

/-- The server executes a `CREATE DATABASE`; it refuses a name it knows. -/
def executeCreate (databases : Finset ReadString) (databaseName : ReadString) :
    Option (Finset ReadString) :=
  if databaseName ∈ databases then none else some (insert databaseName databases)

/-- The name that the activity reports created. -/
def Activity.reports : Activity → List ReadString
  | .work (.report _ _ (.ok databaseName)) => [databaseName]
  | _ => []

namespace WorkerEngineManager

/-- The creations that the tasks have not reported. -/
def owed (s : WorkerEngineManager) : List Nat := s.batches.flatMap Batch.pending

/-- The drop that an activity begins. -/
def begins (s : WorkerEngineManager) : Activity → List CleanupDatabase
  | .work .startDrop => s.cleanupInbox.head?.toList
  | _ => []

/-- The names in use, reported, or asked to be dropped. -/
def names (s : WorkerEngineManager) : Multiset ReadString :=
  s.engine.active.map Database.databaseName + (reportedNames s.inbox : List _) +
    (s.cleanupInbox.map CleanupDatabase.databaseName : List _)

end WorkerEngineManager

namespace Cluster

/-- A result says what the server did: `Ok` only for what was executed. -/
def truthful (s : Cluster) : Activity → Bool
  | .work (.report batch index (.ok databaseName)) =>
    s.manager.batches[batch]?.any fun task =>
      decide ((task.request.firstDatabaseId + index, databaseName) ∈ s.made)
  | .work (.finishDrop drop (.ok ())) =>
    s.manager.drops[drop]?.any fun request => decide (request ∉ s.begun)
  | _ => true

/-- The names that the manager has to do with. -/
def names (s : Cluster) : Multiset ReadString :=
  s.manager.names + (s.made.map Prod.snd : List _) +
    (s.begun.map CleanupDatabase.databaseName : List _)

def act (s : Cluster) : Happening → Option Cluster
  | .activity activity =>
    if s.truthful activity then
      (s.manager.act activity).map fun manager =>
        { s with
          manager := manager
          made := s.made.filter fun creation => creation.1 ∈ manager.owed
          begun := s.begun ++ s.manager.begins activity }
    else none
  | .create databaseId databaseName =>
    if databaseId ∈ s.manager.owed ∧ databaseId ∉ s.made.map Prod.fst then
      (executeCreate s.databases databaseName).map fun databases =>
        { s with databases := databases, made := s.made ++ [(databaseId, databaseName)] }
    else none
  | .drop request =>
    if request ∈ s.begun then
      some { s with
        databases := s.databases.erase request.databaseName
        begun := s.begun.erase request }
    else none
  | .others databases =>
    if ∀ databaseName ∈ s.names, databaseName ∈ databases then
      some { s with databases := databases }
    else none

/-- Every name is one of its own, and on the server. -/
structure Kept (s : Cluster) : Prop where
  nodup : s.names.Nodup
  known : ∀ databaseName ∈ s.names, databaseName ∈ s.databases

end Cluster

/-- The manager and its server, once the server has executed the creations of `try_init`
in some order.  Nobody but the manager drops a database of its names, also not a client
with the SQL that is relayed for it (`Happening.others`). -/
def cluster (config : WorkerEngineConfig) : Machine Cluster Happening where
  init s := (manager config).init s.manager ∧ s.made = [] ∧ s.begun = [] ∧
    ∃ (databaseNames : List ReadString) (before : Finset ReadString),
      (databaseNames : Multiset ReadString) = s.manager.engine.active.map Database.databaseName ∧
      databaseNames.foldlM executeCreate before = some s.databases
  step s happening t := (∀ activity, happening = .activity activity →
    (manager config).step s.manager activity t.manager) ∧ s.act happening = some t

namespace Cluster

variable {config : WorkerEngineConfig} {s t : Cluster}

/-! ### The names -/

theorem reportedNames_append (inbox messages : List Message) :
    reportedNames (inbox ++ messages) = reportedNames inbox ++ reportedNames messages :=
  List.flatMap_append

theorem reportedNames_external {messages : List Message}
    (h : ∀ message ∈ messages, External message = true) : reportedNames messages = [] := by
  refine List.flatMap_eq_nil_iff.mpr fun message hm => ?_
  cases message with
  | databaseWorker _ | shutdown => exact absurd (h _ hm) Bool.false_ne_true
  | attachOrJoin _ _ _ | releaseLease _ _ | detach _ _ | leaseMaxTimeReached _ _ => rfl

/-- The cleanups that a worker gets are among those that go out of use. -/
theorem asked_le (new : List (Event ConsumerWorker)) :
    ((new.reverse.filterMap Event.asksCleanup).map CleanupDatabase.databaseName :
        Multiset ReadString) ≤
      (new.filterMap Event.retires : Multiset Database).map Database.databaseName := by
  have hsub : ∀ events : List (Event ConsumerWorker),
      ((events.filterMap Event.asksCleanup).map CleanupDatabase.databaseName).Sublist
        ((events.filterMap Event.retires).map Database.databaseName) := by
    intro events
    induction events with
    | nil => exact List.Sublist.refl _
    | cons event events ih =>
      cases event with
      | requestedCleanup request accepted =>
        cases accepted with
        | true => exact ih.cons_cons _
        | false => exact ih.cons _
      | reply _ _ _ _ _ | assigned _ _ _ | scheduled _ _ _ _ _ | cancelled _ | returned _ _ _
      | requestedCreation _ _ | created _ | creationFailed _ | cleaned _ | expired _ _
      | detached _ _ | grew => exact ih
  rw [Multiset.map_coe, List.filterMap_reverse, List.map_reverse, Multiset.coe_reverse]
  exact Multiset.coe_le.mpr (hsub new).subperm

/-- What is left of the creations is among them. -/
theorem made_le (made : List (Nat × ReadString)) (p : Nat × ReadString → Bool) :
    ((made.filter p).map Prod.snd : Multiset ReadString) ≤ (made.map Prod.snd : List ReadString) :=
  Multiset.coe_le.mpr (List.filter_sublist.map _).subperm

/-! ### What the manager does to them -/

end Cluster

open Cluster

namespace WorkerEngineManager

variable {config : WorkerEngineConfig} {s t : WorkerEngineManager}

/-- What a channel that takes all or nothing holds is no more than what was there and
what was sent. -/
theorem sendAll_le (runs : Bool) (queue requests : List CleanupDatabase) :
    ((sendAll runs queue requests).map CleanupDatabase.databaseName : Multiset ReadString) ≤
      (queue.map CleanupDatabase.databaseName : List _) +
        (requests.map CleanupDatabase.databaseName : List _) := by
  rw [sendAll]
  split
  · rw [List.map_append, ← Multiset.coe_add]
  · exact Multiset.le_add_right _ _

theorem reportedNames_message (message : Message) :
    (reportedNames [message] : Multiset ReadString) =
      (message.creates : Multiset Database).map Database.databaseName := by
  rw [reportedNames, List.flatMap_singleton]
  rfl

/-- **A message makes no name.** -/
theorem Handled.names {env : Env ConsumerWorker} {elapsed : Nat} {message : Message}
    {rest : List Message} {callers : System} (hr : (system config).Reachable s.toSystem)
    (h : s.Handled env elapsed t message rest callers) : t.names ≤ s.names := by
  obtain ⟨hok, hrest⟩ := h.spec hr
  have hb := system_balanced hr
  have hknown := hb.known message (h.inbox ▸ List.mem_cons_self)
  have hcreates : (message.creates : Multiset Database).map Database.databaseName =
    (reportedNames [message] : Multiset ReadString) := (reportedNames_message message).symm
  -- what goes out of use covers what is asked to be dropped
  have hflow : ∃ new, callers.engine.history = new ++ s.engine.history ∧
      callers.engine.active.map Database.databaseName +
          (new.filterMap Event.retires : Multiset Database).map Database.databaseName ≤
        s.engine.active.map Database.databaseName + (reportedNames [message] : List _) := by
    rcases processMessage_flows hb.inv hb.noIdle hknown hok with
      ⟨new, hnew, hactive⟩ | ⟨new, hnew, hactive⟩
    · refine ⟨new, hnew, ?_⟩
      rw [← Multiset.map_add, hactive, add_zero]
      exact Multiset.le_add_right _ _
    · refine ⟨new, hnew, ?_⟩
      rw [← Multiset.map_add, hactive, Multiset.map_add, hcreates]
  obtain ⟨new, hnew, hactive⟩ := hflow
  have hqueue : (t.cleanupInbox.map CleanupDatabase.databaseName : Multiset ReadString) ≤
      (s.cleanupInbox.map CleanupDatabase.databaseName : List _) +
        (new.filterMap Event.retires : Multiset Database).map Database.databaseName := by
    rw [h.after]
    simp only [hnew, news_append]
    exact (sendAll_le _ _ _).trans (add_le_add_right (asked_le new) _)
  have hinbox : (reportedNames s.inbox : Multiset ReadString) =
      (reportedNames [message] : List _) + (reportedNames t.inbox : List _) := by
    rw [h.inbox, h.after]
    show _ = _ + (reportedNames callers.inbox : Multiset ReadString)
    rw [hrest, Multiset.coe_add, ← reportedNames_append]
    rfl
  have hengine : t.engine = callers.engine := by rw [h.after]
  rw [WorkerEngineManager.names, WorkerEngineManager.names, hengine, hinbox]
  calc callers.engine.active.map Database.databaseName + (reportedNames t.inbox : List _) +
        (t.cleanupInbox.map CleanupDatabase.databaseName : List _)
    _ ≤ callers.engine.active.map Database.databaseName + (reportedNames t.inbox : List _) +
        ((s.cleanupInbox.map CleanupDatabase.databaseName : List _) +
          (new.filterMap Event.retires : Multiset Database).map Database.databaseName) :=
      add_le_add_right hqueue _
    _ = (callers.engine.active.map Database.databaseName +
          (new.filterMap Event.retires : Multiset Database).map Database.databaseName) +
        (reportedNames t.inbox : List _) +
        (s.cleanupInbox.map CleanupDatabase.databaseName : List _) := by abel
    _ ≤ s.engine.active.map Database.databaseName + (reportedNames [message] : List _) +
        (reportedNames t.inbox : List _) +
        (s.cleanupInbox.map CleanupDatabase.databaseName : List _) :=
      add_le_add_left (add_le_add_left hactive _) _
    _ = s.engine.active.map Database.databaseName +
        ((reportedNames [message] : List _) + (reportedNames t.inbox : List _)) +
        (s.cleanupInbox.map CleanupDatabase.databaseName : List _) := by abel

/-- The step makes only the name that it reports, and takes out that of the drop that it
begins. -/
def Adds (s t : WorkerEngineManager) (activity : Activity) : Prop :=
  t.names + ((s.begins activity).map CleanupDatabase.databaseName : List _) ≤
    s.names + (activity.reports : List _)

/-- The inbox got `messages`, and the rest has the names it had. -/
theorem adds_posted {activity : Activity} {messages : List Message} (he : t.engine = s.engine)
    (hi : t.inbox = s.inbox ++ messages) (hc : t.cleanupInbox = s.cleanupInbox)
    (hb : s.begins activity = []) (hm : reportedNames messages = activity.reports) :
    s.Adds t activity := by
  refine le_of_eq ?_
  rw [hb, WorkerEngineManager.names, WorkerEngineManager.names, he, hi, hc,
    reportedNames_append, ← Multiset.coe_add, hm, List.map_nil, Multiset.coe_nil]
  abel

/-- **A step makes only the name that it reports.** -/
theorem Did.adds {activity : Activity} (hr : (system config).Reachable s.toSystem)
    (h : s.Did activity t) : s.Adds t activity := by
  cases h with
  | call hc h =>
    obtain ⟨he, messages, hi, hm⟩ := call_posts hc h
    exact adds_posted he hi rfl rfl (reportedNames_external fun message hmem => (hm message hmem).1)
  | time ht h =>
    obtain ⟨_, _, _, hi | ⟨lease, generation, hi⟩⟩ := time_posts ht h
    · exact adds_posted rfl (hi.trans (List.append_nil _).symm) rfl rfl rfl
    · exact adds_posted rfl hi rfl rfl rfl
  | handle h => exact add_le_add_left (h.names hr) _
  | shutdown _ _ | endCreationWorker _ | endBatch _ _ | endDrop _ _ => exact le_refl _
  | endCleanupWorker _ =>
    exact add_le_add_left (add_le_add_right (Multiset.zero_le _) _) _
  | waited _ _ => exact adds_posted rfl rfl rfl rfl rfl
  | @work job workers hw h =>
    cases job with
    | post _ | handle _ => cases hw
    | startBatch =>
      rw [Workers.act, Workers.startBatch] at h
      split at h
      · cases h
      · split at h <;> cases h <;> exact le_refl _
    | report batch index result =>
      rw [Workers.act, Workers.report] at h
      split at h
      · cases h
      split at h
      · split at h <;> cases h
        refine adds_posted rfl rfl rfl rfl ?_
        cases result <;> rfl
      · cases h
    | startDrop =>
      rw [Workers.act, Workers.startDrop] at h
      split at h
      · cases h
      · rename_i request rest hi
        cases h
        have hi : s.cleanupInbox = request :: rest := hi
        have hqueue : (s.cleanupInbox.map CleanupDatabase.databaseName : Multiset ReadString) =
            (rest.map CleanupDatabase.databaseName : List _) + {request.databaseName} := by
          rw [hi, List.map_cons, ← Multiset.cons_coe, ← Multiset.singleton_add, add_comm]
        refine le_of_eq ?_
        rw [WorkerEngineManager.names, WorkerEngineManager.names, hqueue, begins, hi]
        exact (add_assoc _ _ _).trans (add_zero _).symm
    | finishDrop drop result =>
      rw [Workers.act, Workers.finishDrop] at h
      split at h <;> cases h
      exact adds_posted rfl rfl rfl rfl rfl

end WorkerEngineManager

namespace Cluster

variable {config : WorkerEngineConfig} {s t : Cluster}

/-! ### Names and the server -/

/-- What the server created is new, and there. -/
theorem executeCreate_all {databaseNames : List ReadString} :
    ∀ {before after : Finset ReadString}, databaseNames.foldlM executeCreate before = some after →
      databaseNames.Nodup ∧ before ⊆ after ∧
        ∀ databaseName ∈ databaseNames, databaseName ∉ before ∧ databaseName ∈ after := by
  induction databaseNames with
  | nil =>
    intro before after h
    cases h
    exact ⟨.nil, Finset.Subset.refl _, fun _ hm => absurd hm List.not_mem_nil⟩
  | cons databaseName databaseNames ih =>
    intro before after h
    obtain ⟨next, h1, h2⟩ := Option.bind_eq_some_iff.mp h
    rw [executeCreate] at h1
    split at h1 <;> cases h1
    rename_i hnew
    obtain ⟨hnodup, hsub, hall⟩ := ih h2
    have hin := Finset.mem_insert_self databaseName before
    refine ⟨List.nodup_cons.mpr ⟨fun hm => (hall _ hm).1 hin, hnodup⟩,
      (Finset.subset_insert _ _).trans hsub, fun name hm => ?_⟩
    rcases List.mem_cons.mp hm with rfl | hm
    · exact ⟨hnew, hsub hin⟩
    · exact ⟨fun hb => (hall name hm).1 (Finset.mem_insert_of_mem hb), (hall name hm).2⟩

theorem kept_of_init (h : (cluster config).init s) : s.Kept := by
  obtain ⟨⟨reports, engine, now, _, _, hstarted⟩, hmade, hbegun, databaseNames, before, hnames,
    hcreated⟩ := h
  have hall : s.names = (databaseNames : Multiset ReadString) := by
    rw [names, WorkerEngineManager.names, hmade, hbegun, hnames, hstarted]
    show engine.active.map Database.databaseName + 0 + 0 + 0 + 0 = _
    simp only [add_zero]
    rfl
  obtain ⟨hnodup, _, hin⟩ := executeCreate_all hcreated
  refine ⟨?_, fun databaseName hm => ?_⟩
  · rw [hall]
    exact hnodup
  · rw [hall] at hm
    exact (hin databaseName hm).2

theorem cluster_manager (h : (cluster config).Reachable s) :
    (Manager.manager config).Reachable s.manager := by
  refine h.invariant (I := fun s => (Manager.manager config).Reachable s.manager)
    (fun s hs => .of_init hs.1) fun s happening t _ hI ⟨hstep, hact⟩ => ?_
  cases happening with
  | activity activity => exact hI.step (hstep activity rfl)
  | create databaseId databaseName =>
    rw [act] at hact
    split at hact
    case isFalse => cases hact
    case isTrue =>
      obtain ⟨databases, _, rfl⟩ := Option.map_eq_some_iff.mp hact
      exact hI
  | drop request | others databases =>
    rw [act] at hact
    split at hact <;> cases hact
    exact hI

/-- **A creation is reported once.** -/
theorem not_owed_of_report (hr : (Manager.manager config).Reachable t.manager) {task : Batch}
    {batch index : Nat} {result : Except PostgresDDLClientError ReadString}
    (htask : s.manager.batches[batch]? = some task)
    (h : s.manager.Did (.work (.report batch index result)) t.manager) :
    task.request.firstDatabaseId + index ∉ t.manager.owed := by
  intro howed
  generalize ht : t.manager = manager at *
  cases h with
  | @work _ workers hw h =>
    have hserving : s.manager.phase = .serving := of_decide_eq_true hw
    have hworkers := ((manager_components hr).2.2 hserving).2.2.1
    have hnodup := (jobs_accounted hworkers).1.2
    rw [Workers.act, Workers.report] at h
    split at h
    · cases h
    rename_i found hfound
    rw [show s.manager.workers.batches[batch]? = some task from htask] at hfound
    cases hfound
    split at h
    case isFalse => cases h
    case isTrue hi =>
      rw [CreateDatabases.databaseIdAt] at h
      split at h
      · cases h
      rename_i databaseId hid
      cases h
      have hid : databaseId = task.request.firstDatabaseId + index := by
        split at hid
        · cases hid
        split at hid <;> cases hid
        rfl
      subst hid
      -- the result is in the inbox, so no task owes it any more
      have hinbox : task.request.firstDatabaseId + index ∈
          (s.manager.inbox ++ [EngineMessage.databaseWorker (.creationFinished
            (task.request.firstDatabaseId + index) result)]).filterMap createdId := by
        rw [List.filterMap_append]
        exact List.mem_append_right _ List.mem_cons_self
      rw [Workers.creations, add_assoc] at hnodup
      have hparts := (Multiset.nodup_add.mp (Multiset.nodup_add.mp hnodup).2.1).2.2
      exact Multiset.disjoint_left.mp hparts howed hinbox

/-- A report takes its creation out of those that were made. -/
theorem made_reported (hr : (Manager.manager config).Reachable t.manager) {activity : Activity}
    (h : s.manager.Did activity t.manager) (htrue : s.truthful activity = true)
    (hm : t.made = s.made.filter fun creation => creation.1 ∈ t.manager.owed) :
    (t.made.map Prod.snd : Multiset ReadString) + (activity.reports : List _) ≤
      (s.made.map Prod.snd : List _) := by
  have hnone : activity.reports = [] → (t.made.map Prod.snd : Multiset ReadString) +
      (activity.reports : List _) ≤ (s.made.map Prod.snd : List _) := by
    intro hnone
    rw [hnone, hm, Multiset.coe_nil, add_zero]
    exact made_le _ _
  cases activity with
  | work job =>
    cases job with
    | report batch index result =>
      cases result with
      | error _ => exact hnone rfl
      | ok databaseName =>
        obtain ⟨task, htask, hmade⟩ := (Option.any_eq_true _ _).mp htrue
        have hmem := of_decide_eq_true hmade
        have hnot : (task.request.firstDatabaseId + index, databaseName) ∉ t.made := by
          rw [hm, List.mem_filter]
          intro hmem
          exact not_owed_of_report hr htask h (of_decide_eq_true hmem.2)
        have hle : (task.request.firstDatabaseId + index, databaseName) ::ₘ (t.made : Multiset _) ≤
            (s.made : List _) := by
          refine (Multiset.cons_le_of_notMem hnot).mpr ⟨hmem, ?_⟩
          rw [hm]
          exact Multiset.coe_le.mpr List.filter_sublist.subperm
        have hnames := Multiset.map_le_map (f := Prod.snd) hle
        rw [Multiset.map_cons, ← Multiset.singleton_add, add_comm] at hnames
        exact hnames
    | startBatch | startDrop | finishDrop _ _ | post _ | handle _ => exact hnone rfl
  | call _ | time _ | handle _ _ | shutdown | endCreationWorker | endCleanupWorker | endBatch _
  | endDrop _ | waited => exact hnone rfl

/-- **No step of the manager makes a name.** -/
theorem names_le {activity : Activity} (hr : (Manager.manager config).Reachable s.manager)
    (hr' : (Manager.manager config).Reachable t.manager) (h : s.act (.activity activity) = some t) :
    t.names ≤ s.names ∧ t.databases = s.databases := by
  rw [act] at h
  split at h
  case isFalse => cases h
  case isTrue htrue =>
    obtain ⟨next, hnext, rfl⟩ := Option.map_eq_some_iff.mp h
    refine ⟨?_, rfl⟩
    have hdid := WorkerEngineManager.did hnext
    have hadds := hdid.adds (manager_system hr)
    have hmade := made_reported hr' hdid htrue rfl
    rw [names, names]
    show next.names + ((s.made.filter _).map Prod.snd : List ReadString) +
      ((s.begun ++ s.manager.begins activity).map CleanupDatabase.databaseName : List _) ≤ _
    rw [List.map_append, ← Multiset.coe_add]
    calc next.names + ((s.made.filter fun creation => creation.1 ∈ next.owed).map Prod.snd :
            List ReadString) + ((s.begun.map CleanupDatabase.databaseName : List _) +
          ((s.manager.begins activity).map CleanupDatabase.databaseName : List _))
      _ = next.names + ((s.manager.begins activity).map CleanupDatabase.databaseName : List _) +
          ((s.made.filter fun creation => creation.1 ∈ next.owed).map Prod.snd : List _) +
          (s.begun.map CleanupDatabase.databaseName : List _) := by abel
      _ ≤ s.manager.names + (activity.reports : List _) +
          ((s.made.filter fun creation => creation.1 ∈ next.owed).map Prod.snd : List _) +
          (s.begun.map CleanupDatabase.databaseName : List _) :=
        add_le_add_left (add_le_add_left hadds _) _
      _ = s.manager.names + (((s.made.filter fun creation =>
            creation.1 ∈ next.owed).map Prod.snd : List _) + (activity.reports : List _)) +
          (s.begun.map CleanupDatabase.databaseName : List _) := by abel
      _ ≤ s.manager.names + (s.made.map Prod.snd : List _) +
          (s.begun.map CleanupDatabase.databaseName : List _) :=
        add_le_add_left (add_le_add_right hmade _) _

/-- **The names stay apart, and on the server.** -/
theorem cluster_kept (h : (cluster config).Reachable s) : s.Kept := by
  refine h.invariant (I := Kept) (fun s hs => kept_of_init hs) fun s happening t hr hI hstep => ?_
  have hr' := cluster_manager (hr.step hstep)
  have hact := hstep.2
  clear hstep
  cases happening with
  | activity activity =>
    obtain ⟨hle, hsame⟩ := names_le (cluster_manager hr) hr' hact
    refine ⟨Multiset.nodup_of_le hle hI.nodup, fun name hm => ?_⟩
    rw [hsame]
    exact hI.known name (Multiset.mem_of_le hle hm)
  | create databaseId databaseName =>
    rw [act] at hact
    split at hact
    case isFalse => cases hact
    obtain ⟨databases, hcreated, rfl⟩ := Option.map_eq_some_iff.mp hact
    rw [executeCreate] at hcreated
    split at hcreated <;> cases hcreated
    rename_i hnew
    have hnames : names { s with
        databases := insert databaseName s.databases
        made := s.made ++ [(databaseId, databaseName)] } = databaseName ::ₘ s.names := by
      rw [names, names, List.map_append, ← Multiset.coe_add, ← Multiset.singleton_add]
      show _ + (_ + ({databaseName} : Multiset ReadString)) + _ = _
      abel
    refine ⟨?_, fun name hm => ?_⟩
    · rw [hnames]
      exact Multiset.nodup_cons.mpr ⟨fun hm => hnew (hI.known _ hm), hI.nodup⟩
    · rw [hnames] at hm
      rcases Multiset.mem_cons.mp hm with rfl | hm
      · exact Finset.mem_insert_self _ _
      · exact Finset.mem_insert_of_mem (hI.known name hm)
  | drop request =>
    rw [act] at hact
    split at hact <;> cases hact
    rename_i hbegun
    have hnames : s.names = request.databaseName ::ₘ names { s with
        databases := s.databases.erase request.databaseName
        begun := s.begun.erase request } := by
      have hpart : (s.begun.map CleanupDatabase.databaseName : Multiset ReadString) =
          request.databaseName ::ₘ
            ((s.begun.erase request).map CleanupDatabase.databaseName : List _) :=
        Multiset.coe_eq_coe.mpr ((List.perm_cons_erase hbegun).map _)
      rw [names, names, hpart, Multiset.add_cons]
    have hnodup := hI.nodup
    rw [hnames, Multiset.nodup_cons] at hnodup
    refine ⟨hnodup.2, fun name hm => Finset.mem_erase.mpr ⟨?_, ?_⟩⟩
    · rintro rfl
      exact hnodup.1 hm
    · exact hI.known name (hnames ▸ Multiset.mem_cons_of_mem hm)
  | others databases =>
    rw [act] at hact
    split at hact <;> cases hact
    rename_i hall
    exact ⟨hI.nodup, hall⟩

/-- A database in use is known by its name. -/
theorem mem_names {database : Database} (h : database ∈ s.manager.engine.active) :
    database.databaseName ∈ s.manager.engine.active.map Database.databaseName :=
  Multiset.mem_map_of_mem _ h

/-- What is leased is in use. -/
theorem mem_active_of_owned {session : LeaseSession} {database : Database}
    (h : s.manager.toSystem.owned session = some database) :
    database ∈ s.manager.engine.active := by
  obtain ⟨entry, hl, _, rfl⟩ := System.owned_eq_some.mp h
  exact Multiset.mem_add.mpr (Or.inr (mem_image.mpr ⟨_, entry, hl, rfl⟩))

/-- The databases in use are among the names. -/
theorem active_names_le (s : Cluster) :
    s.manager.engine.active.map Database.databaseName ≤ s.names := by
  refine le_trans ?_ (Multiset.le_add_right _ _)
  refine le_trans ?_ (Multiset.le_add_right _ _)
  exact (Multiset.le_add_right _ _).trans (Multiset.le_add_right _ _)

theorem Kept.active_nodup (h : s.Kept) :
    (s.manager.engine.active.map Database.databaseName).Nodup :=
  Multiset.nodup_of_le s.active_names_le h.nodup

theorem Kept.active_known (h : s.Kept) {database : Database}
    (hd : database ∈ s.manager.engine.active) : database.databaseName ∈ s.databases :=
  h.known _ (Multiset.mem_of_le s.active_names_le (mem_names hd))

/-- No drop that may still be executed is one of a database in use. -/
theorem Kept.undropped (h : s.Kept) {database : Database}
    (hd : database ∈ s.manager.engine.active) {request : CleanupDatabase}
    (hreq : request ∈ s.manager.cleanupInbox ++ s.begun) :
    request.databaseName ≠ database.databaseName := by
  intro heq
  have hnodup := h.nodup
  rw [Cluster.names, WorkerEngineManager.names] at hnodup
  rcases List.mem_append.mp hreq with hq | hq
  · have hparts := (Multiset.nodup_add.mp (Multiset.nodup_add.mp (Multiset.nodup_add.mp
      hnodup).1).1).2.2
    refine Multiset.disjoint_left.mp hparts (Multiset.mem_add.mpr (Or.inl (mem_names hd))) ?_
    exact Multiset.mem_coe.mpr (List.mem_map.mpr ⟨request, hq, heq⟩)
  · have hparts := (Multiset.nodup_add.mp hnodup).2.2
    refine Multiset.disjoint_left.mp hparts (Multiset.mem_add.mpr (Or.inl ?_))
      (Multiset.mem_coe.mpr (List.mem_map.mpr ⟨request, hq, heq⟩))
    exact Multiset.mem_add.mpr (Or.inl (Multiset.mem_add.mpr (Or.inl (mem_names hd))))

/-- While its token is live, a session has its database. -/
theorem Kept.session_known (h : s.Kept) (hr : (system config).Reachable s.manager.toSystem)
    (hrun : s.manager.engine.rootCancelled = false) {session : LeaseSession}
    (hs : s.manager.toSystem.Holds session)
    (hlive : s.manager.engine.isCancelled session.cancellation = false) :
    ∃ database ∈ s.manager.engine.active, s.manager.toSystem.owned session = some database ∧
      database.databaseName = session.databaseName ∧ session.databaseName ∈ s.databases := by
  obtain ⟨database, howned⟩ := Option.isSome_iff_exists.mp ((session_live_iff hr hrun hs).mp hlive)
  have hd := mem_active_of_owned howned
  have hname := owned_name hr hrun hs howned
  exact ⟨database, hd, howned, hname, hname ▸ h.active_known hd⟩

end Cluster

open Cluster

/-- **A database in use is on the server.**  Whatever the tasks, the callers and the
shutdown do, and whenever the server executes what it was asked for: the databases that
are ready or leased have names of their own, are on the server, and no drop that was
asked for and may still be executed is one of theirs.  So is that of a session as long
as its token is live. -/
theorem databases_survive {config : WorkerEngineConfig} {s : Cluster}
    (h : (cluster config).Reachable s) :
    (s.manager.engine.active.map Database.databaseName).Nodup ∧
    (∀ database ∈ s.manager.engine.active, database.databaseName ∈ s.databases ∧
      ∀ request ∈ s.manager.cleanupInbox ++ s.begun,
        request.databaseName ≠ database.databaseName) ∧
    (s.manager.engine.rootCancelled = false → ∀ session, s.manager.toSystem.Holds session →
      s.manager.engine.isCancelled session.cancellation = false →
      session.databaseName ∈ s.databases) := by
  have hkept := cluster_kept h
  refine ⟨hkept.active_nodup, fun database hd => ⟨hkept.active_known hd, fun request hreq =>
    hkept.undropped hd hreq⟩, fun hrun session hs hlive => ?_⟩
  obtain ⟨_, _, _, _, hknown⟩ :=
    hkept.session_known (manager_system (cluster_manager h)) hrun hs hlive
  exact hknown

/-! ### A small server -/

namespace ClusterSample

open Engine.Sample (settings reports)

/-- The engine reads the clock at once. -/
def timed (s : WorkerEngineManager) : Happening → Happening
  | .activity (.handle env elapsed) =>
    .activity (.handle { env with now := fun _ => s.now } elapsed)
  | happening => happening

def step (s : Cluster) (happening : Happening) : Option Cluster :=
  if s.manager.engine.rootCancelled = false ∧ s.manager.busy ≤ s.manager.now then
    s.act (timed s.manager happening)
  else none

theorem timed_onTime {s : WorkerEngineManager} {happening : Happening} {activity : Activity}
    (h : s.busy ≤ s.now) (heq : timed s happening = .activity activity) : s.OnTime activity := by
  cases activity with
  | handle env elapsed =>
    cases happening with
    | activity activity =>
      cases activity with
      | handle _ _ =>
        cases heq
        exact ⟨h, fun _ => ⟨le_refl _, Nat.le_add_right _ _⟩⟩
      | call _ | work _ | time _ | shutdown | endCreationWorker | endCleanupWorker | endBatch _
      | endDrop _ | waited => cases heq
    | create _ _ | drop _ | others _ => cases heq
  | call _ | work _ | time _ | shutdown | endCreationWorker | endCleanupWorker | endBatch _
  | endDrop _ | waited => trivial

theorem timed_step {s t : Cluster} {happening : Happening} (h : step s happening = some t) :
    (cluster settings).step s (timed s.manager happening) t := by
  rw [step] at h
  split at h
  case isFalse => cases h
  case isTrue hp =>
    refine ⟨fun activity heq => ?_, h⟩
    refine ⟨hp.1, timed_onTime hp.2 heq, ?_⟩
    rw [heq, Cluster.act] at h
    split at h
    case isFalse => cases h
    case isTrue =>
      obtain ⟨next, hnext, rfl⟩ := Option.map_eq_some_iff.mp h
      exact hnext

/-- The server after `start_workers`, with a database of somebody else. -/
def start (engine : WorkerEngine ConsumerWorker) : Cluster where
  manager := .started engine 0
  databases := {"second", "first", "postgres"}
  made := []
  begun := []

def after (happenings : List Happening) : Option Cluster :=
  match (WorkerEngine.new settings).tryInit reports with
  | .ok (.ok (), engine) =>
    if (["first", "second"] : List _) = engine.active.map Database.databaseName then
      happenings.foldlM step (start engine)
    else none
  | _ => none

theorem start_init {engine : WorkerEngine ConsumerWorker}
    (he : (WorkerEngine.new settings).tryInit reports = .ok (.ok (), engine))
    (hnames : (["first", "second"] : List _) = engine.active.map Database.databaseName) :
    (cluster settings).init (start engine) :=
  ⟨⟨reports, engine, 0, .refl _, he, rfl⟩, rfl, rfl, _, {"postgres"}, hnames, rfl⟩

theorem reachable_after {happenings : List Happening} {s : Cluster}
    (h : after happenings = some s) : (cluster settings).Reachable s := by
  rw [after] at h
  split at h
  case h_2 => cases h
  case h_1 engine he =>
    split at h
    case isFalse => cases h
    case isTrue hnames =>
      exact .of_foldlM (fun _ _ _ hr hstep => hr.step (timed_step hstep))
        (.of_init (start_init he hnames)) h

/-- While the second lease waits, the database of the first one is dropped and a third
one is created. -/
def happenings : List Happening :=
  (ManagerSample.activities.take 11).map .activity ++
    [.activity (.work .startDrop), .create 3 "third", .drop ⟨1, "first"⟩,
      .activity (.work (.finishDrop 0 (.ok ()))), .activity (.work (.report 0 0 (.ok "third")))]

end ClusterSample

/-- The database of a lease that was released is gone while the result of the next one is
in the inbox. -/
theorem databases_survive_small : ∃ s, (cluster Engine.Sample.settings).Reachable s ∧
    s.databases = {"second", "third", "postgres"} ∧ s.manager.inbox.length = 2 ∧
    ∀ database ∈ s.manager.engine.active, database.databaseName ∈ s.databases := by
  have hrun : ((ClusterSample.after ClusterSample.happenings).any fun s =>
      decide (s.databases = {"second", "third", "postgres"} ∧ s.manager.inbox.length = 2)) =
        true := by decide
  obtain ⟨s, hs, hp⟩ := (Option.any_eq_true _ _).mp hrun
  obtain ⟨h1, h2⟩ := of_decide_eq_true hp
  have hreach := ClusterSample.reachable_after hs
  exact ⟨s, hreach, h1, h2, fun database hd => ((databases_survive hreach).2.1 database hd).1⟩

end PgTest.Manager
