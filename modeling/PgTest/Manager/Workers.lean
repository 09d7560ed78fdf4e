import PgTest.Engine.Jobs

/-!
# The database workers

The engine with `DatabaseCreationWorker` and `DatabaseCleanupWorker`, each behind an
unbounded channel.  A worker takes one request after the other and spawns a task for
it; the tasks run side by side and end in any order.  The task of a batch reports one
result for each index, in any order, and the task of a cleanup reports once; results
go to the inbox of the engine, where callers and timers post as well.

The channels are open and nobody asks for a shutdown.  `failed` is not part of the
source: it lists the databases whose drop was reported failed.
-/

namespace PgTest.Manager

open PgTest.Lib PgTest.Engine PgTest.Engine.WorkerEngine

variable {C : Type}

/-- The task of a batch, with the indices it has not reported. -/
structure Batch where
  request : CreateDatabases
  unreported : List Nat
  deriving DecidableEq

structure Workers (C : Type) where
  engine : WorkerEngine C
  inbox : List (EngineMessage C)
  creationInbox : List CreateDatabases
  batches : List Batch
  cleanupInbox : List CleanupDatabase
  drops : List CleanupDatabase
  failed : List Nat

/-- What callers and timers post: no result of a worker, and no `Shutdown`. -/
def External : EngineMessage C → Bool
  | .databaseWorker _ | .shutdown => false
  | _ => true

/-- The database whose drop the message reports failed. -/
def failedDrop : EngineMessage C → List Nat
  | .databaseWorker (.cleanupFinished databaseId (.error _)) => [databaseId]
  | _ => []

/-- Who does what next. -/
inductive Job (C : Type)
  | post (message : EngineMessage C)
  /-- The engine takes the next message from its inbox. -/
  | handle (env : Env C)
  /-- The creation worker takes the next request. -/
  | startBatch
  /-- `on_finished` of a batch, for one of its indices. -/
  | report (batch index : Nat) (result : Except PostgresDDLClientError ReadString)
  /-- The cleanup worker takes the next request. -/
  | startDrop
  /-- `drop_database` returns. -/
  | finishDrop (drop : Nat) (result : Except PostgresDDLClientError Unit)

namespace Workers

/-- The engine handles a message; what it asks for goes to the channels of the workers,
in the order in which it asks. -/
def handle (env : Env C) (s : Workers C) : Option (Workers C) :=
  match s.inbox with
  | [] => none
  | message :: rest =>
    match s.engine.processMessage env.connected message with
    | .error _ => none
    | .ok engine =>
      let events := (news engine.history s.engine.history).reverse
      some { s with
        engine := engine
        inbox := rest
        creationInbox := s.creationInbox ++ events.filterMap Event.asksCreation
        cleanupInbox := s.cleanupInbox ++ events.filterMap Event.asksCleanup
        failed := failedDrop message ++ s.failed }

/-- One turn of `DatabaseCreationWorker::run`. -/
def startBatch (s : Workers C) : Option (Workers C) :=
  match s.creationInbox with
  | [] => none
  | request :: rest =>
    if request.amount = 0 then some { s with creationInbox := rest }
    else some { s with
      creationInbox := rest
      batches := s.batches ++ [⟨request, List.range request.amount⟩] }

/-- The task of a batch reports one of the results it owes. -/
def report (batch index : Nat) (result : Except PostgresDDLClientError ReadString)
    (s : Workers C) : Option (Workers C) :=
  match s.batches[batch]? with
  | none => none
  | some task =>
    if index ∈ task.unreported then
      match task.request.databaseIdAt index with
      | .error _ => none
      | .ok databaseId => some { s with
          batches := s.batches.set batch ⟨task.request, task.unreported.erase index⟩
          inbox := s.inbox ++ [.databaseWorker (.creationFinished databaseId result)] }
    else none

/-- One turn of `DatabaseCleanupWorker::run`. -/
def startDrop (s : Workers C) : Option (Workers C) :=
  match s.cleanupInbox with
  | [] => none
  | request :: rest => some { s with cleanupInbox := rest, drops := s.drops ++ [request] }

/-- The task of a cleanup ends with its result. -/
def finishDrop (drop : Nat) (result : Except PostgresDDLClientError Unit) (s : Workers C) :
    Option (Workers C) :=
  match s.drops[drop]? with
  | none => none
  | some request => some { s with
      drops := s.drops.eraseIdx drop
      inbox := s.inbox ++ [.databaseWorker (.cleanupFinished request.databaseId result)] }

def act (s : Workers C) : Job C → Option (Workers C)
  | .post message =>
    if External message then some { s with inbox := s.inbox ++ [message] } else none
  | .handle env => s.handle env
  | .startBatch => s.startBatch
  | .report batch index result => s.report batch index result
  | .startDrop => s.startDrop
  | .finishDrop drop result => s.finishDrop drop result

end Workers

/-- The engine after a successful `try_init` for which the client reported one result
for each index, with its workers. -/
def workers (C : Type) (config : WorkerEngineConfig) : Machine (Workers C) (Job C) where
  init s := (∃ reports, (reports.map Prod.fst).Perm (List.range config.initialSlots) ∧
      (WorkerEngine.new config).tryInit reports = .ok (.ok (), s.engine)) ∧
    s.inbox = [] ∧ s.creationInbox = [] ∧ s.batches = [] ∧ s.cleanupInbox = [] ∧
    s.drops = [] ∧ s.failed = []
  step s job t := s.engine.rootCancelled = false ∧ s.act job = some t

/-! ### Where the jobs are -/

/-- The identifier of a creation that a message reports. -/
def createdId : EngineMessage C → Option Nat
  | .databaseWorker (.creationFinished databaseId _) => some databaseId
  | _ => none

/-- The identifier of a cleanup that a message reports. -/
def cleanedId : EngineMessage C → Option Nat
  | .databaseWorker (.cleanupFinished databaseId _) => some databaseId
  | _ => none

/-- What a batch has not reported. -/
def Batch.pending (batch : Batch) : List Nat :=
  batch.unreported.map (batch.request.firstDatabaseId + ·)

namespace Workers

/-- The creations under way: queued, running, or reported and not yet handled. -/
def creations (s : Workers C) : Multiset Nat :=
  (s.creationInbox.flatMap CreateDatabases.numbers : List Nat) +
    (s.batches.flatMap Batch.pending : List Nat) + (s.inbox.filterMap createdId : List Nat)

/-- The cleanups under way: queued, running, reported and not yet handled, or failed. -/
def cleanups (s : Workers C) : Multiset Nat :=
  (s.cleanupInbox.map CleanupDatabase.databaseId : List Nat) +
    (s.drops.map CleanupDatabase.databaseId : List Nat) +
    (s.inbox.filterMap cleanedId : List Nat) + (s.failed : List Nat)

/-- **The jobs are where they should be.** -/
structure Balanced (s : Workers C) : Prop where
  creating : s.engine.inventory.creating.val = s.creations
  retiring : s.engine.inventory.retiring.keys.val = s.cleanups
  indices : ∀ batch ∈ s.batches, ∀ index ∈ batch.unreported, index < batch.request.amount

variable {s t : Workers C}

theorem mem_creations {databaseId : Nat} {result : Except PostgresDDLClientError ReadString}
    (h : EngineMessage.databaseWorker (.creationFinished databaseId result) ∈ s.inbox) :
    databaseId ∈ s.creations := by
  refine Multiset.mem_add.mpr (Or.inr ?_)
  exact Multiset.mem_coe.mpr (List.mem_filterMap.mpr ⟨_, h, rfl⟩)

theorem mem_cleanups {databaseId : Nat} {result : Except PostgresDDLClientError Unit}
    (h : EngineMessage.databaseWorker (.cleanupFinished databaseId result) ∈ s.inbox) :
    databaseId ∈ s.cleanups := by
  refine Multiset.mem_add.mpr (Or.inl (Multiset.mem_add.mpr (Or.inr ?_)))
  exact Multiset.mem_coe.mpr (List.mem_filterMap.mpr ⟨_, h, rfl⟩)

/-- The engine waits for every result in its inbox. -/
theorem Balanced.accepted (h : s.Balanced) {message : DatabaseWorkerMessages}
    (hm : EngineMessage.databaseWorker message ∈ s.inbox) : message.Accepted s.engine := by
  cases message with
  | creationFinished databaseId result =>
    have hmem : databaseId ∈ s.engine.inventory.creating.val := by
      rw [h.creating]
      exact mem_creations hm
    exact hmem
  | cleanupFinished databaseId result =>
    have hmem : databaseId ∈ s.engine.inventory.retiring.keys.val := by
      rw [h.retiring]
      exact mem_cleanups hm
    exact Finmap.mem_keys.mp hmem

/-! ### What a step does -/

theorem created_eq (message : EngineMessage C) :
    ([message].filterMap createdId : Multiset Nat) = message.settles := by
  cases message with
  | databaseWorker message => cases message <;> rfl
  | attachOrJoin _ _ _ | releaseLease _ _ | detach _ _ | leaseMaxTimeReached _ _ | shutdown => rfl

theorem cleaned_eq (message : EngineMessage C) :
    ([message].filterMap cleanedId : Multiset Nat) = message.cleans + failedDrop message := by
  cases message with
  | databaseWorker message =>
    cases message with
    | creationFinished databaseId result => rfl
    | cleanupFinished databaseId result => cases result <;> rfl
  | attachOrJoin _ _ _ | releaseLease _ _ | detach _ _ | leaseMaxTimeReached _ _ | shutdown => rfl

theorem creationsAsked_reverse (events : List (Event C)) :
    creationsAsked events.reverse = creationsAsked events :=
  Multiset.coe_eq_coe.mpr (((List.reverse_perm events).filterMap _).flatMap_right _)

theorem cleanupsAsked_reverse (events : List (Event C)) :
    cleanupsAsked events.reverse = cleanupsAsked events :=
  Multiset.coe_eq_coe.mpr (((List.reverse_perm events).filterMap _).map _)

/-- **Handling a message moves its job out of the inbox**, and those it asks for into
the channels. -/
theorem Balanced.handle {config : WorkerEngineConfig} {env : Env C} (h : s.Balanced)
    (hr : (Engine.engine C config).Reachable s.engine) (hok : s.handle env = some t) :
    t.Balanced := by
  rw [Workers.handle] at hok
  split at hok
  · cases hok
  rename_i message rest hi
  split at hok
  · cases hok
  rename_i next hnext
  have hin : ∀ result, message = .databaseWorker result → result.Accepted s.engine := by
    intro result he
    apply h.accepted
    rw [hi, he]
    exact List.mem_cons_self
  obtain ⟨hinv, hidle⟩ := engine_inv hr
  obtain ⟨new, hh, hc, hd⟩ := processMessage_jobs hinv hidle message.known_anyone hin hnext
  rw [hh, news_append] at hok
  cases hok
  have hinbox : s.inbox = [message] ++ rest := hi
  refine ⟨?_, ?_, h.indices⟩
  · have hcreating := h.creating
    rw [Workers.creations, hinbox, List.filterMap_append, ← Multiset.coe_add, created_eq]
      at hcreating
    apply add_right_cancel (b := message.settles)
    show next.inventory.creating.val + _ =
      ((s.creationInbox ++ new.reverse.filterMap Event.asksCreation).flatMap
        CreateDatabases.numbers : List Nat) + _ + _ + _
    rw [hc, hcreating, List.flatMap_append, ← Multiset.coe_add, ← creationsAsked,
      creationsAsked_reverse]
    abel
  · have hretiring := h.retiring
    rw [Workers.cleanups, hinbox, List.filterMap_append, ← Multiset.coe_add, cleaned_eq]
      at hretiring
    apply add_right_cancel (b := message.cleans)
    show next.inventory.retiring.keys.val + _ =
      ((s.cleanupInbox ++ new.reverse.filterMap Event.asksCleanup).map
        CleanupDatabase.databaseId : List Nat) + _ + _ +
        (failedDrop message ++ s.failed : List Nat) + _
    rw [hd, hretiring, List.map_append, ← Multiset.coe_add, ← Multiset.coe_add, ← cleanupsAsked,
      cleanupsAsked_reverse]
    abel

theorem Balanced.post {message : EngineMessage C} (h : s.Balanced)
    (hok : s.act (.post message) = some t) : t.Balanced := by
  rw [Workers.act] at hok
  split at hok
  case isFalse => cases hok
  case isTrue he =>
    cases hok
    have hno : createdId message = none ∧ cleanedId message = none := by
      cases message with
      | attachOrJoin _ _ _ | releaseLease _ _ | detach _ _ | leaseMaxTimeReached _ _ =>
        exact ⟨rfl, rfl⟩
      | databaseWorker _ | shutdown => cases he
    refine ⟨?_, ?_, h.indices⟩
    · rw [h.creating]
      simp [Workers.creations, hno.1]
    · rw [h.retiring]
      simp [Workers.cleanups, hno.2]

theorem Balanced.startBatch (h : s.Balanced) (hok : s.startBatch = some t) : t.Balanced := by
  rw [Workers.startBatch] at hok
  split at hok
  · cases hok
  rename_i request rest hi
  split at hok
  case isTrue hz =>
    cases hok
    refine ⟨?_, h.retiring, h.indices⟩
    rw [h.creating]
    simp [Workers.creations, hi, CreateDatabases.numbers, hz]
  case isFalse =>
    cases hok
    refine ⟨?_, h.retiring, fun batch hb => ?_⟩
    · rw [h.creating, Workers.creations, Workers.creations, hi, List.flatMap_cons,
        List.flatMap_append, List.flatMap_singleton, ← Multiset.coe_add, ← Multiset.coe_add]
      show _ = _ + (_ + (request.numbers : Multiset Nat)) + _
      abel
    · rcases List.mem_append.mp hb with hb | hb
      · exact h.indices batch hb
      · rw [List.mem_singleton.mp hb]
        exact fun index => List.mem_range.mp

/-- A batch owes one result less. -/
theorem pending_erase {batch : Batch} {index : Nat} (hi : index ∈ batch.unreported) :
    (batch.pending : Multiset Nat) = {batch.request.firstDatabaseId + index} +
      (Batch.pending ⟨batch.request, batch.unreported.erase index⟩ : List Nat) :=
  Multiset.coe_eq_coe.mpr ((List.perm_cons_erase hi).map _)

/-- Replacing one part of a total. -/
theorem flatMap_set {α β : Type} (f : α → List β) (a b : α) : ∀ {l : List α} {i : Nat},
    l[i]? = some a → ((l.set i b).flatMap f : Multiset β) + f a = l.flatMap f + f b := by
  intro l
  induction l with
  | nil =>
    intro i h
    cases h
  | cons c l ih =>
    intro i h
    cases i with
    | zero =>
      cases h
      simp only [List.set_cons_zero, List.flatMap_cons, ← Multiset.coe_add]
      abel
    | succ i =>
      have hl := ih (i := i) h
      simp only [List.set_cons_succ, List.flatMap_cons, ← Multiset.coe_add] at hl ⊢
      rw [add_assoc, hl, add_assoc]

theorem Balanced.report {batch index : Nat} {result : Except PostgresDDLClientError ReadString}
    (h : s.Balanced) (hok : s.report batch index result = some t) : t.Balanced := by
  rw [Workers.report] at hok
  split at hok
  · cases hok
  rename_i task htask
  split at hok
  case isFalse => cases hok
  case isTrue hi =>
    have hlt := h.indices task (List.mem_of_getElem? htask) index hi
    rw [CreateDatabases.databaseIdAt, if_neg (by omega)] at hok
    by_cases hmax : u64Max < task.request.firstDatabaseId + index
    · rw [if_pos hmax] at hok
      cases hok
    rw [if_neg hmax] at hok
    cases hok
    refine ⟨?_, ?_, fun b hb i hbi => ?_⟩
    · have hset := flatMap_set Batch.pending task
        ⟨task.request, task.unreported.erase index⟩ htask
      rw [pending_erase hi] at hset
      have hpart : (s.batches.flatMap Batch.pending : Multiset Nat) =
          ((s.batches.set batch ⟨task.request, task.unreported.erase index⟩).flatMap
            Batch.pending : List Nat) + {task.request.firstDatabaseId + index} := by
        apply add_right_cancel
          (b := (Batch.pending ⟨task.request, task.unreported.erase index⟩ : Multiset Nat))
        rw [← hset, add_assoc]
      rw [h.creating, Workers.creations, Workers.creations, hpart, List.filterMap_append,
        ← Multiset.coe_add, created_eq]
      show _ = _ + _ + (_ + {task.request.firstDatabaseId + index})
      abel
    · rw [h.retiring]
      simp [Workers.cleanups, List.filterMap_cons, cleanedId]
    · rcases List.mem_or_eq_of_mem_set hb with hb | rfl
      · exact h.indices b hb i hbi
      · exact h.indices task (List.mem_of_getElem? htask) i (List.mem_of_mem_erase hbi)

theorem Balanced.startDrop (h : s.Balanced) (hok : s.startDrop = some t) : t.Balanced := by
  rw [Workers.startDrop] at hok
  split at hok
  · cases hok
  rename_i request rest hi
  cases hok
  refine ⟨h.creating, ?_, h.indices⟩
  rw [h.retiring, Workers.cleanups, Workers.cleanups, hi, List.map_cons, List.map_append,
    ← Multiset.cons_coe, ← Multiset.singleton_add, ← Multiset.coe_add]
  show _ = _ + (_ + {request.databaseId}) + _ + _
  abel

theorem Balanced.finishDrop {drop : Nat} {result : Except PostgresDDLClientError Unit}
    (h : s.Balanced) (hok : s.finishDrop drop result = some t) : t.Balanced := by
  rw [Workers.finishDrop] at hok
  split at hok
  · cases hok
  rename_i request hrequest
  cases hok
  refine ⟨?_, ?_, h.indices⟩
  · rw [h.creating]
    simp [Workers.creations, List.filterMap_cons, createdId]
  · obtain ⟨hlt, rfl⟩ := List.getElem?_eq_some_iff.mp hrequest
    have hdrops : (s.drops.map CleanupDatabase.databaseId : Multiset Nat) =
        {s.drops[drop].databaseId} +
          ((s.drops.eraseIdx drop).map CleanupDatabase.databaseId : List Nat) :=
      Multiset.coe_eq_coe.mpr ((List.getElem_cons_eraseIdx_perm hlt).symm.map _)
    rw [h.retiring, Workers.cleanups, Workers.cleanups, hdrops, List.filterMap_append,
      ← Multiset.coe_add]
    show _ = _ + _ + (_ + {s.drops[drop].databaseId}) + _
    abel

/-- **Every step keeps the balance.** -/
theorem Balanced.act {config : WorkerEngineConfig} {job : Job C} (h : s.Balanced)
    (hr : (Engine.engine C config).Reachable s.engine) (hok : s.act job = some t) :
    t.Balanced := by
  cases job with
  | post message => exact h.post hok
  | handle env => exact h.handle hr hok
  | startBatch => exact h.startBatch hok
  | report batch index result => exact h.report hok
  | startDrop => exact h.startDrop hok
  | finishDrop drop result => exact h.finishDrop hok

/-- The engine moves only when it handles a message. -/
theorem act_engine {job : Job C} (hok : s.act job = some t) : t.engine = s.engine ∨
    ∃ env message, s.engine.processMessage env message = .ok t.engine := by
  cases job with
  | handle env =>
    rw [Workers.act, Workers.handle] at hok
    split at hok
    · cases hok
    rename_i message rest _
    split at hok
    · cases hok
    rename_i next hnext
    cases hok
    exact Or.inr ⟨env.connected, message, hnext⟩
  | post message =>
    rw [Workers.act] at hok
    split at hok <;> cases hok
    exact Or.inl rfl
  | startBatch =>
    rw [Workers.act, Workers.startBatch] at hok
    split at hok
    · cases hok
    · split at hok <;> cases hok <;> exact Or.inl rfl
  | report batch index result =>
    rw [Workers.act, Workers.report] at hok
    split at hok
    · cases hok
    · split at hok
      · split at hok <;> cases hok
        exact Or.inl rfl
      · cases hok
  | startDrop =>
    rw [Workers.act, Workers.startDrop] at hok
    split at hok <;> cases hok
    exact Or.inl rfl
  | finishDrop drop result =>
    rw [Workers.act, Workers.finishDrop] at hok
    split at hok <;> cases hok
    exact Or.inl rfl

end Workers

/-! ### Startup -/

/-- A report of `try_init` settles its identifier. -/
theorem reportInitial_creating {request : CreateDatabases}
    {report : Nat × Except PostgresDDLClientError ReadString}
    {acc acc' : Option PostgresDDLClientError × WorkerEngine C}
    (hok : reportInitial request acc report = .ok acc') :
    acc.2.inventory.creating.val =
      {request.firstDatabaseId + report.1} + acc'.2.inventory.creating.val ∧
    acc'.2.inventory.retiring = acc.2.inventory.retiring := by
  obtain ⟨databaseId, h1, h2⟩ := bind_ok hok
  have hid : databaseId = request.firstDatabaseId + report.1 := by
    rw [CreateDatabases.databaseIdAt] at h1
    split at h1
    · cases h1
    · split at h1 <;> cases h1
      rfl
  subst hid
  by_cases hc : request.firstDatabaseId + report.1 ∈ acc.2.inventory.creating
  · have herase := (Multiset.cons_erase hc).symm
    rw [← Multiset.singleton_add, ← Finset.erase_val] at herase
    simp only [DatabaseInventory.completeCreation, if_pos hc] at h2
    cases hres : report.2 with
    | ok name =>
      rw [hres] at h2
      cases h2
      exact ⟨herase, rfl⟩
    | error error =>
      rw [hres] at h2
      cases h2
      exact ⟨herase, rfl⟩
  · simp only [DatabaseInventory.completeCreation, if_neg hc] at h2
    cases h2

theorem reportInitials_creating {request : CreateDatabases} :
    ∀ {reports : List (Nat × Except PostgresDDLClientError ReadString)}
      {acc acc' : Option PostgresDDLClientError × WorkerEngine C},
      reports.foldlM (reportInitial request) acc = .ok acc' →
      acc.2.inventory.creating.val = (reports.map fun report =>
        request.firstDatabaseId + report.1 : List Nat) + acc'.2.inventory.creating.val ∧
      acc'.2.inventory.retiring = acc.2.inventory.retiring := by
  intro reports
  induction reports with
  | nil =>
    intro acc acc' h
    cases h
    exact ⟨(zero_add _).symm, rfl⟩
  | cons report reports ih =>
    intro acc acc' h
    rw [List.foldlM_cons] at h
    obtain ⟨next, h1, h2⟩ := bind_ok h
    obtain ⟨hc, hr⟩ := reportInitial_creating h1
    obtain ⟨hcs, hrs⟩ := ih h2
    refine ⟨?_, hrs.trans hr⟩
    rw [hc, hcs, List.map_cons, ← Multiset.cons_coe, ← Multiset.singleton_add, add_assoc]

/-- **After `try_init` no job is under way.** -/
theorem tryInit_done {config : WorkerEngineConfig} {s : WorkerEngine C}
    {reports : List (Nat × Except PostgresDDLClientError ReadString)}
    {result : Except PostgresDDLClientError Unit}
    (hall : (reports.map Prod.fst).Perm (List.range config.initialSlots))
    (hok : (WorkerEngine.new config).tryInit reports = .ok (result, s)) :
    s.inventory.creating = ∅ ∧ s.inventory.retiring = ∅ := by
  rcases tryInit_cases hok with rfl | ⟨_, _, firstError, h1⟩
  · exact ⟨rfl, rfl⟩
  · obtain ⟨hc, hr⟩ := reportInitials_creating h1
    refine ⟨?_, hr⟩
    -- the reports are about the whole batch, so nothing is left of it
    have hbatch : (reports.map fun report => 1 + report.1 : Multiset Nat) =
        (CreateDatabases.mk 1 config.initialSlots).numbers := by
      have hperm := hall.map (1 + ·)
      rw [List.map_map] at hperm
      exact Multiset.coe_eq_coe.mpr hperm
    have hsum : (CreateDatabases.mk 1 config.initialSlots).ids.val =
        (reports.map fun report => 1 + report.1 : List Nat) + s.inventory.creating.val := hc
    rw [hbatch, CreateDatabases.ids_val] at hsum
    exact Finset.val_eq_zero.mp (add_left_cancel (hsum.symm.trans (add_zero _).symm))

/-! ### Runs -/

variable {config : WorkerEngineConfig} {s : Workers C}

theorem workers_balanced (h : (workers C config).Reachable s) :
    (engine C config).Reachable s.engine ∧ s.Balanced := by
  refine h.invariant (I := fun s => (engine C config).Reachable s.engine ∧ s.Balanced)
    (fun s hs => ?_) fun s job t _ hI hstep => ?_
  · obtain ⟨⟨reports, hall, hok⟩, hi, hci, hb, hcl, hd, hf⟩ := hs
    obtain ⟨hc, hr⟩ := tryInit_done hall hok
    refine ⟨.of_init ⟨reports, hok⟩, ?_, ?_, fun batch hbatch => ?_⟩
    · simp [hc, Workers.creations, hi, hci, hb]
    · simp [hr, Workers.cleanups, hi, hcl, hd, hf]
    · rw [hb] at hbatch
      exact absurd hbatch List.not_mem_nil
  · obtain ⟨hr, hb⟩ := hI
    refine ⟨?_, hb.act hr hstep.2⟩
    rcases Workers.act_engine hstep.2 with he | ⟨env, message, hok⟩
    · rw [he]
      exact hr
    · exact hr.step (i := (env, message)) ⟨hstep.1, hok⟩

/-- **No job is lost, and none is counted twice.** -/
theorem jobs_accounted (h : (workers C config).Reachable s) :
    (s.engine.inventory.creating.val = s.creations ∧ s.creations.Nodup) ∧
    (s.engine.inventory.retiring.keys.val = s.cleanups ∧ s.cleanups.Nodup) ∧
    ∀ message, .databaseWorker message ∈ s.inbox → message.Accepted s.engine := by
  obtain ⟨_, hb⟩ := workers_balanced h
  refine ⟨⟨hb.creating, ?_⟩, ⟨hb.retiring, ?_⟩, fun message => hb.accepted⟩
  · rw [← hb.creating]
    exact s.engine.inventory.creating.nodup
  · rw [← hb.retiring]
    exact s.engine.inventory.retiring.keys.nodup

/-! ### A small system -/

namespace WorkersSample

open Engine.Sample (settings reports leaseA leaseB)

def step (s : Workers Nat) (job : Job Nat) : Option (Workers Nat) :=
  if s.engine.rootCancelled = false then s.act job else none

/-- The workers after `try_init` and then `jobs`. -/
def after (jobs : List (Job Nat)) : Option (Workers Nat) :=
  match (WorkerEngine.new settings).tryInit reports with
  | .ok (.ok (), engine) => jobs.foldlM step ⟨engine, [], [], [], [], [], []⟩
  | _ => none

theorem step_step (s : Workers Nat) (job : Job Nat) (t : Workers Nat) (h : step s job = some t) :
    (workers Nat settings).step s job t := by
  rw [step] at h
  split at h
  case isTrue hrun => exact ⟨hrun, h⟩
  case isFalse => cases h

theorem reachable_after {jobs : List (Job Nat)} {s : Workers Nat} (h : after jobs = some s) :
    (workers Nat settings).Reachable s := by
  rw [after] at h
  split at h
  case h_1 engine he =>
    exact .run (.of_init ⟨⟨reports, .refl _, he⟩, rfl, rfl, rfl, rfl, rfl, rfl⟩)
      (.of_foldlM step_step h)
  case h_2 => cases h

/-- Two leases take both databases and the first one is released.  The database that
the engine asks for meanwhile is created, and the drop fails. -/
def jobs : List (Job Nat) :=
  let handle : Job Nat := .handle Engine.Sample.env
  [.post (.attachOrJoin leaseA 0 0), .post (.attachOrJoin leaseB 1 0), handle, handle,
    .post (.releaseLease leaseA 2), .startBatch, handle, .startDrop, .report 0 0 (.ok "third"),
    .finishDrop 0 (.error (.operationFailed "in use"))]

end WorkersSample

/-- Both results are in the inbox. -/
theorem jobs_accounted_results : ∃ s, (workers Nat Engine.Sample.settings).Reachable s ∧
    s.inbox.length = 2 ∧ s.creations = {3} ∧ s.cleanups = {1} ∧
    ((s.engine.inventory.creating.val = s.creations ∧ s.creations.Nodup) ∧
      (s.engine.inventory.retiring.keys.val = s.cleanups ∧ s.cleanups.Nodup) ∧
      ∀ message, .databaseWorker message ∈ s.inbox → message.Accepted s.engine) := by
  have hrun : ((WorkersSample.after WorkersSample.jobs).any fun s =>
      decide (s.inbox.length = 2 ∧ s.creations = {3} ∧ s.cleanups = {1})) = true := by decide
  obtain ⟨s, hs, hp⟩ := (Option.any_eq_true _ _).mp hrun
  obtain ⟨h1, h2, h3⟩ := of_decide_eq_true hp
  have hreach := WorkersSample.reachable_after hs
  exact ⟨s, hreach, h1, h2, h3, jobs_accounted hreach⟩

end PgTest.Manager
