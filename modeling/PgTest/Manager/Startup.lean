import PgTest.Engine.Initialisation
import PgTest.Manager.Composition
import PgTest.Operations.Creation

/-!
# The start of the manager

`WorkerEngineManager::start`: the record limit, the start of `PostgresManager`, the
sweep of old databases, whose failure is only logged, and `try_init`, with the batch of
creations that it asks for.  `databases` is what the server has then.

Everything that the start may return is determined by the first of its checks that
fails, and what it returns is where the whole manager starts (`start_exact`).
-/

namespace PgTest.Manager

open PgTest.Lib PgTest.Engine PgTest.Engine.WorkerEngine PgTest.Operations

inductive StartError
  | invalidLeaseRecordLimit
  | postgres (error : PostgresClientError)
  | initialDatabaseCreation (error : PostgresDDLClientError)
  deriving DecidableEq, Repr

/-- Why `start` does not return a manager. -/
inductive NotStarted
  | error (error : StartError)
  | panic

/-- What `start` meets. -/
structure Surroundings where
  parallelTestId : Choices 4
  server : Server
  /-- Which drops of the sweep the server executes. -/
  drop : DatName → Bool
  /-- How the initial creations end. -/
  completions : List Creation
  now : Nat

/-- What `start` returns, with the names of the databases on the server. -/
structure Started where
  manager : WorkerEngineManager
  databases : List (List Char)

/-- What the sweep leaves on the server. -/
def swept (drop : DatName → Bool) (client : PostgresManager) (databases : List DatName) :
    List DatName :=
  match dropDdlTemplatesLike drop client databases with
  | none => databases
  | some (tried, _) => databases.filter fun database => !(decide (database ∈ tried) && drop database)

/-- `prepare_postgres`, with the databases that are left. -/
def preparePostgres (w : Surroundings) (config : PostgresConfig) :
    Except NotStarted (PostgresManager × List DatName) :=
  match Operations.start w.parallelTestId w.server config with
  | .error .panic => .error .panic
  | .error (.error error) => .error (.error (.postgres error))
  | .ok client => .ok (client, swept w.drop client w.server.databases)

/-- The name of a database that was created. -/
def reportedName : Report → Option (List Char)
  | (_, .ok databaseName) => some databaseName.toList
  | (_, .error _) => none

/-- `start_workers`, `none` where the initial creations are not over. -/
def startWorkers (w : Surroundings) (client : PostgresManager) (databases : List DatName)
    (config : WorkerEngineConfig) : Except NotStarted (Option Started) :=
  match createDatabases client config.initialSlots w.completions with
  | .error _ => .error .panic
  | .ok none => .ok none
  | .ok (some reports) =>
    match (WorkerEngine.new config).tryInit reports with
    | .error _ => .error .panic
    | .ok (.error error, _) => .error (.error (.initialDatabaseCreation error))
    | .ok (.ok (), engine) => .ok (some ⟨.started engine w.now,
        databases.map DatName.value ++ reports.filterMap reportedName⟩)

/-- `WorkerEngineManager::start`. -/
def start (w : Surroundings) (postgres : PostgresConfig) (config : WorkerEngineConfig) :
    Except NotStarted (Option Started) :=
  if config.maxLeaseRecords = 0 then .error (.error .invalidLeaseRecordLimit)
  else do
    let (client, databases) ← preparePostgres w postgres
    startWorkers w client databases config

/-! ### Each part -/

variable {w : Surroundings} {client : PostgresManager} {postgres : PostgresConfig}
  {config : WorkerEngineConfig} {databases : List DatName}

/-- The start of `PostgresManager` does not panic. -/
theorem operations_start_ne_panic (parallelTestId : Choices 4) (server : Server)
    (postgres : PostgresConfig) :
    Operations.start parallelTestId server postgres ≠ .error .panic := by
  intro h
  have hconnect : ∀ purpose, connectPool server postgres purpose ≠ .error .panic := by
    intro purpose h
    rw [connectPool] at h
    split at h <;> cases h
  rw [Operations.start] at h
  split at h
  · cases h
  split at h
  · cases h
  rcases bind_error h with h | ⟨_, _, h⟩
  · exact hconnect _ h
  rcases bind_error h with h | ⟨_, _, h⟩
  · rw [databaseExists] at h
    split at h
    · split at h
      · cases h
      · split at h <;> cases h
    · cases h
  rcases bind_error h with h | ⟨_, _, h⟩
  · rw [isValidVersion] at h
    split at h
    · cases h
    · dsimp only at h
      split at h
      · cases h
      · split at h <;> cases h
  rcases bind_error h with h | ⟨_, _, h⟩
  · exact hconnect _ h
  rw [new_eq] at h
  cases h

/-- With a connection to create with, a batch of creations does not panic. -/
theorem createDatabases_ok (hc : 0 < client.creationConcurrency) (amount : Nat)
    (completions : List Creation) :
    ∃ reports, createDatabases client amount completions = .ok reports := by
  rw [createDatabases, createDdlDatabases]
  split
  case isTrue => exact ⟨_, rfl⟩
  case isFalse =>
    rw [runBounded, if_pos hc]
    exact ⟨_, rfl⟩

/-- The engine after the initial creations, with its workers. -/
def Started.of (w : Surroundings) (databases : List DatName) (config : WorkerEngineConfig)
    (reports : List Report) : Started where
  manager := .started (initialised config reports) w.now
  databases := databases.map DatName.value ++ reports.filterMap reportedName

/-- **What `start_workers` returns**, by the first creation that was reported failed. -/
theorem startWorkers_eq (hslots : config.initialSlots ≤ u16Max) {reports : List Report}
    (hr : createDatabases client config.initialSlots w.completions = .ok (some reports)) :
    startWorkers w client databases config = match reports.findSome? Report.failure with
      | none => .ok (some (.of w databases config reports))
      | some error => .error (.error (.initialDatabaseCreation error)) := by
  have hmax : config.initialSlots ≤ u64Max := hslots.trans (by decide)
  have hinit := tryInit_eq (C := ConsumerWorker) hmax (createDatabases_indices hr).1
  simp only [startWorkers, hr, hinit]
  cases reports.findSome? Report.failure with
  | none => rfl
  | some error => rfl

theorem preparePostgres_ok {result : PostgresManager × List DatName} :
    preparePostgres w postgres = .ok result ↔
      Operations.start w.parallelTestId w.server postgres = .ok result.1 ∧
        result.2 = swept w.drop result.1 w.server.databases := by
  rw [preparePostgres]
  split
  case h_1 h => simp [h]
  case h_2 h => simp [h]
  case h_3 client h =>
    rw [h]
    constructor
    · rintro ⟨rfl⟩
      exact ⟨rfl, rfl⟩
    · rintro ⟨hclient, hswept⟩
      cases hclient
      rw [← hswept]

theorem preparePostgres_error {stopped : NotStarted} :
    preparePostgres w postgres = .error stopped ↔ ∃ error,
      Operations.start w.parallelTestId w.server postgres = .error (.error error) ∧
        stopped = .error (.postgres error) := by
  rw [preparePostgres]
  split
  case h_1 h => exact absurd h (operations_start_ne_panic _ _ _)
  case h_2 error h =>
    rw [h]
    constructor
    · rintro ⟨rfl⟩
      exact ⟨error, rfl, rfl⟩
    · rintro ⟨error', herror, rfl⟩
      cases herror
      rfl
  case h_3 client h => simp [h]

/-- The start up to the initial creations. -/
structure Prepared (w : Surroundings) (postgres : PostgresConfig) (config : WorkerEngineConfig)
    (client : PostgresManager) (reports : List Report) : Prop where
  limited : config.maxLeaseRecords ≠ 0
  connected : Operations.start w.parallelTestId w.server postgres = .ok client
  reported : createDatabases client config.initialSlots w.completions = .ok (some reports)

/-- **What `start` returns after the initial creations.** -/
theorem start_prepared (hslots : config.initialSlots ≤ u16Max) {reports : List Report}
    (h : Prepared w postgres config client reports) :
    start w postgres config = match reports.findSome? Report.failure with
      | none => .ok (some (.of w (swept w.drop client w.server.databases) config reports))
      | some error => .error (.error (.initialDatabaseCreation error)) := by
  have hprepared : preparePostgres w postgres =
      .ok (client, swept w.drop client w.server.databases) :=
    preparePostgres_ok.mpr ⟨h.connected, rfl⟩
  rw [start, if_neg h.limited, hprepared]
  exact startWorkers_eq hslots h.reported

/-- **How a start ends**: with one of its errors, before the initial creations are over,
or after them. -/
theorem start_cases (w : Surroundings) (postgres : PostgresConfig) (config : WorkerEngineConfig) :
    (config.maxLeaseRecords = 0 ∧
      start w postgres config = .error (.error .invalidLeaseRecordLimit)) ∨
    (∃ error, config.maxLeaseRecords ≠ 0 ∧
      Operations.start w.parallelTestId w.server postgres = .error (.error error) ∧
      start w postgres config = .error (.error (.postgres error))) ∨
    (∃ client, config.maxLeaseRecords ≠ 0 ∧
      Operations.start w.parallelTestId w.server postgres = .ok client ∧
      createDatabases client config.initialSlots w.completions = .ok none ∧
      start w postgres config = .ok none) ∨
    ∃ client reports, Prepared w postgres config client reports := by
  by_cases hrecords : config.maxLeaseRecords = 0
  · exact Or.inl ⟨hrecords, if_pos hrecords⟩
  refine Or.inr ?_
  have hstart : start w postgres config = preparePostgres w postgres >>= fun prepared =>
    startWorkers w prepared.1 prepared.2 config := if_neg hrecords
  cases hp : preparePostgres w postgres with
  | error stopped =>
    obtain ⟨error, herror, rfl⟩ := preparePostgres_error.mp hp
    exact Or.inl ⟨error, hrecords, herror, by rw [hstart, hp]; rfl⟩
  | ok prepared =>
    refine Or.inr ?_
    obtain ⟨hclient, _⟩ := preparePostgres_ok.mp hp
    obtain ⟨reports, hreports⟩ :=
      createDatabases_ok (start_concurrency hclient) config.initialSlots w.completions
    cases reports with
    | none =>
      refine Or.inl ⟨prepared.1, hrecords, hclient, hreports, ?_⟩
      rw [hstart, hp]
      show startWorkers w prepared.1 prepared.2 config = _
      simp only [startWorkers, hreports]
    | some reports => exact Or.inr ⟨prepared.1, reports, hrecords, hclient, hreports⟩

/-! ### What is created -/

/-- Every database that `create_databases` reports has a name that was generated for the
template. -/
theorem generated_of_created {template : List Char}
    (hclient : PostgresDatabaseName.new w.parallelTestId template =
      some client.templateDatabaseName) {attempt : Attempt} {databaseName : ReadString}
    (h : created client attempt = .ok databaseName) : Generated template databaseName.toList := by
  obtain ⟨id, acquired⟩ := attempt
  have hname :
      databaseName = String.ofList (client.templateDatabaseName.generateDatabaseName id) := by
    cases acquired with
    | error source => cases h
    | ok answer =>
      cases answer with
      | error source => cases h
      | ok _ =>
        cases h
        rfl
  rw [hname, String.toList_ofList]
  exact ⟨_, _, id, hclient, rfl⟩

/-- The databases of reports that all brought one. -/
theorem database_of_report {reports : List Report}
    (hall : ∀ report ∈ reports, ∃ databaseName, report.2 = .ok databaseName) :
    (reports.filterMap Report.database).map Database.databaseId =
      (reports.map Prod.fst).map (· + 1) := by
  induction reports with
  | nil => rfl
  | cons report reports ih =>
    obtain ⟨databaseName, hname⟩ := hall report List.mem_cons_self
    obtain ⟨index, result⟩ := report
    cases hname
    rw [List.filterMap_cons_some (rfl : Report.database (index, .ok databaseName) = some _),
      List.map_cons, ih fun other hm => hall other (List.mem_cons_of_mem _ hm)]
    rfl

/-- What a start brings: the whole manager, and so many databases for it. -/
structure Serves (postgres : PostgresConfig) (config : WorkerEngineConfig) (s : Started) :
    Prop where
  initial : (manager config).init s.manager
  numbered : (s.manager.engine.inventory.ready.map Database.databaseId).Perm
    (List.range' 1 config.initialSlots)
  /-- They are copies of the template, and on the server. -/
  created : ∀ database ∈ s.manager.engine.inventory.ready,
    Generated postgres.pgDatabase database.databaseName.toList ∧
      database.databaseName.toList ∈ s.databases

theorem serves_of_prepared (hslots : config.initialSlots ≤ u16Max) {reports : List Report}
    (h : Prepared w postgres config client reports)
    (hall : ∀ report ∈ reports, ∃ databaseName, report.2 = .ok databaseName) :
    Serves postgres config (.of w databases config reports) := by
  have hmax : config.initialSlots ≤ u64Max := hslots.trans (by decide)
  obtain ⟨horder, hcreated⟩ := createDatabases_indices h.reported
  have hnone : reports.findSome? Report.failure = none :=
    List.findSome?_eq_none_iff.mpr fun report hr => report.failure_none.mpr (hall report hr)
  have hinit := tryInit_eq (C := ConsumerWorker) hmax horder
  rw [hnone] at hinit
  refine ⟨⟨reports, _, w.now, horder, hinit, rfl⟩, ?_, fun database hd => ?_⟩
  · show ((reports.filterMap Report.database).map Database.databaseId).Perm _
    rw [database_of_report hall, List.range'_eq_map_range]
    refine (horder.map _).trans (.of_eq ?_)
    exact List.map_congr_left fun index _ => Nat.add_comm _ _
  · obtain ⟨⟨index, result⟩, hr, hdatabase⟩ := List.mem_filterMap.mp hd
    obtain ⟨databaseName, hname⟩ := hall _ hr
    cases hname
    cases hdatabase
    obtain ⟨attempt, hattempt⟩ := hcreated _ hr
    refine ⟨generated_of_created (start_ok h.connected).2 hattempt.symm, ?_⟩
    exact List.mem_append_right _ (List.mem_filterMap.mpr ⟨_, hr, rfl⟩)

/-- **What a start returns.**  `start` returns a manager exactly where the record limit
is positive, `PostgresManager` starts and every initial creation is reported created,
whatever becomes of the sweep.  Otherwise the first of these that fails is its error,
among the creations the first one that is reported, and it never panics.  The manager
that it returns is where the whole manager starts, with the initial slots ready under
the first identifiers, as databases that were generated for the template. -/
theorem start_exact (w : Surroundings) (postgres : PostgresConfig) (config : WorkerEngineConfig)
    (hslots : config.initialSlots ≤ u16Max) :
    (∀ s, start w postgres config = .ok (some s) ↔ ∃ client reports,
      Prepared w postgres config client reports ∧
      (∀ report ∈ reports, ∃ databaseName, report.2 = .ok databaseName) ∧
      s = .of w (swept w.drop client w.server.databases) config reports) ∧
    (∀ error, start w postgres config = .error (.error error) ↔
      (config.maxLeaseRecords = 0 ∧ error = .invalidLeaseRecordLimit) ∨
      (config.maxLeaseRecords ≠ 0 ∧ ∃ e, error = .postgres e ∧
        Operations.start w.parallelTestId w.server postgres = .error (.error e)) ∨
      ∃ client reports e, Prepared w postgres config client reports ∧
        reports.findSome? Report.failure = some e ∧ error = .initialDatabaseCreation e) ∧
    start w postgres config ≠ .error .panic ∧
    ∀ s, start w postgres config = .ok (some s) → Serves postgres config s := by
  have hall : ∀ {reports : List Report}, reports.findSome? Report.failure = none ↔
      ∀ report ∈ reports, ∃ databaseName, report.2 = .ok databaseName := by
    intro reports
    rw [List.findSome?_eq_none_iff]
    exact forall₂_congr fun report _ => report.failure_none
  have hsuccess : ∀ s, start w postgres config = .ok (some s) ↔ ∃ client reports,
      Prepared w postgres config client reports ∧
      (∀ report ∈ reports, ∃ databaseName, report.2 = .ok databaseName) ∧
      s = .of w (swept w.drop client w.server.databases) config reports := by
    intro s
    constructor
    · intro h
      rcases start_cases w postgres config with ⟨_, he⟩ | ⟨_, _, _, he⟩ | ⟨_, _, _, _, he⟩ |
        ⟨client, reports, hp⟩
      · exact absurd (h.symm.trans he) nofun
      · exact absurd (h.symm.trans he) nofun
      · exact absurd (h.symm.trans he) nofun
      · rw [start_prepared hslots hp] at h
        split at h <;> cases h
        rename_i hnone
        exact ⟨client, reports, hp, hall.mp hnone, rfl⟩
    · rintro ⟨client, reports, hp, hok, rfl⟩
      rw [start_prepared hslots hp, hall.mpr hok]
  refine ⟨hsuccess, fun error => ⟨fun h => ?_, ?_⟩, fun h => ?_, fun s h => ?_⟩
  · rcases start_cases w postgres config with ⟨hrecords, he⟩ | ⟨e, hrecords, hstart, he⟩ |
      ⟨_, _, _, _, he⟩ | ⟨client, reports, hp⟩
    · cases h.symm.trans he
      exact Or.inl ⟨hrecords, rfl⟩
    · cases h.symm.trans he
      exact Or.inr (Or.inl ⟨hrecords, e, rfl, hstart⟩)
    · exact absurd (h.symm.trans he) nofun
    · rw [start_prepared hslots hp] at h
      split at h <;> cases h
      rename_i e hfirst
      exact Or.inr (Or.inr ⟨client, reports, e, hp, hfirst, rfl⟩)
  · rintro (⟨hrecords, rfl⟩ | ⟨hrecords, e, rfl, hstart⟩ | ⟨client, reports, e, hp, hfirst, rfl⟩)
    · exact if_pos hrecords
    · rw [start, if_neg hrecords, preparePostgres_error.mpr ⟨e, hstart, rfl⟩]
      rfl
    · rw [start_prepared hslots hp, hfirst]
  · rcases start_cases w postgres config with ⟨_, he⟩ | ⟨_, _, _, he⟩ | ⟨_, _, _, _, he⟩ |
      ⟨client, reports, hp⟩
    · exact absurd (h.symm.trans he) nofun
    · exact absurd (h.symm.trans he) nofun
    · exact absurd (h.symm.trans he) nofun
    · rw [start_prepared hslots hp] at h
      split at h <;> cases h
  · obtain ⟨client, reports, hp, hok, rfl⟩ := (hsuccess s).mp h
    exact serves_of_prepared hslots hp hok

/-- A sweep that drops nothing, and a window of two creations, of which the second one
ends first. -/
def startSample : Surroundings where
  parallelTestId := PoolSample.letters
  server := Operations.Sample.postgres
  drop _ := false
  completions :=
    [(1, .replicate _ Operations.Sample.letter, .ok (.ok ())), (0, PoolSample.letters, .ok (.ok ()))]
  now := 0

/-- The first slot that is ready is the second one. -/
theorem start_exact_small : ∃ s, start startSample PoolSample.settings Engine.Sample.settings =
      .ok (some s) ∧ Serves PoolSample.settings Engine.Sample.settings s ∧
    s.manager.engine.inventory.ready.map Database.databaseId = [2, 1] := by
  have hrun : ((start startSample PoolSample.settings Engine.Sample.settings).toOption.any
      fun result => result.any fun s => decide
        (s.manager.engine.inventory.ready.map Database.databaseId = [2, 1])) = true := by decide
  obtain ⟨result, hstart, hany⟩ := ok_of_any hrun
  obtain ⟨s, rfl, hp⟩ := (Option.any_eq_true _ _).mp hany
  have hserves := (start_exact startSample PoolSample.settings Engine.Sample.settings
    (by decide)).2.2.2 s hstart
  exact ⟨s, hstart, hserves, of_decide_eq_true hp⟩

end PgTest.Manager
