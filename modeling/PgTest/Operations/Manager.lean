import PgTest.Operations.DatabaseName

/-!
# The manager of the databases

The start of `PostgresManager` and its sweep of old databases, over a server that
is the list of its databases, the version it reports, and whether it can be
reached.  `LIKE` has its documented meaning: `_`, `%` and a backslash are special,
and a pattern that ends in its escape character is an error, as is one with a NUL.
-/

namespace PgTest.Operations

open PgTest.Lib

/-! ### The server -/

/-- A name in `pg_database`: 1 to 63 bytes, without NUL. -/
structure DatName where
  value : List Char
  nonempty : value ≠ []
  fits : byteLen value ≤ 63
  nulFree : '\x00' ∉ value
  deriving DecidableEq

structure Server where
  databases : List DatName
  /-- Whether a pool for this purpose connects. -/
  connects : String → Bool
  /-- Whether a query for the databases returns. -/
  lists : Bool
  /-- `server_version_num`, if the query for it returns. -/
  versionNumber : Option Int

/-- What the server makes of a pattern.  It reports an escape character at the end only
where a match gets that far, and the model always: this decides which error a start ends
with, and not whether it does. -/
def patternTokens (pattern : List Char) : Option (List (Token Char)) :=
  if '\x00' ∈ pattern then none else Like.parse pattern

/-- `text LIKE pattern`, `none` if it fails. -/
def like (pattern text : List Char) : Option Bool :=
  (patternTokens pattern).map fun tokens => matchesText (· == ·) tokens text

/-- The rows of `LIST_DATABASES`. -/
def listDatabases (databases : List DatName) (pattern : List Char) : Option (List DatName) :=
  (patternTokens pattern).map fun tokens =>
    databases.filter fun database => matchesText (· == ·) tokens database.value

/-! ### Starting -/

structure PostgresConfig where
  pgHost : String
  pgPort : Nat
  pgUser : String
  pgDatabase : List Char
  creationPoolConnection : Nat
  cleanupPoolConnection : Nat

structure PostgresManager where
  version : Nat
  host : String
  port : Nat
  templateDatabaseName : PostgresDatabaseName
  creationConcurrency : Nat

inductive PostgresClientError
  | invalidPoolSize (name : String)
  | unableToConnectToPostgres (url : String)
  | unableToFetchPostgresVersion
  | unableToFetchDatabaseList
  | databaseDoesNotExist (databaseName : List Char)
  | unsupportedVersion (version : Nat)
  | unexpectedServerVersionFormatFetched (number : Int)
  deriving DecidableEq, Repr

/-- Why a function does not return `Ok`. -/
inductive Failure
  | error (error : PostgresClientError)
  | panic
  deriving DecidableEq, Repr

def minServerVersionNum : Nat := 13

/-- `connect_pool`. -/
def connectPool (server : Server) (config : PostgresConfig) (purpose : String) :
    Except Failure Unit :=
  if server.connects purpose then .ok ()
  else .error (.error (.unableToConnectToPostgres ("postgres://" ++ config.pgUser ++ "@" ++
    config.pgHost ++ ":" ++ toString config.pgPort ++ "/postgres")))

/-- `database_exists`. -/
def databaseExists (server : Server) (databaseName : List Char) : Except Failure Unit :=
  if server.lists then
    match listDatabases server.databases databaseName with
    | none => .error (.error .unableToFetchDatabaseList)
    | some rows =>
      if rows.isEmpty then .error (.error (.databaseDoesNotExist databaseName)) else .ok ()
  else .error (.error .unableToFetchDatabaseList)

/-- `is_valid_version`. -/
def isValidVersion (server : Server) : Except Failure Nat :=
  match server.versionNumber with
  | none => .error (.error .unableToFetchPostgresVersion)
  | some number =>
    -- `u8::try_from(number / 10000)`
    let version := number.tdiv 10000
    if version < 0 ∨ 255 < version then
      .error (.error (.unexpectedServerVersionFormatFetched number))
    else if version.toNat < minServerVersionNum then
      .error (.error (.unsupportedVersion version.toNat))
    else .ok version.toNat

/-- `PostgresManager::start`. -/
def start (parallelTestId : Choices 4) (server : Server) (config : PostgresConfig) :
    Except Failure PostgresManager :=
  if config.creationPoolConnection = 0 then
    .error (.error (.invalidPoolSize "PGTEST_CREATION_POOL_CONNECTION"))
  else if config.cleanupPoolConnection = 0 then
    .error (.error (.invalidPoolSize "PGTEST_CLEANUP_POOL_CONNECTION"))
  else do
    connectPool server config "creation"
    databaseExists server config.pgDatabase
    let version ← isValidVersion server
    connectPool server config "cleanup"
    match PostgresDatabaseName.new parallelTestId config.pgDatabase with
    | none => .error .panic
    | some names => return ⟨version, config.pgHost, config.pgPort, names,
        config.creationPoolConnection⟩

/-! ### The sweep -/

def cleanupPipelineDepth : Nat := 32

/-- The pattern of the sweep: the name of the template, and `_%`. -/
def sweepPattern (names : PostgresDatabaseName) : List Char := names.templateName ++ ['_', '%']

/-- The names that `drop_ddl_templates_like` selects. -/
def selected (manager : PostgresManager) (databases : List DatName) : Option (List DatName) :=
  listDatabases databases (sweepPattern manager.templateDatabaseName)

/-- The loop of `drop_ddl_templates_like`: each batch is dropped as a whole, and
the first one with a failure is the last one.  The result are the names that were
to be dropped, and whether all of them were. -/
def dropBatches (drop : DatName → Bool) (names : List DatName) : List DatName × Bool :=
  match names with
  | [] => ([], true)
  | name :: rest =>
    let batch := (name :: rest).take cleanupPipelineDepth
    if batch.all drop then
      let (dropped, ok) := dropBatches drop ((name :: rest).drop cleanupPipelineDepth)
      (batch ++ dropped, ok)
    else (batch, false)
  termination_by names.length
  decreasing_by
    rw [List.length_drop, List.length_cons, cleanupPipelineDepth]
    omega

/-- `drop_ddl_templates_like`. -/
def dropDdlTemplatesLike (drop : DatName → Bool) (manager : PostgresManager)
    (databases : List DatName) : Option (List DatName × Bool) :=
  (selected manager databases).map (dropBatches drop)

theorem mem_of_mem_dropBatches {drop : DatName → Bool} {names : List DatName} {name : DatName}
    (h : name ∈ (dropBatches drop names).1) : name ∈ names := by
  fun_induction dropBatches drop names with
  | case1 => exact h
  | case2 head rest batch hall dropped ok heq ih =>
    rw [heq] at ih
    rcases List.mem_append.mp h with h | h
    · exact List.mem_of_mem_take h
    · exact List.mem_of_mem_drop (ih h)
  | case3 head rest batch hall => exact List.mem_of_mem_take h

theorem dropBatches_all {drop : DatName → Bool} {names : List DatName}
    (h : ∀ name ∈ names, drop name = true) : dropBatches drop names = (names, true) := by
  fun_induction dropBatches drop names with
  | case1 => rfl
  | case2 head rest batch hall dropped ok heq ih =>
    rw [ih fun name hm => h name (List.mem_of_mem_drop hm)] at heq
    cases heq
    exact congrArg (·, true) (List.take_append_drop _ _)
  | case3 head rest batch hall =>
    exact absurd (List.all_eq_true.mpr fun name hm => h name (List.mem_of_mem_take hm)) hall

/-- **The sweep drops what it selects**, and without a failure all of it. -/
theorem dropDdlTemplatesLike_selected {drop : DatName → Bool} {manager : PostgresManager}
    {databases dropped : List DatName} {ok : Bool}
    (h : dropDdlTemplatesLike drop manager databases = some (dropped, ok)) :
    ∃ rows, selected manager databases = some rows ∧ (∀ name ∈ dropped, name ∈ rows) ∧
      ((∀ name ∈ rows, drop name = true) → dropped = rows ∧ ok = true) := by
  obtain ⟨rows, hrows, hdrop⟩ := Option.map_eq_some_iff.mp h
  refine ⟨rows, hrows, fun name hm => ?_, fun hall => ?_⟩
  · have hfst : (dropBatches drop rows).1 = dropped := congrArg Prod.fst hdrop
    rw [← hfst] at hm
    exact mem_of_mem_dropBatches hm
  · rw [dropBatches_all hall] at hdrop
    exact ⟨(congrArg Prod.fst hdrop).symm, (congrArg Prod.snd hdrop).symm⟩

/-! ### What is listed -/

theorem matchesText_eq {tokens : List (Token Char)} {text : List Char} :
    matchesText (· == ·) tokens text = true ↔ Matches Eq tokens text := by
  rw [matchesText_iff]
  simp only [beq_iff_eq]

theorem like_iff {pattern text : List Char} :
    like pattern text = some true ↔
      ∃ tokens, patternTokens pattern = some tokens ∧ Matches Eq tokens text := by
  rw [like, Option.map_eq_some_iff]
  simp only [matchesText_eq]

/-- A name is listed if the pattern matches it. -/
theorem mem_listDatabases {databases rows : List DatName} {pattern : List Char}
    {tokens : List (Token Char)} (hp : patternTokens pattern = some tokens)
    (h : listDatabases databases pattern = some rows) {name : DatName} :
    name ∈ rows ↔ name ∈ databases ∧ Matches Eq tokens name.value := by
  rw [listDatabases, hp] at h
  cases h
  rw [List.mem_filter, matchesText_eq]

end PgTest.Operations
