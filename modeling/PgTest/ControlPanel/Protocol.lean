import PgTest.ControlPanel.Statement
import PgTest.Engine.Message

/-!
# The handlers of the control panel

`protocol.rs`, `response.rs` and `release` of `control_panel.rs`.  What they use of
pgwire is a parameter: types, stored statements, portals and their store, and the
encoder of a row.  A session keeps the store, what was sent to the client, and the
leases that the manager was asked to release.
-/

namespace PgTest.ControlPanel

open PgTest.Engine

/-! ### What pgwire brings -/

/-- A type of PostgreSQL. -/
structure PgType where
  oid : Nat
  deriving DecidableEq, Repr

namespace PgType

def int4 : PgType := ⟨23⟩
def bool : PgType := ⟨16⟩
def text : PgType := ⟨25⟩

end PgType

inductive FieldFormat
  | text
  | binary
  deriving DecidableEq, Repr

structure FieldInfo where
  name : String
  datatype : PgType
  format : FieldFormat
  deriving DecidableEq, Repr

/-- A `QueryResponse` of one row. -/
structure Response where
  schema : List FieldInfo
  row : ByteArray

structure ErrorInfo where
  severity : String
  code : String
  message : String
  deriving DecidableEq, Repr

inductive PgWireError
  | userError (info : ErrorInfo)
  | statementNotFound (name : String)
  /-- An error that pgwire raises itself. -/
  | internal (message : String)
  deriving DecidableEq, Repr

abbrev PgWireResult (α : Type) := Except PgWireError α

structure Parse where
  name : Option String
  query : String
  typeOids : List Nat

structure Bind where
  portalName : Option String
  statementName : Option String
  parameterFormatCodes : List Int
  parameters : List (Option ByteArray)
  resultColumnFormatCodes : List Int

structure StoredStatement where
  id : String
  statement : PgTestQueryTypeControlStatement
  deriving DecidableEq

inductive Entry (α : Type)
  | value (a : α)
  | empty

inductive PgWireBackendMessage
  | parseComplete
  | bindComplete
  deriving DecidableEq, Repr

/-- What the handlers call outside themselves: portals `P`, and a store `S` of statements
and portals. -/
structure Pgwire (P S : Type) where
  /-- `Type::from_oid`. -/
  fromOid : Nat → Option PgType
  /-- `StoredStatement::parse`, which calls `parse_sql` of its parser. -/
  parseStatement : Parse →
    (String → List (Option PgType) → PgWireResult (Option PgTestQueryTypeControlStatement)) →
    PgWireResult (Option StoredStatement)
  /-- `Portal::try_new`. -/
  tryNew : Bind → StoredStatement → PgWireResult P
  portalName : P → String
  statement : P → StoredStatement
  parameterLen : P → Nat
  /-- `Portal::parameter::<String>`. -/
  parameter : P → Nat → PgType → PgWireResult (Option String)
  /-- `result_column_format.format_for`. -/
  resultFormat : P → Nat → FieldFormat
  putStatement : StoredStatement → S → S
  putEmptyStatement : String → S → S
  getStatement : S → String → Option (Entry StoredStatement)
  putPortal : P → S → S
  putEmptyPortal : String → S → S
  /-- The portal that an `Execute` of this name hands to `do_query`. -/
  executed : S → String → PgWireResult P
  /-- `client.send(..)`. -/
  send : PgWireBackendMessage → PgWireResult Unit
  encodeInt4 : Int → FieldFormat → PgWireResult ByteArray
  encodeBool : Bool → FieldFormat → PgWireResult ByteArray
  /-- A string as `{:?}` prints it. -/
  debug : String → String

/-- `DEFAULT_NAME`. -/
def defaultName : String := ""

/-! ### Responses -/

def pingSchema (format : FieldFormat) : List FieldInfo := [⟨"?column?", .int4, format⟩]

def releaseSchema (format : FieldFormat) : List FieldInfo := [⟨"pgtest_release", .bool, format⟩]

def userError (code message : String) : PgWireError := .userError ⟨"ERROR", code, message⟩

def unsupportedCommand : PgWireError :=
  userError "0A000" "command not support by the control panel"

/-- `ReleaseError::to_string`. -/
def releaseErrorText : ReleaseError → String
  | .invalidLeaseId => "lease ID must contain 1 to 256 UTF-8 bytes and cannot contain '/' or NUL"
  | .leaseRecordLimitReached => "the lease record limit has been reached"
  | .engineUnavailable => "the worker engine is unavailable"
  | .replyTimedOut => "release acknowledgement timed out; retrying the same lease ID is safe"
  | .unexpectedReply => "the worker engine returned an unexpected release reply"

def releaseErrorCode : ReleaseError → String
  | .invalidLeaseId => "22023"
  | .leaseRecordLimitReached => "53400"
  | .engineUnavailable => "08006"
  | .replyTimedOut => "57014"
  | .unexpectedReply => "XX000"

def releaseError (error : ReleaseError) : PgWireError :=
  userError (releaseErrorCode error) (releaseErrorText error)

/-! ### Statements and arguments -/

section

variable {P S : Type}

def parseLeaseId (lease : String) : PgWireResult LeaseId :=
  match LeaseId.new lease with
  | .ok lease => .ok lease
  | .error _ => .error (releaseError .invalidLeaseId)

def resolveLeaseId (pgwire : Pgwire P S) (argument : LeaseArgument) (portal : P) :
    PgWireResult LeaseId :=
  match argument with
  | .literal literal => parseLeaseId literal
  | .parameter index =>
    match pgwire.parameter portal index .text with
    | .error e => .error e
    | .ok none => .error (userError "22004" "Lease ID cannot be NULL")
    | .ok (some lease) => parseLeaseId lease

def validateFormatCodes (codes : List Int) (kind : String) : PgWireResult Unit :=
  if codes.length > 1 then
    .error (userError "08P01"
      ("Expected 1 or 0 " ++ kind ++ " format codes, received " ++ toString codes.length))
  else if codes.head?.any fun code => code ≠ 0 ∧ code ≠ 1 then
    .error (userError "08P01" ("Expected " ++ kind ++ " format code to be text or binary"))
  else .ok ()

def getParameterTypes : PgTestQueryTypeControlStatement → List PgType
  | .release (.parameter _) => [.text]
  | _ => []

def parseSql (sql : String) (types : List (Option PgType)) :
    PgWireResult (Option PgTestQueryTypeControlStatement) :=
  match PgTestQueryTypeControlStatement.parse sql with
  | .error _ => .error unsupportedCommand
  | .ok statement =>
    match statement with
    | .ping | .release (.literal _) =>
      if !types.isEmpty then
        .error (userError "42804" "Parameters not expect for ping command")
      else .ok (some statement)
    | .release (.parameter index) =>
      let expected := (getParameterTypes statement).length
      if types.length > expected then
        .error (userError "0A000" ("Expected " ++ toString expected ++
          " bound parameters, received " ++ toString types.length))
      else if (types[index]?.bind id).any fun type => type ≠ .text then
        .error (userError "42804" "pgtest_release expected text argument")
      else .ok (some statement)

/-! ### Sessions -/

structure Session (S : Type) where
  store : S
  sent : List PgWireBackendMessage
  released : List LeaseId

/-- `client.send(message).await?`. -/
def Session.send (pgwire : Pgwire P S) (message : PgWireBackendMessage) (session : Session S) :
    PgWireResult Unit × Session S :=
  match pgwire.send message with
  | .error e => (.error e, session)
  | .ok () => (.ok (), { session with sent := session.sent ++ [message] })

/-- `manager` is how `WorkerEngineManager::release` ends. -/
structure PgTestControlPanel where
  manager : LeaseId → Except ReleaseError Unit

def ping (pgwire : Pgwire P S) (format : FieldFormat) : PgWireResult Response :=
  match pgwire.encodeInt4 1 format with
  | .error e => .error e
  | .ok row => .ok ⟨pingSchema format, row⟩

def released (pgwire : Pgwire P S) (format : FieldFormat) : PgWireResult Response :=
  match pgwire.encodeBool true format with
  | .error e => .error e
  | .ok row => .ok ⟨releaseSchema format, row⟩

namespace PgTestControlPanel

def release (panel : PgTestControlPanel) (pgwire : Pgwire P S) (lease : LeaseId)
    (format : FieldFormat) (session : Session S) : PgWireResult Response × Session S :=
  let session := { session with released := session.released ++ [lease] }
  match panel.manager lease with
  | .error e => (.error (releaseError e), session)
  | .ok () => (ControlPanel.released pgwire format, session)

/-- `SimpleQueryHandler::do_query`, with the one response of its vector. -/
def simpleQuery (panel : PgTestControlPanel) (pgwire : Pgwire P S) (query : String)
    (session : Session S) : PgWireResult Response × Session S :=
  match PgTestQueryTypeControlStatement.parse query with
  | .error _ => (.error unsupportedCommand, session)
  | .ok .ping => (ControlPanel.ping pgwire .text, session)
  | .ok (.release (.literal lease)) =>
    match parseLeaseId lease with
    | .error e => (.error e, session)
    | .ok lease => panel.release pgwire lease .text session
  | .ok (.release (.parameter _)) =>
    (.error (userError "42P02" "parameters require the extended query protocol"), session)

/-- `ExtendedQueryHandler::do_query`. -/
def doQuery (panel : PgTestControlPanel) (pgwire : Pgwire P S) (portal : P)
    (session : Session S) : PgWireResult Response × Session S :=
  let statement := (pgwire.statement portal).statement
  let expected := (getParameterTypes statement).length
  if pgwire.parameterLen portal ≠ expected then
    (.error (userError "08P01" ("Expected " ++ toString expected ++
      " bound parameters, received " ++ toString (pgwire.parameterLen portal))), session)
  else
    let format := pgwire.resultFormat portal 0
    match statement with
    | .ping => (ControlPanel.ping pgwire format, session)
    | .release argument =>
      match resolveLeaseId pgwire argument portal with
      | .error e => (.error e, session)
      | .ok lease => panel.release pgwire lease format session

end PgTestControlPanel

def onParse (pgwire : Pgwire P S) (message : Parse) (session : Session S) :
    PgWireResult Unit × Session S :=
  if message.typeOids.any fun oid => oid ≠ 0 ∧ oid ≠ PgType.text.oid then
    (.error (userError "42804" "pgtest_release requires a TEXT parameter"), session)
  else
    let name := message.name.getD defaultName
    match pgwire.parseStatement message parseSql with
    | .error e => (.error e, session)
    | .ok (some statement) =>
      Session.send pgwire .parseComplete
        { session with store := pgwire.putStatement statement session.store }
    | .ok none =>
      Session.send pgwire .parseComplete
        { session with store := pgwire.putEmptyStatement name session.store }

/-- The part of `on_bind` about a statement that was found. -/
def bindStatement (pgwire : Pgwire P S) (message : Bind) (statement : StoredStatement) :
    PgWireResult P :=
  let expected := (getParameterTypes statement.statement).length
  if message.parameters.length ≠ expected then
    .error (userError "08P01" ("Expected " ++ toString expected ++
      " bind parameters, received " ++ toString message.parameters.length))
  else
    match pgwire.tryNew message statement with
    | .error e => .error e
    | .ok portal =>
      match statement.statement with
      | .ping => .ok portal
      | .release argument =>
        match resolveLeaseId pgwire argument portal with
        | .error e => .error e
        | .ok _ => .ok portal

def onBind (pgwire : Pgwire P S) (message : Bind) (session : Session S) :
    PgWireResult Unit × Session S :=
  match validateFormatCodes message.parameterFormatCodes "parameter" with
  | .error e => (.error e, session)
  | .ok () =>
    match validateFormatCodes message.resultColumnFormatCodes "result column" with
    | .error e => (.error e, session)
    | .ok () =>
      let statementName := message.statementName.getD defaultName
      let portalName := message.portalName.getD defaultName
      match pgwire.getStatement session.store statementName with
      | some (.value statement) =>
        match bindStatement pgwire message statement with
        | .error e => (.error e, session)
        | .ok portal =>
          Session.send pgwire .bindComplete
            { session with store := pgwire.putPortal portal session.store }
      | some .empty =>
        if !message.parameters.isEmpty then
          (.error (userError "08P01" ("bind message supplies " ++
            toString message.parameters.length ++ " parameters, but prepared statement " ++
            pgwire.debug statementName ++ " requires 0")), session)
        else
          Session.send pgwire .bindComplete
            { session with store := pgwire.putEmptyPortal portalName session.store }
      | none => (.error (.statementNotFound statementName), session)

end

end PgTest.ControlPanel
