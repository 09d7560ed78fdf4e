import PgTest.ControlPanel.Protocol
import PgTest.Wire.Connection

/-!
# Three ways to release a lease

A lease is released by a simple query with a literal, by a prepared statement with the
same literal, or by a prepared statement with a parameter.  `Releases` says which requests
ask for the release of a text, and `release_paths_agree` that what they come to depends on
the text only: each of them asks the manager for the one lease of that name, or fails with
`22023` if there is none.

`Pgwire.Documented` is what is taken for granted of pgwire, in particular that a `TEXT`
parameter is decoded to its string.
-/

namespace PgTest.ControlPanel

open PgTest.Engine PgTest.Wire PgTestQueryTypeControlStatement

variable {P S : Type}

/-! ### Requests -/

/-- What a client sends, up to the next `Sync`. -/
inductive Request
  | query (query : String)
  | extended (parse : Parse) (bind : Bind) (execute : Option String)

/-- pgwire hands each message to its handler, and after an error none until the next
`Sync`.  A simple query that is empty does not come here: pgwire answers it itself. -/
def handle (pgwire : Pgwire P S) (panel : PgTestControlPanel) (request : Request)
    (session : Session S) : PgWireResult Response × Session S :=
  match request with
  | .query query => panel.simpleQuery pgwire query session
  | .extended parse bind execute =>
    match onParse pgwire parse session with
    | (.error e, session) => (.error e, session)
    | (.ok (), session) =>
      match onBind pgwire bind session with
      | (.error e, session) => (.error e, session)
      | (.ok (), session) =>
        match pgwire.executed session.store (execute.getD defaultName) with
        | .error e => (.error e, session)
        | .ok portal => panel.doQuery pgwire portal session

/-- No format code, or one that says text or binary. -/
def FormatCodes (codes : List Int) : Prop := codes = [] ∨ codes = [0] ∨ codes = [1]

/-- `Format::from_codes`, and `format_for` of a column. -/
def formatOf (codes : List Int) : FieldFormat := if codes = [1] then .binary else .text

/-- The format of the answer to a request. -/
def Request.format : Request → FieldFormat
  | .query _ => .text
  | .extended _ bind _ => formatOf bind.resultColumnFormatCodes

/-- The messages name the same statement and the same portal, in formats that exist. -/
structure Coherent (parse : Parse) (bind : Bind) (execute : Option String) : Prop where
  statement : bind.statementName.getD defaultName = parse.name.getD defaultName
  portal : bind.portalName.getD defaultName = execute.getD defaultName
  parameterFormats : FormatCodes bind.parameterFormatCodes
  resultFormats : FormatCodes bind.resultColumnFormatCodes

/-- The requests to release the lease of that name. -/
inductive Releases (v : String) : Request → Prop
  | simple {query : String} (hquery : query.toList ∈ releaseShape {quoted v}) :
      Releases v (.query query)
  | literal {parse : Parse} {bind : Bind} {execute : Option String}
      (hquery : parse.query.toList ∈ releaseShape {quoted v}) (htypes : parse.typeOids = [])
      (hparameters : bind.parameters = []) (hcoherent : Coherent parse bind execute) :
      Releases v (.extended parse bind execute)
  | parameter {parse : Parse} {bind : Bind} {execute : Option String}
      (hquery : parse.query.toList ∈ releaseShape parameterShape)
      (htypes : parse.typeOids = [] ∨ parse.typeOids = [0] ∨ parse.typeOids = [PgType.text.oid])
      (hparameters : bind.parameters = [some v.toUTF8])
      (hcoherent : Coherent parse bind execute) : Releases v (.extended parse bind execute)

/-! ### What is taken for granted of pgwire -/

structure Pgwire.Documented (pgwire : Pgwire P S) : Prop where
  unspecified : pgwire.fromOid 0 = none
  text : pgwire.fromOid PgType.text.oid = some .text
  /-- A statement is parsed with the declared types, and is stored under its name. -/
  parsed : ∀ message parseSql statement,
    parseSql message.query (message.typeOids.map pgwire.fromOid) = .ok (some statement) →
    pgwire.parseStatement message parseSql =
      .ok (some ⟨message.name.getD defaultName, statement⟩)
  /-- A portal has what its `Bind` said. -/
  bound : ∀ message statement, FormatCodes message.parameterFormatCodes →
    FormatCodes message.resultColumnFormatCodes →
    ∃ portal, pgwire.tryNew message statement = .ok portal ∧
      pgwire.portalName portal = message.portalName.getD defaultName ∧
      pgwire.statement portal = statement ∧
      pgwire.parameterLen portal = message.parameters.length ∧
      pgwire.resultFormat portal 0 = formatOf message.resultColumnFormatCodes
  /-- A `TEXT` parameter is its UTF-8 string in either format. -/
  decoded : ∀ message statement portal index value, FormatCodes message.parameterFormatCodes →
    pgwire.tryNew message statement = .ok portal →
    message.parameters[index]? = some (some (String.toUTF8 value)) →
    pgwire.parameter portal index .text = .ok (some value)
  stored : ∀ statement store,
    pgwire.getStatement (pgwire.putStatement statement store) statement.id =
      some (.value statement)
  found : ∀ portal store,
    pgwire.executed (pgwire.putPortal portal store) (pgwire.portalName portal) = .ok portal

/-! ### Each handler by itself -/

theorem validateFormatCodes_ok {codes : List Int} (h : FormatCodes codes) (kind : String) :
    validateFormatCodes codes kind = .ok () := by
  rcases h with rfl | rfl | rfl
  · rfl
  · rfl
  · rfl

theorem parseSql_literal {query v : String} (h : query.toList ∈ releaseShape {quoted v}) :
    parseSql query [] = .ok (some (.release (.literal v))) := by
  rw [parseSql, (parse_release (.literal v)).mpr h]
  rfl

theorem parseSql_parameter {query : String} (h : query.toList ∈ releaseShape parameterShape)
    {types : List (Option PgType)} (htypes : types = [] ∨ types = [none] ∨ types = [some .text]) :
    parseSql query types = .ok (some (.release (.parameter 0))) := by
  rw [parseSql, (parse_release (.parameter 0)).mpr h]
  rcases htypes with rfl | rfl | rfl
  · rfl
  · rfl
  · rfl

variable {pgwire : Pgwire P S} {session : Session S}

theorem onParse_ok (hpgwire : pgwire.Documented) (hsend : ∀ m, pgwire.send m = .ok ())
    {message : Parse} (hoids : ∀ oid ∈ message.typeOids, oid = 0 ∨ oid = PgType.text.oid)
    {statement : PgTestQueryTypeControlStatement}
    (hparse : parseSql message.query (message.typeOids.map pgwire.fromOid) =
      .ok (some statement)) :
    onParse pgwire message session = (.ok (),
      { session with
        store := pgwire.putStatement ⟨message.name.getD defaultName, statement⟩ session.store
        sent := session.sent ++ [.parseComplete] }) := by
  have hallowed : ∀ oid ∈ message.typeOids, ¬oid = 0 → oid = PgType.text.oid :=
    fun oid hoid hne => (hoids oid hoid).resolve_left hne
  simpa [onParse, hpgwire.parsed message parseSql statement hparse, Session.send, hsend]
    using hallowed

/-- Binding a release resolves its lease, and keeps the portal only if there is one. -/
theorem bindStatement_release {message : Bind} {statement : StoredStatement} {portal : P}
    {argument : LeaseArgument} (hstatement : statement.statement = .release argument)
    (hlen : message.parameters.length = (getParameterTypes statement.statement).length)
    (hportal : pgwire.tryNew message statement = .ok portal) :
    bindStatement pgwire message statement =
      match resolveLeaseId pgwire argument portal with
      | .error e => .error e
      | .ok _ => .ok portal := by
  cases hlease : resolveLeaseId pgwire argument portal with
  | error e => simp [bindStatement, hlen, hportal, hstatement, hlease]
  | ok lease => simp [bindStatement, hlen, hportal, hstatement, hlease]

theorem onBind_found {message : Bind} {statement : StoredStatement}
    (hparameter : FormatCodes message.parameterFormatCodes)
    (hresult : FormatCodes message.resultColumnFormatCodes)
    (hfound : pgwire.getStatement session.store (message.statementName.getD defaultName) =
      some (.value statement)) :
    onBind pgwire message session =
      match bindStatement pgwire message statement with
      | .error e => (.error e, session)
      | .ok portal =>
        Session.send pgwire .bindComplete
          { session with store := pgwire.putPortal portal session.store } := by
  cases hbind : bindStatement pgwire message statement with
  | error e =>
    simp [onBind, validateFormatCodes_ok hparameter, validateFormatCodes_ok hresult, hfound, hbind]
  | ok portal =>
    simp [onBind, validateFormatCodes_ok hparameter, validateFormatCodes_ok hresult, hfound, hbind]

theorem doQuery_release {panel : PgTestControlPanel} {portal : P} {argument : LeaseArgument}
    (hstatement : (pgwire.statement portal).statement = .release argument)
    (hlen : pgwire.parameterLen portal =
      (getParameterTypes (pgwire.statement portal).statement).length) :
    panel.doQuery pgwire portal session =
      match resolveLeaseId pgwire argument portal with
      | .error e => (.error e, session)
      | .ok lease => panel.release pgwire lease (pgwire.resultFormat portal 0) session := by
  cases hlease : resolveLeaseId pgwire argument portal with
  | error e => simp [PgTestControlPanel.doQuery, hlen, hstatement, hlease]
  | ok lease => simp [PgTestControlPanel.doQuery, hlen, hstatement, hlease]

/-! ### What a release comes to -/

/-- The answer of the manager, as the panel sends it. -/
def PgTestControlPanel.answer (panel : PgTestControlPanel) (pgwire : Pgwire P S)
    (lease : LeaseId) (format : FieldFormat) : PgWireResult Response :=
  match panel.manager lease with
  | .error e => .error (releaseError e)
  | .ok () => released pgwire format

/-- What the release of a text comes to, and the leases that were released then. -/
def outcome (pgwire : Pgwire P S) (panel : PgTestControlPanel) (v : String)
    (format : FieldFormat) (leases : List LeaseId) : PgWireResult Response × List LeaseId :=
  match parseLeaseId v with
  | .error e => (.error e, leases)
  | .ok lease => (panel.answer pgwire lease format, leases ++ [lease])

/-- The part of an outcome that is compared. -/
def seen (x : PgWireResult Response × Session S) : PgWireResult Response × List LeaseId :=
  (x.1, x.2.released)

theorem seen_release {panel : PgTestControlPanel} (lease : LeaseId) (format : FieldFormat) :
    seen (panel.release pgwire lease format session) =
      (panel.answer pgwire lease format, session.released ++ [lease]) := by
  rw [PgTestControlPanel.release, PgTestControlPanel.answer]
  cases panel.manager lease with
  | error e => rfl
  | ok u => rfl

theorem simple_outcome {panel : PgTestControlPanel} {query v : String}
    (hquery : query.toList ∈ releaseShape {quoted v}) :
    seen (panel.simpleQuery pgwire query session) =
      outcome pgwire panel v .text session.released := by
  rw [PgTestControlPanel.simpleQuery, (parse_release (.literal v)).mpr hquery, outcome]
  dsimp only
  cases parseLeaseId v with
  | error e => rfl
  | ok lease => exact seen_release lease .text

/-- A prepared release comes to what its argument says: `Bind` and `Execute` resolve it alike. -/
theorem extended_outcome (argument : LeaseArgument) (hpgwire : pgwire.Documented)
    (hsend : ∀ m, pgwire.send m = .ok ()) {panel : PgTestControlPanel} {parse : Parse}
    {bind : Bind} {execute : Option String} {v : String} (hcoherent : Coherent parse bind execute)
    (hoids : ∀ oid ∈ parse.typeOids, oid = 0 ∨ oid = PgType.text.oid)
    (hparse : parseSql parse.query (parse.typeOids.map pgwire.fromOid) =
      .ok (some (.release argument)))
    (hlen : bind.parameters.length = (getParameterTypes (.release argument)).length)
    (hresolve : ∀ statement portal, pgwire.tryNew bind statement = .ok portal →
      resolveLeaseId pgwire argument portal = parseLeaseId v) :
    seen (handle pgwire panel (.extended parse bind execute) session) =
      outcome pgwire panel v (formatOf bind.resultColumnFormatCodes) session.released := by
  obtain ⟨portal, hportal, hname, hstatement, hparameters, hformat⟩ :=
    hpgwire.bound bind ⟨parse.name.getD defaultName, .release argument⟩
      hcoherent.parameterFormats hcoherent.resultFormats
  have hargument := hresolve _ _ hportal
  rw [handle, onParse_ok hpgwire hsend hoids hparse]
  dsimp only
  rw [onBind_found hcoherent.parameterFormats hcoherent.resultFormats
    (by rw [hcoherent.statement]; exact hpgwire.stored _ _),
    bindStatement_release rfl hlen hportal, hargument, outcome]
  cases hlease : parseLeaseId v with
  | error e => rfl
  | ok lease =>
    dsimp only
    rw [Session.send, hsend]
    dsimp only
    rw [← hcoherent.portal, ← hname, hpgwire.found]
    dsimp only
    rw [doQuery_release (by rw [hstatement]) (by rw [hparameters, hstatement, hlen]), hargument,
      hlease, hformat]
    exact seen_release lease _

/-- **A request comes to what its text says**, whichever way it takes. -/
theorem Releases.outcome {v : String} {request : Request} (h : Releases v request)
    (hpgwire : pgwire.Documented) (hsend : ∀ m, pgwire.send m = .ok ())
    (panel : PgTestControlPanel) (session : Session S) :
    seen (handle pgwire panel request session) =
      ControlPanel.outcome pgwire panel v request.format session.released := by
  cases h with
  | simple hquery => exact simple_outcome hquery
  | @literal parse bind execute hquery htypes hparameters hcoherent =>
    refine extended_outcome (.literal v) hpgwire hsend hcoherent ?_ ?_ ?_ ?_
    · rw [htypes]
      exact fun oid hoid => absurd hoid List.not_mem_nil
    · rw [htypes]
      exact parseSql_literal hquery
    · rw [hparameters]
      rfl
    · exact fun _ _ _ => rfl
  | @parameter parse bind execute hquery htypes hparameters hcoherent =>
    refine extended_outcome (.parameter 0) hpgwire hsend hcoherent ?_ ?_ ?_ ?_
    · rcases htypes with h | h | h
      · simp [h]
      · simp [h]
      · simp [h]
    · refine parseSql_parameter hquery ?_
      rcases htypes with h | h | h
      · exact Or.inl (by rw [h]; rfl)
      · exact Or.inr (Or.inl (by rw [h, List.map_singleton, hpgwire.unspecified]))
      · exact Or.inr (Or.inr (by rw [h, List.map_singleton, hpgwire.text]))
    · rw [hparameters]
      rfl
    · intro statement portal hportal
      have hdecoded := hpgwire.decoded bind statement portal 0 v hcoherent.parameterFormats hportal
        (by rw [hparameters]; rfl)
      rw [resolveLeaseId, hdecoded]

/-! ### One request of each kind -/

def simpleRequest (v : String) : Request := .query (releaseQuery v)

def literalRequest (v : String) : Request :=
  .extended ⟨none, releaseQuery v, []⟩ ⟨none, none, [], [], []⟩ none

def parameterRequest (codes : List Int) (v : String) : Request :=
  .extended ⟨none, "SELECT pgtest_release($1::text)", [PgType.text.oid]⟩
    ⟨none, none, codes, [some v.toUTF8], []⟩ none

theorem simpleRequest_releases (v : String) : Releases v (simpleRequest v) :=
  .simple (releaseQuery_shape v)

theorem literalRequest_releases (v : String) : Releases v (literalRequest v) :=
  .literal (releaseQuery_shape v) rfl rfl
    ⟨rfl, rfl, Or.inl rfl, Or.inl rfl⟩

theorem parameterRequest_releases {codes : List Int} (h : FormatCodes codes) (v : String) :
    Releases v (parameterRequest codes v) := by
  have hparse : parse "SELECT pgtest_release($1::text)" = .ok (.release (.parameter 0)) := by
    decide +kernel
  exact .parameter ((parse_release (.parameter 0)).mp hparse) (Or.inr (Or.inr rfl)) rfl
    ⟨rfl, rfl, h, Or.inl rfl⟩

/-! ### The paths agree -/

theorem outcome_valid {panel : PgTestControlPanel} {v : String} {lease : LeaseId}
    (h : LeaseId.new v = .ok lease) (format : FieldFormat) (leases : List LeaseId) :
    outcome pgwire panel v format leases =
      (panel.answer pgwire lease format, leases ++ [lease]) := by
  rw [outcome, parseLeaseId, h]

theorem outcome_invalid {panel : PgTestControlPanel} {v : String} {e : InvalidLeaseId}
    (h : LeaseId.new v = .error e) (format : FieldFormat) (leases : List LeaseId) :
    outcome pgwire panel v format leases = (.error (releaseError .invalidLeaseId), leases) := by
  rw [outcome, parseLeaseId, h]

/-- **The paths of a release agree.**  Every request to release a text asks the manager for
the lease of that name, once, and gives its answer, or fails with `22023` without asking it.
Any text can be sent on each path, and the lease of a connection is released there under
its own text. -/
theorem release_paths_agree (pgwire : Pgwire P S) (hpgwire : pgwire.Documented)
    (hsend : ∀ message, pgwire.send message = .ok ()) (panel : PgTestControlPanel)
    (session : Session S) :
    (∀ v request, Releases v request →
      (∀ lease, LeaseId.new v = .ok lease →
        (handle pgwire panel request session).1 = panel.answer pgwire lease request.format ∧
        (handle pgwire panel request session).2.released = session.released ++ [lease]) ∧
      (∀ e, LeaseId.new v = .error e →
        (∃ message, (handle pgwire panel request session).1 =
          .error (.userError ⟨"ERROR", "22023", message⟩)) ∧
        (handle pgwire panel request session).2.released = session.released)) ∧
    (∀ v, Releases v (simpleRequest v) ∧ Releases v (literalRequest v) ∧
      ∀ codes, FormatCodes codes → Releases v (parameterRequest codes v)) ∧
    ∀ field database lease, parseConnectionField field = .ok (database, lease) →
      field.toList = database.toList ++ '/' :: lease.value.toList ∧
      ∀ request, Releases lease.value request →
        (handle pgwire panel request session).1 = panel.answer pgwire lease request.format ∧
        (handle pgwire panel request session).2.released = session.released ++ [lease] := by
  have hvalid : ∀ v request, Releases v request → ∀ lease, LeaseId.new v = .ok lease →
      (handle pgwire panel request session).1 = panel.answer pgwire lease request.format ∧
      (handle pgwire panel request session).2.released = session.released ++ [lease] := by
    intro v request h lease hlease
    have hseen := h.outcome hpgwire hsend panel session
    rw [outcome_valid hlease] at hseen
    exact ⟨congrArg Prod.fst hseen, congrArg Prod.snd hseen⟩
  refine ⟨fun v request h => ⟨hvalid v request h, fun e he => ?_⟩, fun v => ?_, ?_⟩
  · have hseen := h.outcome hpgwire hsend panel session
    rw [outcome_invalid he] at hseen
    exact ⟨⟨_, congrArg Prod.fst hseen⟩, congrArg Prod.snd hseen⟩
  · exact ⟨simpleRequest_releases v, literalRequest_releases v,
      fun codes hcodes => parameterRequest_releases hcodes v⟩
  · intro field database lease hfield
    exact ⟨(parseConnectionField_iff.mp hfield).1,
      fun request h => hvalid lease.value request h lease (new_value lease)⟩

/-! ### A library that does so -/

/-- A library whose portals and entries are kept as they come. -/
def plainPgwire : Pgwire (Bind × StoredStatement)
    ((String → Option (Entry StoredStatement)) ×
      (String → PgWireResult (Bind × StoredStatement))) where
  fromOid oid := if oid = 0 then none else some ⟨oid⟩
  parseStatement message parse :=
    match parse message.query
        (message.typeOids.map fun oid => if oid = 0 then none else some ⟨oid⟩) with
    | .error e => .error e
    | .ok none => .ok none
    | .ok (some statement) => .ok (some ⟨message.name.getD defaultName, statement⟩)
  tryNew message statement := .ok (message, statement)
  portalName portal := portal.1.portalName.getD defaultName
  statement portal := portal.2
  parameterLen portal := portal.1.parameters.length
  parameter portal index _ :=
    match portal.1.parameters[index]? with
    | none => .error (.internal "parameter index out of bound")
    | some none => .ok none
    | some (some bytes) =>
      match String.fromUTF8? bytes with
      | none => .error (.internal "invalid UTF-8")
      | some value => .ok (some value)
  resultFormat portal _ := formatOf portal.1.resultColumnFormatCodes
  putStatement statement store :=
    (fun name => if name = statement.id then some (.value statement) else store.1 name, store.2)
  putEmptyStatement key store :=
    (fun name => if name = key then some .empty else store.1 name, store.2)
  getStatement store := store.1
  putPortal portal store :=
    (store.1, fun name =>
      if name = portal.1.portalName.getD defaultName then .ok portal else store.2 name)
  putEmptyPortal key store :=
    (store.1, fun name =>
      if name = key then .error (.internal "empty portal") else store.2 name)
  executed store := store.2
  send _ := .ok ()
  encodeInt4 value _ := .ok (toString value).toUTF8
  encodeBool value format :=
    match format with
    | .text => .ok (if value then "t" else "f").toUTF8
    | .binary => .ok ⟨#[if value then 1 else 0]⟩
  debug := String.quote

theorem plainPgwire_documented : plainPgwire.Documented where
  unspecified := rfl
  text := rfl
  parsed message parseSql statement h := by
    simp only [plainPgwire] at h ⊢
    rw [h]
  bound message statement _ _ := ⟨(message, statement), rfl, rfl, rfl, rfl, rfl⟩
  decoded := by
    intro message statement portal index value _ hportal hvalue
    cases hportal
    have hdecode : String.fromUTF8? value.toUTF8 = some value := by
      simp [String.fromUTF8?, String.toUTF8, String.fromUTF8, value.isValidUTF8]
    simp only [plainPgwire, hvalue, hdecode]
  stored statement store := if_pos rfl
  found portal store := if_pos rfl

/-- A manager that releases whatever it is asked to. -/
def willingPanel : PgTestControlPanel := ⟨fun _ => .ok ()⟩

def freshSession : Session ((String → Option (Entry StoredStatement)) ×
    (String → PgWireResult (Bind × StoredStatement))) :=
  ⟨(fun _ => none, fun _ => .error (.internal "no portal")), [], []⟩

/-- The lease of `shop/it's` is released on each path, and the text `a/b` on none. -/
theorem release_paths_agree_quote :
    ∃ lease, parseConnectionField "shop/it's" = .ok ("shop", lease) ∧
      (handle plainPgwire willingPanel (simpleRequest "it's") freshSession).2.released = [lease] ∧
      (handle plainPgwire willingPanel (literalRequest "it's") freshSession).2.released = [lease] ∧
      (handle plainPgwire willingPanel (parameterRequest [1] "it's") freshSession).2.released =
        [lease] ∧
      (handle plainPgwire willingPanel (parameterRequest [0] "a/b") freshSession).2.released =
        [] := by
  obtain ⟨hpaths, hrequests, hfields⟩ := release_paths_agree plainPgwire plainPgwire_documented
    (fun _ => rfl) willingPanel freshSession
  have hfield : parseConnectionField "shop/it's" = .ok ("shop", ⟨"it's", by decide⟩) := by
    decide +kernel
  have hreleased := fun request h => ((hfields _ _ _ hfield).2 request h).2
  obtain ⟨hsimple, hliteral, hparameter⟩ := hrequests "it's"
  have hinvalid : LeaseId.new "a/b" = .error ⟨⟩ := by decide +kernel
  have hrefused := (hpaths "a/b" _ ((hrequests "a/b").2.2 [0] (Or.inr (Or.inl rfl)))).2 _ hinvalid
  exact ⟨_, hfield, hreleased _ hsimple, hreleased _ hliteral,
    hreleased _ (hparameter [1] (Or.inr (Or.inr rfl))), hrefused.2⟩

end PgTest.ControlPanel
