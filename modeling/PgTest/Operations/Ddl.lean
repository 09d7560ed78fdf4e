import PgTest.Lib.Sql
import PgTest.Operations.Manager

/-!
# The statements that create and drop a database

`quote_ident`, `create_on_connection` and `drop_on_connection`.  A connection
answers a statement or fails, with the text of the error of the driver.  The
lexemes of a statement are those that PostgreSQL reads before it looks at the
length of a name.
-/

namespace PgTest.Operations

open PgTest.Lib PgTest.Lib.Sql

/-- `str::replace` of a character. -/
def replace (text : List Char) (c : Char) (replacement : List Char) : List Char :=
  text.flatMap fun d => if d = c then replacement else [d]

/-- `quote_ident`. -/
def quoteIdent (ident : List Char) : List Char :=
  '"' :: (replace ident '"' ['"', '"'] ++ ['"'])

inductive PostgresOperationsError
  | unableToCreateDatabase (databaseName : List Char) (source : String)
  | unableToDropDatabase (databaseName : List Char) (source : String)
  | unableToListDatabases (source : String)
  deriving DecidableEq, Repr

/-- `to_string`. -/
def PostgresOperationsError.text : PostgresOperationsError → String
  | unableToCreateDatabase databaseName source =>
    "unable to create database " ++ String.ofList databaseName ++ ": " ++ source
  | unableToDropDatabase databaseName source =>
    "unable to drop database " ++ String.ofList databaseName ++ ": " ++ source
  | unableToListDatabases source => "unable to list databases: " ++ source

/-- What a connection makes of a statement, `execute_ddl`. -/
abbrev Client := List Char → Except String Unit

/-- The statement of `create_on_connection`. -/
def createQuery (manager : PostgresManager) (databaseName : List Char) : List Char :=
  let quotedDatabase := quoteIdent databaseName
  let quotedTemplate := quoteIdent manager.templateDatabaseName.templateName
  let query := "CREATE DATABASE ".toList ++ quotedDatabase ++ " TEMPLATE ".toList ++ quotedTemplate
  if 15 ≤ manager.version then query ++ " STRATEGY=FILE_COPY".toList else query

/-- `create_error`. -/
def createError (databaseName : List Char) (source : String) : PostgresOperationsError :=
  .unableToCreateDatabase databaseName source

/-- `create_on_connection`. -/
def createOnConnection (manager : PostgresManager) (client : Client) (databaseName : List Char) :
    Except PostgresOperationsError (List Char) :=
  match client (createQuery manager databaseName) with
  | .error source => .error (createError databaseName source)
  | .ok () => .ok databaseName

/-- The statement of `drop_on_connection`. -/
def dropQuery (databaseName : List Char) : List Char :=
  "DROP DATABASE IF EXISTS ".toList ++ quoteIdent databaseName ++ " WITH (FORCE)".toList

/-- `drop_error`. -/
def dropError (databaseName : List Char) (source : String) : PostgresOperationsError :=
  .unableToDropDatabase databaseName source

/-- `drop_on_connection`. -/
def dropOnConnection (client : Client) (databaseName : List Char) :
    Except PostgresOperationsError Unit :=
  match client (dropQuery databaseName) with
  | .error source => .error (dropError databaseName source)
  | .ok () => .ok ()

/-- `create_ddl_database`, with what the creation pool returns. -/
def createDdlDatabase (manager : PostgresManager) (id : Choices generatedIdLen)
    (acquired : Except String Client) : Except PostgresOperationsError (List Char) :=
  let databaseName := manager.templateDatabaseName.generateDatabaseName id
  match acquired with
  | .error source => .error (createError databaseName source)
  | .ok client => createOnConnection manager client databaseName

/-- `drop_ddl_database`, with what the cleanup pool returns. -/
def dropDdlDatabase (acquired : Except String Client) (databaseName : List Char) :
    Except PostgresOperationsError Unit :=
  match acquired with
  | .error source => .error (dropError databaseName source)
  | .ok client => dropOnConnection client databaseName

/-! ### What PostgreSQL reads -/

theorem quoteIdent_eq (ident : List Char) : quoteIdent ident = quote '"' ident := rfl

/-- The lexemes of a statement that creates a database. -/
def createLexemes (manager : PostgresManager) (databaseName : List Char) : List Lexeme :=
  [.word "create".toList, .word "database".toList, .ident databaseName, .word "template".toList,
    .ident manager.templateDatabaseName.templateName] ++
  if 15 ≤ manager.version then [.word "strategy".toList, .symbol '=', .word "file_copy".toList]
  else []

/-- The lexemes of a statement that drops one. -/
def dropLexemes (databaseName : List Char) : List Lexeme :=
  [.word "drop".toList, .word "database".toList, .word "if".toList, .word "exists".toList,
    .ident databaseName, .word "with".toList, .symbol '(', .word "force".toList, .symbol ')']

theorem createQuery_eq (manager : PostgresManager) (databaseName : List Char) :
    createQuery manager databaseName = "CREATE DATABASE ".toList ++ (quote '"' databaseName ++
      (" TEMPLATE ".toList ++ (quote '"' manager.templateDatabaseName.templateName ++
        if 15 ≤ manager.version then " STRATEGY=FILE_COPY".toList else []))) := by
  rw [createQuery, quoteIdent_eq, quoteIdent_eq]
  split
  · rw [List.append_assoc, List.append_assoc, List.append_assoc]
  · rw [List.append_assoc, List.append_assoc, List.append_nil]

theorem dropQuery_eq (databaseName : List Char) :
    dropQuery databaseName =
      "DROP DATABASE IF EXISTS ".toList ++ (quote '"' databaseName ++ " WITH (FORCE)".toList) :=
  List.append_assoc _ _ _

theorem lexemes_createQuery {manager : PostgresManager} {databaseName : List Char}
    (ht : '\x00' ∉ manager.templateDatabaseName.templateName) (hn : '\x00' ∉ databaseName) :
    lexemes (createQuery manager databaseName) = some (createLexemes manager databaseName) := by
  have hcreate : scan step .between "CREATE DATABASE ".toList =
      some (.between, [.word "create".toList, .word "database".toList]) := by decide
  have htemplate : scan step (.closing databaseName) " TEMPLATE ".toList =
      some (.between, [.ident databaseName, .word "template".toList]) := rfl
  rw [createQuery_eq, createLexemes]
  split
  case isTrue _ =>
    have hstrategy : scan step (.closing manager.templateDatabaseName.templateName)
        " STRATEGY=FILE_COPY".toList = some (.word "file_copy".toList,
          [.ident manager.templateDatabaseName.templateName, .word "strategy".toList,
            .symbol '=']) := rfl
    have hscan := scan_append hcreate <| scan_append (scan_quote hn) <|
      scan_append htemplate <| scan_append (scan_quote ht) hstrategy
    have hread := lexemes_of_scan hscan rfl
    exact hread
  case isFalse _ =>
    have hend : scan step (.closing manager.templateDatabaseName.templateName) [] =
        some (.closing manager.templateDatabaseName.templateName, []) := rfl
    have hscan := scan_append hcreate <| scan_append (scan_quote hn) <|
      scan_append htemplate <| scan_append (scan_quote ht) hend
    have hread := lexemes_of_scan hscan rfl
    exact hread

theorem lexemes_dropQuery {databaseName : List Char} (hn : '\x00' ∉ databaseName) :
    lexemes (dropQuery databaseName) = some (dropLexemes databaseName) := by
  have hdrop : scan step .between "DROP DATABASE IF EXISTS ".toList =
      some (.between, [.word "drop".toList, .word "database".toList, .word "if".toList,
        .word "exists".toList]) := by decide
  have hforce : scan step (.closing databaseName) " WITH (FORCE)".toList =
      some (.between, [.ident databaseName, .word "with".toList, .symbol '(',
        .word "force".toList, .symbol ')']) := rfl
  have hread := lexemes_of_scan (scan_append hdrop (scan_append (scan_quote hn) hforce)) rfl
  rw [dropQuery_eq]
  exact hread

theorem head_ne_quote {a : List Char} (h : a.head? = some ' ') (b : List Char) :
    (a ++ b).head? ≠ some '"' := by
  rw [List.head?_append, h]
  simp

/-- A statement that creates a database names it and its template. -/
theorem createQuery_inj {manager manager' : PostgresManager} {databaseName name' : List Char}
    (h : createQuery manager databaseName = createQuery manager' name') :
    databaseName = name' ∧
      manager.templateDatabaseName.templateName = manager'.templateDatabaseName.templateName := by
  have hspace : " TEMPLATE ".toList.head? = some ' ' := by decide
  have hsuffix : ∀ version, (if 15 ≤ version then " STRATEGY=FILE_COPY".toList else []).head? ≠
      some '"' := by
    intro version
    split
    · decide
    · decide
  rw [createQuery_eq, createQuery_eq] at h
  obtain ⟨hname, hrest⟩ := quote_append_inj (head_ne_quote hspace _) (head_ne_quote hspace _)
    (List.append_cancel_left h)
  exact ⟨hname, (quote_append_inj (hsuffix _) (hsuffix _) (List.append_cancel_left hrest)).1⟩

theorem dropQuery_inj {databaseName name' : List Char}
    (h : dropQuery databaseName = dropQuery name') : databaseName = name' := by
  have hspace : " WITH (FORCE)".toList.head? ≠ some '"' := by decide
  rw [dropQuery_eq, dropQuery_eq] at h
  exact (quote_append_inj hspace hspace (List.append_cancel_left h)).1

/-- What a connection is sent to create a database. -/
theorem createOnConnection_eq (manager : PostgresManager) (client : Client)
    (databaseName : List Char) :
    createOnConnection manager client databaseName =
      ((client (createQuery manager databaseName)).mapError (createError databaseName)).map
        fun _ => databaseName := by
  rw [createOnConnection]
  cases client (createQuery manager databaseName) with
  | error source => rfl
  | ok _ => rfl

theorem dropOnConnection_eq (client : Client) (databaseName : List Char) :
    dropOnConnection client databaseName =
      (client (dropQuery databaseName)).mapError (dropError databaseName) := by
  rw [dropOnConnection]
  cases client (dropQuery databaseName) with
  | error source => rfl
  | ok _ => rfl

/-- **A name stays inside its quotes.**

What `quote_ident` writes is read back as the name, with nothing left.  So the
statements that the connections are sent are read as their keywords and their names,
whatever characters these have, and different names make different statements. -/
theorem names_stay_quoted :
    (∀ ident, '\x00' ∉ ident → unquote '"' (quoteIdent ident) = some (ident, [])) ∧
    (∀ manager databaseName, '\x00' ∉ manager.templateDatabaseName.templateName →
      '\x00' ∉ databaseName →
      lexemes (createQuery manager databaseName) = some (createLexemes manager databaseName)) ∧
    (∀ databaseName, '\x00' ∉ databaseName →
      lexemes (dropQuery databaseName) = some (dropLexemes databaseName)) ∧
    (∀ manager manager' databaseName name',
      createQuery manager databaseName = createQuery manager' name' → databaseName = name' ∧
        manager.templateDatabaseName.templateName =
          manager'.templateDatabaseName.templateName) ∧
    (∀ databaseName name', dropQuery databaseName = dropQuery name' → databaseName = name') ∧
    (∀ manager client databaseName, createOnConnection manager client databaseName =
      ((client (createQuery manager databaseName)).mapError (createError databaseName)).map
        fun _ => databaseName) ∧
    ∀ client databaseName, dropOnConnection client databaseName =
      (client (dropQuery databaseName)).mapError (dropError databaseName) := by
  refine ⟨fun ident _ => ?_, fun manager name ht hn => lexemes_createQuery ht hn,
    fun name hn => lexemes_dropQuery hn, fun manager manager' name name' h => createQuery_inj h,
    fun name name' h => dropQuery_inj h, createOnConnection_eq, dropOnConnection_eq⟩
  exact unquote_eq_some.mpr ⟨by rw [quoteIdent_eq, List.append_nil], by decide⟩

/-- A name that looks like the end of a statement, for a template with a quote. -/
theorem names_stay_quoted_hostile :
    lexemes (createQuery ⟨18, "localhost", 5432, ⟨"t\"".toList, "t\"".toList⟩, 10⟩
        "a\"; b".toList) =
      some [.word "create".toList, .word "database".toList, .ident "a\"; b".toList,
        .word "template".toList, .ident "t\"".toList, .word "strategy".toList, .symbol '=',
        .word "file_copy".toList] ∧
    lexemes (dropQuery "a\"; b".toList) =
      some [.word "drop".toList, .word "database".toList, .word "if".toList,
        .word "exists".toList, .ident "a\"; b".toList, .word "with".toList, .symbol '(',
        .word "force".toList, .symbol ')'] := by
  obtain ⟨_, hcreate, hdrop, _⟩ := names_stay_quoted
  exact ⟨hcreate _ _ (by decide) (by decide), hdrop _ (by decide)⟩

end PgTest.Operations
