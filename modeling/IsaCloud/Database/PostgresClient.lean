import IsaCloud.Database.SqliteClient
import IsaCloud.Support.Session

/-!
# The PostgreSQL client

The methods of `AsyncPostgresClient` that run statements under a schema. Each
takes a connection from the pool and runs one transaction: BEGIN, for a schema
other than `public` a SET of the search path, the statements, and COMMIT, or
ROLLBACK when an exception leaves the block. Log lines are left out.
-/

namespace IsaCloud.Database

set_option autoImplicit false

open Support Support.Text Support.Python Support.Session

/-! ## Identifiers -/

def isIdentifierStart (c : CodePoint) : Bool :=
  decide (65 ≤ c.val ∧ c.val ≤ 90) || decide (97 ≤ c.val ∧ c.val ≤ 122) || decide (c.val = 95)

def isIdentifier : Str → Bool
  | [] => false
  | c :: s => isIdentifierStart c && s.all fun d => isIdentifierStart d || isDigit d

/-- `_SAFE_IDENTIFIER_PATTERN.match(name)`; the `$` also matches before a final line feed. -/
def matchesIdentifier (name : Str) : Bool :=
  isIdentifier name || (decide (name.getLast? = some 10) && isIdentifier name.dropLast)

def validateIdentifier (name identifierType : Str) : Except PyError Str :=
  if name = [] then .error ⟨.valueError, lit "Invalid " ++ identifierType ++ lit ": cannot be empty"⟩
  else if !matchesIdentifier name then
    .error ⟨.valueError, lit "Invalid " ++ identifierType ++ lit " '" ++ name ++
      lit "': must start with a letter or underscore, and contain only letters, numbers, and underscores"⟩
  else if 63 < name.length then
    .error ⟨.valueError, lit "Invalid " ++ identifierType ++ lit " '" ++ name ++
      lit "': exceeds maximum length of 63 characters"⟩
  else .ok name

/-! ## The server -/

/-- The schemas an unqualified name is looked up in. -/
abbrev SearchPath := List Str

structure PgResult (F : Type) where
  /-- The command tag, such as `UPDATE 5`. -/
  status : Str
  rows : List (List (Str × SqlValue F))

structure PostgresServer (D F : Type) where
  apply : SearchPath → Statement F → D → Except Str (D × PgResult F)
  /-- The error of a SET whose identifier is a reserved word. -/
  reserved : Str → Option Str
  commitError : D → Option Str
  /-- The search path of a new connection. -/
  defaultPath : SearchPath

/-- An identifier without quotes is read without the blanks around it and in lower case. -/
def foldIdentifier (name : Str) : Str := lower (strip name)

def abortedError : Str := lit "current transaction is aborted, commands ignored until end of transaction block"

section Server
variable {D F : Type}

/-- How the server reads `SET search_path TO {name}, public`. -/
def PostgresServer.readPath (p : PostgresServer D F) (name : Str) : Except Str SearchPath :=
  match p.reserved (foldIdentifier name) with
  | some e => .error e
  | none => .ok [foldIdentifier name, publicSchema]

def PostgresServer.engine (p : PostgresServer D F) : Engine D SearchPath Str (Statement F) (PgResult F) Str where
  apply := p.apply
  read := p.readPath
  commitError := p.commitError
  aborted := abortedError

abbrev PgSession (D F : Type) := State D SearchPath (Statement F)

end Server

/-! ## Methods -/

inductive PgReply (F : Type) where
  | rows (r : Option (List (List (Str × SqlValue F))))
  | row (r : Option (List (Str × SqlValue F)))
  | affected (n : Option Int)
  | report (r : Option BatchReport)
  | done (ok : Bool)

abbrev PgCode (F : Type) := Proc (Command Str (Statement F)) (Answer (PgResult F) Str) (PgReply F)

def splitWords : Str → Str → List Str
  | [], word => if word = [] then [] else [word.reverse]
  | c :: s, word =>
    if isSpace c then (if word = [] then splitWords s [] else word.reverse :: splitWords s [])
    else splitWords s (c :: word)

/-- The number at the end of a command tag; tags are ASCII. -/
def rowsAffected (status : Str) : Int :=
  let parts := splitWords status []
  match parts.getLast? with
  | some last => if 2 ≤ parts.length ∧ last ≠ [] ∧ last.all isDigit = true then digitsValue last else 0
  | none => 0

section Methods
variable {F : Type}

def schemaWord : Str := lit "schema"

/-- `__aexit__` of the transaction on an exception, and the outer handler. -/
def abandon (o : PgReply F) : PgCode F := .call .rollback fun _ => .ret o

/-- The transaction around the body of a method. -/
def inTransaction (schema : Str) (failed : PgReply F) (body : PgCode F) : PgCode F :=
  .call .begin fun
    | .error _ => .ret failed
    | .ok _ =>
      if schema ≠ publicSchema then
        match validateIdentifier schema schemaWord with
        | .error _ => abandon failed
        | .ok validated => .call (.set validated) fun
          | .error _ => abandon failed
          | .ok _ => body
      else body

def finish (failed o : PgReply F) : PgCode F :=
  .call .commit fun
    | .error _ => .ret failed
    | .ok _ => .ret o

/-- The statement with its parameters, or without any. -/
def pgStatement (sql : Str) (params : Option (List (SqlValue F))) : Statement F := ⟨sql, params.getD []⟩

def oneStatement (sql : Str) (params : Option (List (SqlValue F))) (schema : Str) (failed : PgReply F)
    (answer : PgResult F → PgReply F) : PgCode F :=
  inTransaction schema failed (.call (.statement (pgStatement sql params)) fun
    | .error _ => abandon failed
    | .ok none => abandon failed
    | .ok (some r) => finish failed (answer r))

def pgQuery (sql : Str) (params : Option (List (SqlValue F))) (schema : Str) : PgCode F :=
  oneStatement sql params schema (.rows none) fun r => .rows (some r.rows)

/-- A row without columns counts as none. -/
def pgQueryRow (sql : Str) (params : Option (List (SqlValue F))) (schema : Str) : PgCode F :=
  oneStatement sql params schema (.row none) fun r =>
    match r.rows.head? with
    | some (v :: row) => .row (some (v :: row))
    | _ => .row none

def pgExecute (sql : Str) (params : Option (List (SqlValue F))) (schema : Str) : PgCode F :=
  oneStatement sql params schema (.affected none) fun r => .affected (some (rowsAffected r.status))

def statusOf : Option (PgResult F) → Str
  | some r => r.status
  | none => []

def pgBatchLoop (totalRows : Int) (results : List OperationResult) : List (Operation F) → PgCode F
  | [] => finish (.report none) (.report (some ⟨totalRows, results⟩))
  | op :: ops => .call (.statement (pgStatement op.text op.params)) fun
    | .ok r => pgBatchLoop (totalRows + rowsAffected (statusOf r)) (results ++ [⟨rowsAffected (statusOf r), []⟩]) ops
    | .error e => pgBatchLoop totalRows (results ++ [⟨0, e⟩]) ops

def pgExecuteBatch (operations : List (Operation F)) (schema : Str) : PgCode F :=
  inTransaction schema (.report none) (pgBatchLoop 0 [] operations)

def pgTransactionLoop : List (Operation F) → PgCode F
  | [] => finish (.done false) (.done true)
  | op :: ops => .call (.statement (pgStatement op.text op.params)) fun
    | .error _ => abandon (.done false)
    | .ok _ => pgTransactionLoop ops

def pgExecuteInTransaction (operations : List (Operation F)) (schema : Str) : PgCode F :=
  inTransaction schema (.done false) (pgTransactionLoop operations)

end Methods

end IsaCloud.Database
