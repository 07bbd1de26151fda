import IsaCloud.Database.PostgresClient

/-!
# Inserting many rows

`insert_into` of the PostgreSQL and SQLite clients and `insert_many` of the DuckDB
client send one INSERT per row. Its columns are the keys of the first row: what
another row has under another key is not sent, and a key it lacks is sent as NULL.
PostgreSQL and SQLite insert in one transaction, DuckDB row by row.
-/

namespace IsaCloud.Database

set_option autoImplicit false

open Support Support.Text Support.Python

abbrev RowDict (F : Type) := Dict Str (SqlValue F)

/-! ## The PostgreSQL client -/

section Postgres
variable {F : Type}

/-- `[row.get(col) for col in columns]`. -/
def rowValues (columns : List Str) (row : RowDict F) : List (SqlValue F) :=
  columns.map fun col => (row.get col).getD (.value .none)

/-- The table, under its schema unless it already names one. -/
def pgTarget (schema table : Str) : Except PyError Str :=
  if schema ≠ publicSchema ∧ cp '.' ∉ table then
    (validateIdentifier schema schemaWord).map fun validated => validated ++ lit "." ++ table
  else .ok table

def pgInsertText (target : Str) (columns : List Str) (returning : Bool) : Str :=
  let sql := lit "INSERT INTO " ++ target ++ lit " (" ++ (lit ", ").intercalate columns ++ lit ") VALUES (" ++
    (lit ", ").intercalate ((List.range columns.length).map fun i => lit "$" ++ natText (i + 1)) ++ lit ")"
  if returning then sql ++ lit " RETURNING *" else sql

def pgInsertLoop (sql : Str) (columns : List Str) (count : Int) : List (RowDict F) → PgCode F
  | [] => finish (.affected none) (.affected (some count))
  | row :: rows => .call (.statement ⟨sql, rowValues columns row⟩) fun
    | .error _ => abandon (.affected none)
    | .ok _ => pgInsertLoop sql columns (count + 1) rows

def pgInsertInto (table : Str) (rows : List (RowDict F)) (returning : Bool) (schema : Str) : PgCode F :=
  match rows with
  | [] => .ret (.affected (some 0))
  | first :: rest =>
    match pgTarget schema table with
    | .error _ => .ret (.affected none)
    | .ok target => .call .begin fun
      | .error _ => .ret (.affected none)
      | .ok _ => pgInsertLoop (pgInsertText target first.keys returning) first.keys 0 (first :: rest)

end Postgres

/-! ## The DuckDB client -/

section Duck
variable {F : Type}

/-- `_validate_identifier` of a client whose identifiers have at most `limit` characters. -/
def validateName (limit : Nat) (name identifierType : Str) : Except PyError Str :=
  if name = [] then .error ⟨.valueError, lit "Invalid " ++ identifierType ++ lit ": cannot be empty"⟩
  else if !matchesIdentifier name then
    .error ⟨.valueError, lit "Invalid " ++ identifierType ++ lit " '" ++ name ++
      lit "': must start with a letter or underscore, and contain only letters, numbers, and underscores"⟩
  else if limit < name.length then
    .error ⟨.valueError, lit "Invalid " ++ identifierType ++ lit " '" ++ name ++
      lit "': exceeds maximum length of " ++ natText limit ++ lit " characters"⟩
  else .ok name

/-- The PostgreSQL client checks the same, for shorter identifiers. -/
theorem validateIdentifier_eq (name identifierType : Str) :
    validateIdentifier name identifierType = validateName 63 name identifierType := by
  have htext : lit "': exceeds maximum length of 63 characters" =
      lit "': exceeds maximum length of " ++ natText 63 ++ lit " characters" := by decide
  rw [validateIdentifier, validateName, List.append_assoc _ (natText 63), List.append_assoc _ (lit "': exceeds maximum length of "),
    ← List.append_assoc (lit "': exceeds maximum length of "), ← htext]

def duckValidateIdentifier (name identifierType : Str) : Except PyError Str := validateName 128 name identifierType

def validateColumns : List Str → Except PyError (List Str)
  | [] => .ok []
  | col :: columns =>
    match duckValidateIdentifier col (lit "column name") with
    | .error e => .error e
    | .ok validated => (validateColumns columns).map (validated :: ·)

/-- A statement answers nothing the method reads. -/
abbrev DuckEngine (D F : Type) := Transaction.Engine D (Statement F) Unit Str

abbrev DuckCode (F : Type) := Transaction.Code (Statement F) Unit Str SqlReply

def duckInsertText (table : Str) (columns : List Str) : Str :=
  lit "INSERT INTO " ++ table ++ lit " (" ++ (lit ", ").intercalate columns ++ lit ") VALUES (" ++
    (lit ", ").intercalate (columns.map fun _ => lit "?") ++ lit ")"

def duckInsertLoop (sql : Str) (columns : List Str) (count : Int) : List (RowDict F) → DuckCode F
  | [] => .ret (.rows (some count))
  | row :: rows => .call (.statement ⟨sql, rowValues columns row⟩) fun
    | .error _ => .ret (.rows none)
    | .ok _ => duckInsertLoop sql columns (count + 1) rows

def insertMany (table : Str) (rows : List (RowDict F)) : DuckCode F :=
  match rows with
  | [] => .ret (.rows (some 0))
  | first :: rest =>
    match duckValidateIdentifier table (lit "table name") with
    | .error _ => .ret (.rows none)
    | .ok validatedTable =>
      match validateColumns first.keys with
      | .error _ => .ret (.rows none)
      | .ok validatedColumns => duckInsertLoop (duckInsertText validatedTable validatedColumns) first.keys 0 (first :: rest)

end Duck

/-! ## One call of one client -/

/-- The arguments; DuckDB has no `returning` and no schema, and SQLite ignores `returning`. -/
structure BulkInsert (F : Type) where
  table : Str
  rows : List (RowDict F)
  returning : Bool
  schema : Str

/-- The keys of the first row. -/
def BulkInsert.columns {F : Type} (call : BulkInsert F) : List Str :=
  match call.rows with
  | [] => []
  | first :: _ => first.keys

/-- A client and its database; the PostgreSQL connection has a search path. -/
inductive BulkClient (D F : Type) where
  | postgres (server : PostgresServer D F) (path : SearchPath)
  | sqlite (engine : SqliteEngine D F)
  | duckdb (engine : DuckEngine D F)

def SqlReply.count : SqlReply → Option Int
  | .rows n => n
  | _ => none

def PgReply.count {F : Type} : PgReply F → Option Int
  | .affected n => n
  | _ => none

namespace BulkClient
variable {D F : Type} [PyFloat F]

/-- The database after the call and the number of rows it reports, with nobody else on the connection. -/
def insert (client : BulkClient D F) (call : BulkInsert F) (d : D) : D × Option Int :=
  match client with
  | .postgres server path =>
    let r := Proc.exec server.engine.serve (pgInsertInto call.table call.rows call.returning call.schema) ⟨d, path, none, []⟩
    (r.1.durable, r.2.count)
  | .sqlite engine =>
    let r := Proc.exec engine.serve (insertInto call.table call.rows call.schema) ⟨d, none⟩
    (r.1.durable, r.2.count)
  | .duckdb engine =>
    let r := Proc.exec engine.serve (insertMany call.table call.rows) ⟨d, none⟩
    (r.1.durable, r.2.count)

/-- The text of the INSERT, unless a name is refused. -/
def insertSql (client : BulkClient D F) (call : BulkInsert F) : Except PyError Str :=
  match client with
  | .postgres _ _ => (pgTarget call.schema call.table).map fun target => pgInsertText target call.columns call.returning
  | .sqlite _ => .ok (insertText call.schema call.table call.columns)
  | .duckdb _ =>
    match duckValidateIdentifier call.table (lit "table name") with
    | .error e => .error e
    | .ok validatedTable => (validateColumns call.columns).map (duckInsertText validatedTable)

/-- What the client hands the database for a value. -/
def bind (client : BulkClient D F) (v : SqlValue F) : Except PyError (SqlValue F) :=
  match client with
  | .sqlite _ => serializeValue v
  | _ => .ok v

/-- What an INSERT that succeeds makes of the database; one of DuckDB commits by itself. -/
def write (client : BulkClient D F) (q : Statement F) (d : D) : Except Str D :=
  match client with
  | .postgres server path => (server.apply path q d).map Prod.fst
  | .sqlite engine => (engine.apply q d).map Prod.fst
  | .duckdb engine =>
    match engine.apply q d with
    | .error e => .error e
    | .ok (d', _) =>
      match engine.commitError d' with
      | none => .ok d'
      | some e => .error e

end BulkClient

/-! ## Tables -/

/-- A cell of every column. -/
abbrev Row (F : Type) := Str → SqlValue F

/-- A table: its columns, and what its `n`th INSERT stores in a column that it gives a value or does
not name. That may be the value and NULL, or what a type, a default or a sequence makes of them. -/
structure SqlTable (F : Type) where
  columns : List Str
  cell : Nat → Str → Option (SqlValue F) → SqlValue F

/-- What a database holds of a table: its rows in the order they came in, and the number of INSERTs. -/
structure TableView (D F : Type) where
  rows : D → List (Row F)
  inserts : D → Nat

section Tables
variable {D F : Type} [PyFloat F]

/-- The row of an INSERT that gives these columns these values. -/
def SqlTable.rowOf (t : SqlTable F) (n : Nat) (columns : List Str) (values : List (SqlValue F)) : Row F :=
  fun col => t.cell n col (Dict.find (columns.zip values) col)

/-- The INSERT of the call is one into the table: when it succeeds, one row more is stored. -/
structure BulkClient.Inserts (client : BulkClient D F) (call : BulkInsert F) (t : SqlTable F) (view : TableView D F) :
    Prop where
  stored : ∀ sql values d d', client.insertSql call = .ok sql → values.length = call.columns.length →
    client.write ⟨sql, values⟩ d = .ok d' →
      view.rows d' = view.rows d ++ [t.rowOf (view.inserts d) call.columns values]
  counted : ∀ sql values d d', client.insertSql call = .ok sql → values.length = call.columns.length →
    client.write ⟨sql, values⟩ d = .ok d' → view.inserts d' = view.inserts d + 1

variable (client : BulkClient D F) (t : SqlTable F)

/-- The row dict is stored in the row: each of its values, and NULL in the columns it lacks. -/
structure StoredAs (n : Nat) (row : RowDict F) (stored : Row F) : Prop where
  present : ∀ col v, row.get col = some v → ∃ bound, client.bind v = .ok bound ∧ stored col = t.cell n col (some bound)
  absent : ∀ col ∈ t.columns, row.get col = none → stored col = .value .none

/-- The rows stored since `d` are the row dicts, in order. -/
def AllStored (view : TableView D F) (rows : List (RowDict F)) (d d' : D) : Prop :=
  ∃ stored, view.rows d' = view.rows d ++ stored ∧
    List.Forall₂ (fun x r => StoredAs client t x.2 x.1 r) (rows.zipIdx (view.inserts d)) stored

/-- The columns of the first row are enough for the row: under another key it has what the table stores
there without being told, and where it has nothing the table stores NULL. -/
structure Covered (columns : List Str) (n : Nat) (row : RowDict F) : Prop where
  unsent : ∀ col ∉ columns, ∀ v, row.get col = some v →
    ∃ bound, client.bind v = .ok bound ∧ t.cell n col none = t.cell n col (some bound)
  named : ∀ col ∈ columns, col ∈ t.columns → row.get col = none → t.cell n col (some (.value .none)) = .value .none
  unnamed : ∀ col ∈ t.columns, col ∉ columns → row.get col = none → t.cell n col none = .value .none

end Tables

/-! ## The INSERTs of a call -/

section Runs
variable {D F : Type} [PyFloat F]

def bindAll (bind : SqlValue F → Except PyError (SqlValue F)) : List (SqlValue F) → Except PyError (List (SqlValue F))
  | [] => .ok []
  | v :: vs =>
    match bind v with
    | .error e => .error e
    | .ok v' => (bindAll bind vs).map (v' :: ·)

/-- One INSERT for each row, until one fails. -/
def BulkClient.insertRows (client : BulkClient D F) (sql : Str) (columns : List Str) : D → List (RowDict F) → Option D
  | d, [] => some d
  | d, row :: rows =>
    match bindAll client.bind (rowValues columns row) with
    | .error _ => none
    | .ok values =>
      match client.write ⟨sql, values⟩ d with
      | .error _ => none
      | .ok d' => client.insertRows sql columns d' rows

theorem bindAll_serializeValue (vs : List (SqlValue F)) : bindAll serializeValue vs = serializeAll vs := by
  induction vs with
  | nil => rfl
  | cons v vs ih =>
    cases hv : serializeValue v with
    | error e => simp only [bindAll, serializeAll, hv]
    | ok v' => simp only [bindAll, serializeAll, hv, ih]

omit [PyFloat F] in
theorem bindAll_same (vs : List (SqlValue F)) : bindAll .ok vs = .ok vs := by
  induction vs with
  | nil => rfl
  | cons v vs ih =>
    rw [bindAll, ih]
    rfl

omit [PyFloat F] in
/-- What is bound to a column. -/
theorem find_bound {bind : SqlValue F → Except PyError (SqlValue F)} {value : Str → SqlValue F} {columns : List Str}
    {values : List (SqlValue F)} (h : bindAll bind (columns.map value) = .ok values) :
    values.length = columns.length ∧
      (∀ col ∈ columns, ∃ bound, bind (value col) = .ok bound ∧ Dict.find (columns.zip values) col = some bound) ∧
      ∀ col ∉ columns, Dict.find (columns.zip values) col = none := by
  induction columns generalizing values with
  | nil =>
    cases h
    exact ⟨rfl, fun col hcol => (nomatch hcol), fun col _ => rfl⟩
  | cons c columns ih =>
    rw [List.map_cons, bindAll] at h
    cases hc : bind (value c) with
    | error e =>
      rw [hc] at h
      cases h
    | ok first =>
      cases hrest : bindAll bind (columns.map value) with
      | error e =>
        rw [hc, hrest] at h
        cases h
      | ok rest =>
        rw [hc, hrest] at h
        cases h
        obtain ⟨hlength, hfound, hother⟩ := ih hrest
        refine ⟨congrArg Nat.succ hlength, ?_, ?_⟩
        · intro col hcol
          rw [List.zip_cons_cons, Dict.find]
          by_cases heq : c = col
          · subst heq
            exact ⟨first, hc, if_pos rfl⟩
          · obtain ⟨bound, hbound, hfind⟩ := hfound col ((List.mem_cons.mp hcol).resolve_left fun h => heq h.symm)
            exact ⟨bound, hbound, (if_neg heq).trans hfind⟩
        · intro col hcol
          obtain ⟨hne, hnot⟩ := List.ne_and_not_mem_of_not_mem_cons hcol
          rw [List.zip_cons_cons, Dict.find, if_neg fun heq => hne heq.symm]
          exact hother col hnot

/-! ### The loops of the clients -/

open Transaction in
/-- The loop of SQLite that ends with a count has inserted every row. -/
theorem exec_insertLoop {engine : SqliteEngine D F} {sql : Str} {columns : List Str} {rows : List (RowDict F)} {d w : D}
    {count n : Int} (h : (Proc.exec engine.serve (insertLoop sql columns count rows) ⟨d, some w⟩).2.count = some n) :
    (BulkClient.sqlite engine).insertRows sql columns w rows =
      some (Proc.exec engine.serve (insertLoop sql columns count rows) ⟨d, some w⟩).1.durable := by
  induction rows generalizing w count with
  | nil =>
    rw [insertLoop, Proc.exec_call] at h ⊢
    have hserve : engine.serve ⟨d, some w⟩ .commit = engine.commit ⟨d, some w⟩ w := rfl
    rw [hserve, Engine.commit] at h ⊢
    cases hcommit : engine.commitError w with
    | none => rfl
    | some x =>
      rw [hcommit] at h
      cases h
  | cons row rows ih =>
    have hbind : bindAll (BulkClient.sqlite engine).bind (rowValues columns row) =
        serializeAll (columns.map fun col => (row.get col).getD (.value .none)) := bindAll_serializeValue _
    rw [insertLoop] at h ⊢
    rw [BulkClient.insertRows, hbind]
    cases hvalues : serializeAll (columns.map fun col => (row.get col).getD (.value .none)) with
    | error e =>
      rw [hvalues] at h
      cases h
    | ok values =>
      rw [hvalues] at h
      dsimp only [BulkClient.write] at h ⊢
      rw [Proc.exec_call] at h ⊢
      cases happly : engine.apply ⟨sql, values⟩ w with
      | error e =>
        have hserve : engine.serve ⟨d, some w⟩ (.statement ⟨sql, values⟩) = (⟨d, some w⟩, .error e) := by
          simp only [Engine.serve, happly]
        rw [hserve] at h
        cases h
      | ok r =>
        have hserve : engine.serve ⟨d, some w⟩ (.statement ⟨sql, values⟩) = (⟨d, some r.1⟩, .ok (some r.2)) := by
          simp only [Engine.serve, happly]
        rw [hserve] at h ⊢
        exact ih h

open Transaction in
/-- The loop of DuckDB that ends with a count has inserted every row. -/
theorem exec_duckInsertLoop {engine : DuckEngine D F} {sql : Str} {columns : List Str} {rows : List (RowDict F)} {d : D}
    {count n : Int} (h : (Proc.exec engine.serve (duckInsertLoop sql columns count rows) ⟨d, none⟩).2.count = some n) :
    (BulkClient.duckdb engine).insertRows sql columns d rows =
      some (Proc.exec engine.serve (duckInsertLoop sql columns count rows) ⟨d, none⟩).1.durable := by
  induction rows generalizing d count with
  | nil => rfl
  | cons row rows ih =>
    have hbind : bindAll (BulkClient.duckdb engine).bind (rowValues columns row) = .ok (rowValues columns row) :=
      bindAll_same _
    rw [duckInsertLoop, Proc.exec_call] at h ⊢
    rw [BulkClient.insertRows, hbind]
    dsimp only [BulkClient.write]
    cases happly : engine.apply ⟨sql, rowValues columns row⟩ d with
    | error e =>
      have hserve : engine.serve ⟨d, none⟩ (.statement ⟨sql, rowValues columns row⟩) = (⟨d, none⟩, .error e) := by
        simp only [Engine.serve, happly]
      rw [hserve] at h
      cases h
    | ok r =>
      cases hcommit : engine.commitError r.1 with
      | some e =>
        have hserve : engine.serve ⟨d, none⟩ (.statement ⟨sql, rowValues columns row⟩) = (⟨d, none⟩, .error e) := by
          simp only [Engine.serve, happly, hcommit]
        rw [hserve] at h
        cases h
      | none =>
        have hserve : engine.serve ⟨d, none⟩ (.statement ⟨sql, rowValues columns row⟩) =
            (⟨r.1, none⟩, .ok (some r.2)) := by
          simp only [Engine.serve, happly, hcommit]
        rw [hserve] at h ⊢
        simp only [hcommit]
        exact ih h

open Session in
/-- The loop of PostgreSQL that ends with a count has inserted every row. -/
theorem exec_pgInsertLoop {server : PostgresServer D F} {path : SearchPath} {sql : Str} {columns : List Str}
    {rows : List (RowDict F)} {s : PgSession D F} {w : D} {count n : Int} (hs : s.txn = some ⟨w, path, false⟩)
    (h : (Proc.exec server.engine.serve (pgInsertLoop sql columns count rows) s).2.count = some n) :
    (BulkClient.postgres server path).insertRows sql columns w rows =
      some (Proc.exec server.engine.serve (pgInsertLoop sql columns count rows) s).1.durable := by
  induction rows generalizing s w count with
  | nil =>
    rw [pgInsertLoop, finish, Proc.exec_call] at h ⊢
    have hserve : server.engine.serve s .commit = server.engine.inside s ⟨w, path, false⟩ .commit := by
      simp only [Engine.serve, hs, Bool.false_eq_true, if_false]
    rw [hserve, Engine.inside] at h ⊢
    cases hcommit : server.engine.commitError w with
    | none => rfl
    | some x =>
      rw [hcommit] at h
      cases h
  | cons row rows ih =>
    have hbind : bindAll (BulkClient.postgres server path).bind (rowValues columns row) =
        .ok (rowValues columns row) := bindAll_same _
    rw [pgInsertLoop, Proc.exec_call] at h ⊢
    rw [BulkClient.insertRows, hbind]
    dsimp only [BulkClient.write]
    have hserve : server.engine.serve s (.statement ⟨sql, rowValues columns row⟩) =
        server.engine.inside s ⟨w, path, false⟩ (.statement ⟨sql, rowValues columns row⟩) := by
      simp only [Engine.serve, hs, Bool.false_eq_true, if_false]
    rw [hserve, Engine.inside] at h ⊢
    have hsame : server.engine.apply path ⟨sql, rowValues columns row⟩ w =
        server.apply path ⟨sql, rowValues columns row⟩ w := rfl
    rw [hsame] at h ⊢
    cases happly : server.apply path ⟨sql, rowValues columns row⟩ w with
    | error e =>
      rw [happly] at h
      cases h
    | ok r =>
      rw [happly] at h
      exact ih rfl h

end Runs

/-! ## What is stored -/

section Storing
variable {D F : Type} [PyFloat F] {client : BulkClient D F} {call : BulkInsert F} {t : SqlTable F} {view : TableView D F}

/-- A call that reports a count has sent one INSERT for each row. -/
theorem insert_reported {d : D} {n : Int} (hrows : call.rows ≠ []) (h : (client.insert call d).2 = some n) :
    ∃ sql, client.insertSql call = .ok sql ∧
      client.insertRows sql call.columns d call.rows = some (client.insert call d).1 := by
  obtain ⟨table, rows, returning, schema⟩ := call
  cases rows with
  | nil => exact absurd rfl hrows
  | cons first rest =>
    cases client with
    | sqlite engine => exact ⟨_, rfl, exec_insertLoop h⟩
    | duckdb engine =>
      simp only [BulkClient.insert, insertMany] at h ⊢
      simp only [BulkClient.insertSql, BulkInsert.columns]
      cases htable : duckValidateIdentifier table (lit "table name") with
      | error e =>
        rw [htable] at h
        cases h
      | ok validatedTable =>
        cases hcolumns : validateColumns first.keys with
        | error e =>
          rw [htable, hcolumns] at h
          cases h
        | ok validatedColumns =>
          rw [htable, hcolumns] at h
          exact ⟨_, rfl, exec_duckInsertLoop h⟩
    | postgres server path =>
      simp only [BulkClient.insert, pgInsertInto] at h ⊢
      simp only [BulkClient.insertSql, BulkInsert.columns]
      cases htarget : pgTarget schema table with
      | error e =>
        rw [htarget] at h
        cases h
      | ok target =>
        rw [htarget] at h
        exact ⟨_, rfl, exec_pgInsertLoop rfl h⟩

/-- The rows that the INSERTs store, one for each row dict. -/
theorem rows_insertRows (hins : client.Inserts call t view) {sql : Str} (hsql : client.insertSql call = .ok sql)
    {rows : List (RowDict F)} {d d' : D} (h : client.insertRows sql call.columns d rows = some d') :
    ∃ stored, view.rows d' = view.rows d ++ stored ∧
      List.Forall₂ (fun x r => ∃ values, bindAll client.bind (rowValues call.columns x.1) = .ok values ∧
        r = t.rowOf x.2 call.columns values) (rows.zipIdx (view.inserts d)) stored := by
  induction rows generalizing d with
  | nil =>
    cases h
    exact ⟨[], (List.append_nil _).symm, .nil⟩
  | cons row rows ih =>
    rw [BulkClient.insertRows] at h
    cases hvalues : bindAll client.bind (rowValues call.columns row) with
    | error e =>
      rw [hvalues] at h
      cases h
    | ok values =>
      rw [hvalues] at h
      dsimp only at h
      have hlength := (find_bound hvalues).1
      cases hwrite : client.write ⟨sql, values⟩ d with
      | error e =>
        rw [hwrite] at h
        cases h
      | ok d₁ =>
        rw [hwrite] at h
        obtain ⟨stored, hrows, hstored⟩ := ih h
        rw [hins.counted sql values d d₁ hsql hlength hwrite] at hstored
        refine ⟨t.rowOf (view.inserts d) call.columns values :: stored, ?_, .cons ⟨values, hvalues, rfl⟩ hstored⟩
        rw [hrows, hins.stored sql values d d₁ hsql hlength hwrite, List.append_assoc, List.singleton_append]

theorem bind_null (client : BulkClient D F) : client.bind (.value .none) = .ok (.value .none) := by
  cases client with
  | postgres server path => rfl
  | sqlite engine => rfl
  | duckdb engine => rfl

/-- One INSERT stores the row dict exactly when the columns cover it. -/
theorem storedAs_rowOf_iff {columns : List Str} {n : Nat} {row : RowDict F} {values : List (SqlValue F)}
    (h : bindAll client.bind (rowValues columns row) = .ok values) :
    StoredAs client t n row (t.rowOf n columns values) ↔ Covered client t columns n row := by
  obtain ⟨-, hfound, hother⟩ := find_bound h
  have hnull : ∀ col ∈ columns, row.get col = none → t.rowOf n columns values col = t.cell n col (some (.value .none)) := by
    intro col hcol hget
    obtain ⟨bound, hbound, hfind⟩ := hfound col hcol
    rw [hget, Option.getD_none, bind_null] at hbound
    rw [SqlTable.rowOf, hfind, ← Except.ok.inj hbound]
  have hrest : ∀ col ∉ columns, t.rowOf n columns values col = t.cell n col none := by
    intro col hcol
    rw [SqlTable.rowOf, hother col hcol]
  constructor
  · intro hs
    refine ⟨?_, ?_, ?_⟩
    · intro col hcol v hv
      obtain ⟨bound, hbound, heq⟩ := hs.present col v hv
      exact ⟨bound, hbound, (hrest col hcol).symm.trans heq⟩
    · intro col hcol htable hget
      exact (hnull col hcol hget).symm.trans (hs.absent col htable hget)
    · intro col htable hcol hget
      exact (hrest col hcol).symm.trans (hs.absent col htable hget)
  · intro hc
    refine ⟨?_, ?_⟩
    · intro col v hv
      by_cases hcol : col ∈ columns
      · obtain ⟨bound, hbound, hfind⟩ := hfound col hcol
        rw [hv, Option.getD_some] at hbound
        exact ⟨bound, hbound, by rw [SqlTable.rowOf, hfind]⟩
      · obtain ⟨bound, hbound, heq⟩ := hc.unsent col hcol v hv
        exact ⟨bound, hbound, (hrest col hcol).trans heq⟩
    · intro col htable hget
      by_cases hcol : col ∈ columns
      · exact (hnull col hcol hget).trans (hc.named col hcol htable hget)
      · exact (hrest col hcol).trans (hc.unnamed col htable hcol hget)

theorem forall₂_iff_of_forall₂ {A B : Type} {P Q : A → B → Prop} {C : A → Prop} {as : List A} {bs : List B}
    (h : List.Forall₂ Q as bs) (hiff : ∀ a b, Q a b → (P a b ↔ C a)) : List.Forall₂ P as bs ↔ ∀ a ∈ as, C a := by
  induction h with
  | nil => exact iff_of_true .nil (fun a ha => nomatch ha)
  | @cons a b as bs hab _ ih => rw [List.forall₂_cons, List.forall_mem_cons, hiff a b hab, ih]

/-- A call that reports success has stored every row dict exactly when the first row's keys cover them all. -/
theorem bulk_insert_complete_iff (hins : client.Inserts call t view) (hrows : call.rows ≠ []) {d : D}
    (h : (client.insert call d).2 = some (call.rows.length : Int)) :
    AllStored client t view call.rows d (client.insert call d).1 ↔
      ∀ x ∈ call.rows.zipIdx (view.inserts d), Covered client t call.columns x.2 x.1 := by
  obtain ⟨sql, hsql, hrun⟩ := insert_reported hrows h
  obtain ⟨stored, hstored, hall⟩ := rows_insertRows hins hsql hrun
  have hiff : List.Forall₂ (fun x r => StoredAs client t x.2 x.1 r) (call.rows.zipIdx (view.inserts d)) stored ↔
      ∀ x ∈ call.rows.zipIdx (view.inserts d), Covered client t call.columns x.2 x.1 := by
    refine forall₂_iff_of_forall₂ hall ?_
    rintro x r ⟨values, hvalues, rfl⟩
    exact storedAs_rowOf_iff hvalues
  rw [← hiff]
  constructor
  · rintro ⟨stored', hstored', hforall⟩
    rw [hstored] at hstored'
    rwa [List.append_cancel_left hstored']
  · intro hforall
    exact ⟨stored, hstored, hforall⟩

end Storing

/-! ## Plain tables -/

/-- A table that stores what it is given, and NULL otherwise. -/
def SqlTable.Plain {F : Type} (t : SqlTable F) : Prop := ∀ n col given, t.cell n col given = given.getD (.value .none)

section Plain
variable {D F : Type} [PyFloat F] {client : BulkClient D F} {t : SqlTable F}

theorem bind_eq_null_iff {v : SqlValue F} : client.bind v = .ok (.value .none) ↔ v = .value .none := by
  constructor
  · intro h
    cases client with
    | postgres server path => exact Except.ok.inj h
    | duckdb engine => exact Except.ok.inj h
    | sqlite engine =>
      have hdumped : ∀ m : PyValue F, (PyValue.dumps m).map (fun text => (.value (.str text) : SqlValue F)) ≠
          .ok (.value .none) := by
        intro m hm
        cases htext : PyValue.dumps m with
        | error e =>
          rw [htext] at hm
          cases hm
        | ok text =>
          rw [htext] at hm
          cases hm
      cases v with
      | bytes b => cases h
      | value x =>
        cases x with
        | dict m => exact absurd h (hdumped _)
        | list xs => exact absurd h (hdumped _)
        | none => rfl
        | _ => cases h
  · rintro rfl
    exact bind_null client

/-- Into a plain table, the rows that come through whole are those with nothing but None under a key the
first row lacks. -/
theorem covered_plain_iff (ht : t.Plain) {columns : List Str} {n : Nat} {row : RowDict F} :
    Covered client t columns n row ↔ ∀ col ∉ columns, ∀ v, row.get col = some v → v = .value .none := by
  constructor
  · intro hc col hcol v hv
    obtain ⟨bound, hbound, heq⟩ := hc.unsent col hcol v hv
    rw [ht, ht, Option.getD_none, Option.getD_some] at heq
    exact bind_eq_null_iff.mp (heq ▸ hbound)
  · intro h
    refine ⟨?_, fun _ _ _ _ => ht _ _ _, fun _ _ _ _ => ht _ _ _⟩
    intro col hcol v hv
    refine ⟨.value .none, ?_, ?_⟩
    · rw [h col hcol v hv]
      exact bind_null client
    · rw [ht, ht]
      rfl

end Plain

/-! ## Two items -/

def items : SqlTable Unit := ⟨[lit "name", lit "size"], fun _ _ given => given.getD (.value .none)⟩

def itemView : TableView (List (Row Unit)) Unit := ⟨id, List.length⟩

/-- A database that knows the INSERTs into the table with these columns. -/
def keepItems (columns : List Str) (q : Statement Unit) (d : List (Row Unit)) : Except Str (List (Row Unit)) :=
  if q.sql ∈ [pgInsertText (lit "items") columns false, duckInsertText (lit "items") columns] then
    .ok (d ++ [items.rowOf d.length columns q.params])
  else .error (lit "syntax error")

def itemClients (columns : List Str) : List (BulkClient (List (Row Unit)) Unit) :=
  [.postgres ⟨fun _ q d => (keepItems columns q d).map (·, ⟨lit "INSERT 0 1", []⟩), fun _ => none, fun _ => none,
      [publicSchema]⟩ [publicSchema],
    .sqlite ⟨fun q d => (keepItems columns q d).map (·, 1), fun _ => none, [], []⟩,
    .duckdb ⟨fun q d => (keepItems columns q d).map (·, ()), fun _ => none, [], []⟩]

theorem keepItems_ok {columns : List Str} {q : Statement Unit} {d d' : List (Row Unit)}
    (h : keepItems columns q d = .ok d') : d' = d ++ [items.rowOf d.length columns q.params] := by
  rw [keepItems] at h
  split at h
  · exact (Except.ok.inj h).symm
  · cases h

theorem write_itemClients {columns : List Str} {client : BulkClient (List (Row Unit)) Unit}
    (hc : client ∈ itemClients columns) (q : Statement Unit) (d : List (Row Unit)) :
    client.write q d = keepItems columns q d := by
  have hmap : ∀ {R : Type} (r : R), ((keepItems columns q d).map (·, r)).map Prod.fst = keepItems columns q d := by
    intro R r
    cases keepItems columns q d <;> rfl
  rcases List.mem_cons.mp hc with rfl | hc
  · exact hmap _
  rcases List.mem_cons.mp hc with rfl | hc
  · exact hmap _
  rw [List.mem_singleton.mp hc]
  dsimp only [BulkClient.write]
  cases keepItems columns q d <;> rfl

theorem inserts_itemClients {call : BulkInsert Unit} {client : BulkClient (List (Row Unit)) Unit}
    (hc : client ∈ itemClients call.columns) : client.Inserts call items itemView where
  stored sql values d d' _ _ hwrite := keepItems_ok ((write_itemClients hc _ _).symm.trans hwrite)
  counted sql values d d' _ _ hwrite := by
    rw [keepItems_ok ((write_itemClients hc _ _).symm.trans hwrite)]
    exact List.length_append

def item (name : String) (size : Option Int) : RowDict Unit :=
  let named := Dict.empty.set (lit "name") (.value (.str (lit name)))
  match size with
  | some n => named.set (lit "size") (.value (.int n))
  | none => named

/-- The first item has every column. -/
def sizedFirst : BulkInsert Unit := ⟨lit "items", [item "box" (some 1), item "lid" none], false, publicSchema⟩

/-- The second item has a column that the first lacks. -/
def sizedLast : BulkInsert Unit := ⟨lit "items", [item "lid" none, item "box" (some 1)], false, publicSchema⟩

theorem report_itemClients {call : BulkInsert Unit} (hcall : call = sizedFirst ∨ call = sizedLast)
    {client : BulkClient (List (Row Unit)) Unit} (hc : client ∈ itemClients call.columns) :
    (client.insert call []).2 = some 2 := by
  rcases hcall with rfl | rfl <;>
  · rcases List.mem_cons.mp hc with rfl | hc
    · decide
    rcases List.mem_cons.mp hc with rfl | hc
    · decide
    rw [List.mem_singleton.mp hc]
    decide

theorem sizedFirst_complete : (itemClients sizedFirst.columns).Forall fun client =>
    AllStored client items itemView sizedFirst.rows [] (client.insert sizedFirst []).1 := by
  refine List.forall_iff_forall_mem.mpr ?_
  intro client hc
  have hkeys : ∀ row ∈ sizedFirst.rows, ∀ col ∈ row.keys, col ∈ sizedFirst.columns := by decide
  refine (bulk_insert_complete_iff (inserts_itemClients hc) (List.cons_ne_nil _ _)
    (report_itemClients (Or.inl rfl) hc)).mpr ?_
  intro x hx
  refine (covered_plain_iff fun _ _ _ => rfl).mpr ?_
  intro col hcol v hv
  have hrow : x.1 ∈ sizedFirst.rows := List.fst_mem_of_mem_zipIdx hx
  exact absurd (hkeys x.1 hrow col (Dict.mem_keys.mpr (hv ▸ rfl))) hcol

/-- Two rows are reported, and the size of the second is not there. -/
theorem sizedLast_incomplete : (itemClients sizedLast.columns).Forall fun client =>
    client.Inserts sizedLast items itemView ∧ (client.insert sizedLast []).2 = some 2 ∧
      ¬ AllStored client items itemView sizedLast.rows [] (client.insert sizedLast []).1 := by
  refine List.forall_iff_forall_mem.mpr ?_
  intro client hc
  have hreport := report_itemClients (Or.inr rfl) hc
  refine ⟨inserts_itemClients hc, hreport, ?_⟩
  rintro ⟨stored, hstored, hall⟩
  obtain ⟨sql, hsql, hrun⟩ := insert_reported (List.cons_ne_nil _ _) hreport
  obtain ⟨inserted, hinserted, hrows⟩ := rows_insertRows (inserts_itemClients hc) hsql hrun
  rw [hinserted] at hstored
  obtain rfl := List.append_cancel_left hstored
  cases hrows with
  | cons _ hrest =>
    cases hrest with
    | cons hlast _ =>
      obtain ⟨values, hvalues, rfl⟩ := hlast
      cases hall with
      | cons _ hkept =>
        cases hkept with
        | cons hbox _ =>
          have hcovered := (covered_plain_iff fun _ _ _ => rfl).mp ((storedAs_rowOf_iff hvalues).mp hbox)
          cases hcovered (lit "size") (by decide) (.value (.int 1)) rfl

end IsaCloud.Database
