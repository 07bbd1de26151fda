import IsaCloud.Database.SqlText
import IsaCloud.Support.Dict
import IsaCloud.Support.Transaction

/-!
# The writing methods of the SQLite client

`AsyncSQLiteClient` sends every statement over one connection in autocommit mode
and writes BEGIN, COMMIT and ROLLBACK itself. The methods are processes over that
connection, one command per `await`. A statement of a caller is one that works
inside a transaction; log lines and the closing of cursors are left out.
-/

namespace IsaCloud.Database

set_option autoImplicit false

open Support Support.Text Support.Python Support.Transaction

structure OperationResult where
  rowsAffected : Int
  error : Str

structure BatchReport where
  totalRowsAffected : Int
  results : List OperationResult

/-- What a method returns. -/
inductive SqlReply where
  | rows (n : Option Int)
  | report (r : Option BatchReport)
  | done (ok : Bool)

/-- The method reports failure. -/
def SqlReply.Failed : SqlReply → Prop
  | .rows n => n = none
  | .report r => r = none
  | .done ok => ok = false

/-- A statement answers its `rowcount`, which is `-1` unless it is an INSERT, UPDATE or DELETE, and fails
with a text. -/
abbrev SqliteEngine (D F : Type) := Engine D (Statement F) Int Str

abbrev SqliteCode (F : Type) := Code (Statement F) Int Str SqlReply

def rowcountOf (r : Option Int) : Int := r.getD (-1)

section Methods
variable [RegexTables] {F : Type} [PyFloat F]

def execute (sql : Str) (params : Option (List (SqlValue F))) (schema : Str) : SqliteCode F :=
  match sqliteStatement schema sql (params.getD []) with
  | .error _ => .ret (.rows none)
  | .ok q => .call (.statement q) fun
    | .error _ => .ret (.rows none)
    | .ok rowcount => .call .commitIfOpen fun
      | .error _ => .ret (.rows none)
      | .ok _ => .ret (.rows (some (rowcountOf rowcount)))

/-- `except Exception: ROLLBACK; raise`, and the outer handler. -/
def rollBack (o : SqlReply) : SqliteCode F := .call .rollback fun _ => .ret o

def batchLoop (schema : Str) (totalRows : Int) (results : List OperationResult) :
    List (Operation F) → SqliteCode F
  | [] => .call .commit fun
    | .error _ => rollBack (.report none)
    | .ok _ => .ret (.report (some ⟨totalRows, results⟩))
  | op :: ops =>
    match sqliteStatement schema op.text op.values with
    | .error _ => rollBack (.report none)
    | .ok q => .call (.statement q) fun
      | .ok rowcount => batchLoop schema (totalRows + rowcountOf rowcount) (results ++ [⟨rowcountOf rowcount, []⟩]) ops
      | .error e => batchLoop schema totalRows (results ++ [⟨0, e⟩]) ops

def executeBatch (operations : List (Operation F)) (schema : Str) : SqliteCode F :=
  .call .begin fun
    | .error _ => .ret (.report none)
    | .ok _ => batchLoop schema 0 [] operations

def tableName (schema table : Str) : Str := if schema ≠ publicSchema then schema ++ lit "_" ++ table else table

def insertText (schema table : Str) (columns : List Str) : Str :=
  lit "INSERT INTO " ++ tableName schema table ++ lit " (" ++ (lit ", ").intercalate columns ++ lit ") VALUES (" ++
    (lit ", ").intercalate (columns.map fun _ => lit "?") ++ lit ")"

def insertLoop (sql : Str) (columns : List Str) (count : Int) : List (Dict Str (SqlValue F)) → SqliteCode F
  | [] => .call .commit fun
    | .error _ => rollBack (.rows none)
    | .ok _ => .ret (.rows (some count))
  | row :: rows =>
    match serializeAll (columns.map fun col => (row.get col).getD (.value .none)) with
    | .error _ => rollBack (.rows none)
    | .ok values => .call (.statement ⟨sql, values⟩) fun
      | .error _ => rollBack (.rows none)
      | .ok _ => insertLoop sql columns (count + 1) rows

def insertInto (table : Str) (rows : List (Dict Str (SqlValue F))) (schema : Str) : SqliteCode F :=
  match rows with
  | [] => .ret (.rows (some 0))
  | first :: rest =>
    .call .begin fun
      | .error _ => .ret (.rows none)
      | .ok _ => insertLoop (insertText schema table first.keys) first.keys 0 (first :: rest)

def transactionLoop (schema : Str) : List (Operation F) → SqliteCode F
  | [] => .call .commit fun
    | .error _ => rollBack (.done false)
    | .ok _ => .ret (.done true)
  | op :: ops =>
    match sqliteStatement schema op.text op.values with
    | .error _ => rollBack (.done false)
    | .ok q => .call (.statement q) fun
      | .error _ => rollBack (.done false)
      | .ok _ => transactionLoop schema ops

def executeInTransaction (operations : List (Operation F)) (schema : Str) : SqliteCode F :=
  .call .begin fun
    | .error _ => .ret (.done false)
    | .ok _ => transactionLoop schema operations

end Methods

/-! ## Calls of the methods -/

inductive SqlCall (F : Type) where
  | execute (sql : Str) (params : Option (List (SqlValue F))) (schema : Str)
  | executeBatch (operations : List (Operation F)) (schema : Str)
  | insertInto (table : Str) (rows : List (Dict Str (SqlValue F))) (schema : Str)
  | executeInTransaction (operations : List (Operation F)) (schema : Str)

section Code
variable [RegexTables] {F : Type} [PyFloat F]

def SqlCall.code : SqlCall F → SqliteCode F
  | .execute sql params schema => Database.execute sql params schema
  | .executeBatch operations schema => Database.executeBatch operations schema
  | .insertInto table rows schema => Database.insertInto table rows schema
  | .executeInTransaction operations schema => Database.executeInTransaction operations schema

/-! ## The methods are well-behaved -/

variable {D : Type} {e : SqliteEngine D F}

omit [RegexTables] [PyFloat F] in
theorem within_rollBack {o : SqlReply} : Within e SqlReply.Failed (rollBack o : SqliteCode F) := by
  refine ⟨fun h => (nomatch h), ?_⟩
  intro d w
  exact ⟨o, rfl, fun _ => rfl⟩

omit [RegexTables] [PyFloat F] in
/-- A commit that succeeds reports success; one that fails is rolled back. -/
theorem within_commit {k : Answer Int Str → SqliteCode F} {o o' : SqlReply} (hok : k (.ok none) = .ret o)
    (hfail : ¬ o.Failed) (herror : ∀ x, k (.error x) = rollBack o') :
    Within e SqlReply.Failed (.call .commit k : SqliteCode F) := by
  refine ⟨fun h => (nomatch h), ?_⟩
  intro d w
  have hserve : e.serve ⟨d, some w⟩ .commit = e.commit ⟨d, some w⟩ w := rfl
  rw [hserve, Engine.commit]
  cases e.commitError w with
  | none => exact ⟨o, by rw [hok]; rfl, fun h => absurd h hfail⟩
  | some x =>
    show Within e SqlReply.Failed (k (.error x))
    rw [herror]
    exact within_rollBack

omit [RegexTables] [PyFloat F] in
theorem within_statement {q : Statement F} {k : Answer Int Str → SqliteCode F}
    (h : ∀ a, Within e SqlReply.Failed (k a)) : Within e SqlReply.Failed (.call (.statement q) k : SqliteCode F) := by
  refine ⟨fun h => (nomatch h), ?_⟩
  intro d w
  cases hq : e.apply q w with
  | error x =>
    have hserve : e.serve ⟨d, some w⟩ (.statement q) = (⟨d, some w⟩, .error x) := by simp [Engine.serve, hq]
    rw [hserve]
    exact h (.error x)
  | ok r =>
    have hserve : e.serve ⟨d, some w⟩ (.statement q) = (⟨d, some r.1⟩, .ok (some r.2)) := by simp [Engine.serve, hq]
    rw [hserve]
    exact h (.ok (some r.2))

theorem within_batchLoop (schema : Str) (ops : List (Operation F)) (total : Int) (results : List OperationResult) :
    Within e SqlReply.Failed (batchLoop schema total results ops) := by
  induction ops generalizing total results with
  | nil => exact within_commit rfl (fun h => nomatch h) fun _ => rfl
  | cons op ops ih =>
    rw [batchLoop]
    cases sqliteStatement schema op.text op.values with
    | error x => exact within_rollBack
    | ok q =>
      refine within_statement ?_
      intro a
      cases a with
      | error x => exact ih _ _
      | ok r => exact ih _ _

omit [RegexTables] in
theorem within_insertLoop (sql : Str) (columns : List Str) (rows : List (Dict Str (SqlValue F))) (count : Int) :
    Within e SqlReply.Failed (insertLoop sql columns count rows) := by
  induction rows generalizing count with
  | nil => exact within_commit rfl (fun h => nomatch h) fun _ => rfl
  | cons row rows ih =>
    rw [insertLoop]
    cases serializeAll (columns.map fun col => (row.get col).getD (.value .none)) with
    | error x => exact within_rollBack
    | ok values =>
      refine within_statement ?_
      intro a
      cases a with
      | error x => exact within_rollBack
      | ok r => exact ih _

theorem within_transactionLoop (schema : Str) (ops : List (Operation F)) :
    Within e SqlReply.Failed (transactionLoop schema ops) := by
  induction ops with
  | nil => exact within_commit rfl (fun h => nomatch h) fun _ => rfl
  | cons op ops ih =>
    rw [transactionLoop]
    cases sqliteStatement schema op.text op.values with
    | error x => exact within_rollBack
    | ok q =>
      refine within_statement ?_
      intro a
      cases a with
      | error x => exact within_rollBack
      | ok r => exact ih

theorem guest_execute (sql : Str) (params : Option (List (SqlValue F))) (schema : Str) :
    Guest e SqlReply.Failed (execute sql params schema) := by
  rw [execute]
  cases sqliteStatement schema sql (params.getD []) with
  | error x => exact trivial
  | ok q =>
    intro a
    cases a with
    | error x => exact ⟨.rows none, rfl, fun _ => ⟨x, rfl⟩⟩
    | ok r => exact ⟨.rows (some (rowcountOf r)), fun d => ⟨.ok none, rfl, rfl⟩, fun h => nomatch h⟩

theorem SqlCall.guest (call : SqlCall F) : Guest e SqlReply.Failed call.code := by
  cases call with
  | execute sql params schema => exact guest_execute sql params schema
  | executeBatch operations schema =>
    exact ⟨fun x => ⟨.report none, rfl, rfl⟩, within_batchLoop schema operations 0 []⟩
  | insertInto table rows schema =>
    cases rows with
    | nil => exact trivial
    | cons first rest => exact ⟨fun x => ⟨.rows none, rfl, rfl⟩, within_insertLoop _ _ _ _⟩
  | executeInTransaction operations schema =>
    exact ⟨fun x => ⟨.done false, rfl, rfl⟩, within_transactionLoop schema operations⟩

end Code

/-! ## A small database -/

/-- A database that keeps the texts of the statements; the text `bad` fails. -/
def logEngine : SqliteEngine (List Str) Unit where
  apply q d := if q.sql = lit "bad" then .error (lit "near \"bad\": syntax error") else .ok (d ++ [q.sql], 1)
  commitError _ := none
  nested := lit "cannot start a transaction within a transaction"
  inactive := lit "cannot commit - no transaction is active"

def operation (sql : String) : Operation Unit := ⟨some (lit sql), none⟩

/-! ## Concurrent writes over the shared connection

The SQLite client has one connection and no lock. As long as no call sends a
statement, a commit or a rollback into a transaction another call has begun, the
calls that report success are serialized and the others write nothing. Without
that a commit of one call makes half of another durable.
-/

section Runs
variable [RegexTables] {F : Type} [PyFloat F] {D : Type}

/-- In every run of calls that leave each other's transactions alone, the committed database is
that of the successful calls executed one after the other. -/
theorem sqlite_calls_serialized (e : SqliteEngine D F) (d₀ : D) {acts : List (PoolAction Empty (SqlCall F))}
    (hg : Guarded (Shared.step e SqlCall.code) Undisturbed (Shared.start d₀) acts) :
    ∃ done, Serialized (e := e) SqlCall.code SqlReply.Failed d₀
      (run (Shared.step e SqlCall.code) (Shared.start d₀) acts).pool done := by
  obtain ⟨done, h⟩ := serializing_run SqlCall.guest (serializing_start d₀) hg
  exact ⟨done, h.serialized⟩

end Runs

/-! ## Two calls -/

section Example

attribute [local instance] asciiTables

def batchOf (sqls : List String) : SqlCall Unit := .executeInTransaction (sqls.map operation) publicSchema

def single : SqlCall Unit := .execute (lit "x") none publicSchema

/-- The single statement waits for the transaction. -/
def politeActs : List (PoolAction Empty (SqlCall Unit)) :=
  [.invoke (batchOf ["a"]), .invoke single, .step 0, .step 0, .step 0, .step 1, .step 1]

theorem polite_calls_serialized : ∃ done, Serialized (e := logEngine) SqlCall.code SqlReply.Failed []
    (run (Shared.step logEngine SqlCall.code) (Shared.start []) politeActs).pool done := by
  refine sqlite_calls_serialized logEngine [] ?_
  refine ⟨trivial, trivial, ?_, ?_, ?_, ?_, ?_, trivial⟩
  · exact fun _ _ _ _ _ => Or.inl rfl
  · exact fun _ _ _ _ _ => Or.inr (Or.inl rfl)
  · exact fun _ _ _ _ _ => Or.inr (Or.inl rfl)
  · exact fun _ _ _ _ _ => Or.inl rfl
  · exact fun _ _ _ _ _ => Or.inl rfl

/-- The statement lands in the transaction, and its commit ends it before it fails. -/
def rudeActs : List (PoolAction Empty (SqlCall Unit)) :=
  [.invoke (batchOf ["a", "bad"]), .invoke single, .step 0, .step 0, .step 1, .step 1, .step 0, .step 0]

def rudePool : ConnPool (List Str) (SqlCall Unit) (Statement Unit) Int Str SqlReply :=
  (run (Shared.step logEngine SqlCall.code) (Shared.start []) rudeActs).pool

theorem rude_durable : rudePool.server.durable = [lit "a", lit "x"] := by decide

theorem rude_failed : rudePool.outOf 0 = some (.done false) := rfl

theorem replay_single (calls : List (SqlCall Unit)) (h : ∀ call ∈ calls, call = single) (d : List Str)
    (hd : lit "a" ∉ d) : lit "a" ∉ (replay (serial logEngine SqlCall.code) d calls).1 := by
  induction calls generalizing d with
  | nil => exact hd
  | cons call calls ih =>
    have hcall := h call (List.mem_cons_self ..)
    have hone : (serial logEngine SqlCall.code d call).1 = d ++ [lit "x"] := by
      rw [hcall]
      rfl
    rw [replay, hone]
    refine ih (fun c hc => h c (List.mem_cons_of_mem call hc)) _ ?_
    rw [List.mem_append, not_or]
    exact ⟨hd, by decide⟩

/-- The call that failed has a write that stays. -/
theorem failed_call_leaves_write :
    ¬ ∀ (D : Type) (e : SqliteEngine D Unit) (d₀ : D) (acts : List (PoolAction Empty (SqlCall Unit))),
      ∃ done, Serialized (e := e) SqlCall.code SqlReply.Failed d₀
        (run (Shared.step e SqlCall.code) (Shared.start d₀) acts).pool done := by
  intro h
  obtain ⟨done, hdone⟩ := h _ logEngine [] rudeActs
  have hdone : Serialized (e := logEngine) SqlCall.code SqlReply.Failed [] rudePool done := hdone
  have htrace := congrArg Prod.fst hdone.trace
  have hzero : 0 ∉ done.map Prod.fst := fun hm => (hdone.reported 0 _ rude_failed).mp hm rfl
  have hsingle : ∀ call ∈ done.filterMap fun x => rudePool.opOf x.1, call = single := by
    intro call hcall
    obtain ⟨⟨i, o⟩, hx, hop⟩ := List.mem_filterMap.mp hcall
    match i with
    | 0 => exact absurd (List.mem_map_of_mem hx) hzero
    | 1 =>
      have hone : rudePool.opOf 1 = some single := rfl
      rw [hone] at hop
      exact (Option.some.inj hop).symm
    | n + 2 =>
      have hnone : rudePool.opOf (n + 2) = none := rfl
      rw [hnone] at hop
      cases hop
  have hnot := replay_single _ hsingle [] (fun hm => nomatch hm)
  rw [htrace, rude_durable] at hnot
  exact hnot (List.mem_cons_self ..)

end Example

end IsaCloud.Database
