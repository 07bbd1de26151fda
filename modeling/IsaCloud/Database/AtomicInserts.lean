import IsaCloud.Database.BulkInsert

/-!
# All rows or none

What a bulk insert leaves behind when the INSERT of a row fails. PostgreSQL and
SQLite roll their transaction back. DuckDB has committed the rows before, and they
stay.
-/

namespace IsaCloud.Database

set_option autoImplicit false

open Support Support.Text Support.Python

section Atomic
variable {D F : Type} [PyFloat F] (client : BulkClient D F) (call : BulkInsert F) (t : SqlTable F) (view : TableView D F)

/-- The table has got the row of every row dict's INSERT, in order, and nothing else. -/
def InsertsAdded (d d' : D) : Prop :=
  ∃ stored, view.rows d' = view.rows d ++ stored ∧
    List.Forall₂ (fun x r => ∃ values, bindAll client.bind (rowValues call.columns x.1) = .ok values ∧
      r = t.rowOf x.2 call.columns values) (call.rows.zipIdx (view.inserts d)) stored

/-- The number of rows and all of them stored, or `None` and the table as it was. -/
def Atomic (d : D) : Prop :=
  ((client.insert call d).2 = some (call.rows.length : Int) ∧ InsertsAdded client call t view d (client.insert call d).1) ∨
    ((client.insert call d).2 = none ∧ view.rows (client.insert call d).1 = view.rows d)

/-- Without a transaction, an INSERT that fails is the first one. -/
def OnlyFirstFails (d : D) : Prop :=
  match client with
  | .duckdb _ => ∀ sql before row after d' e, client.insertSql call = .ok sql → call.rows = before ++ row :: after →
      client.insertRows sql call.columns d before = some d' →
      client.write ⟨sql, rowValues call.columns row⟩ d' = .error e → before = []
  | _ => True

end Atomic

/-! ## The transactions -/

section Transactions
variable {D F : Type} [PyFloat F]

/-- The count of all rows, or none and the committed database as it was. -/
def CountedOrKept (n : Int) (d : D) (count : Option Int) (durable : D) : Prop :=
  count = some n ∨ (count = none ∧ durable = d)

open Transaction in
theorem insertLoop_countedOrKept (engine : SqliteEngine D F) (sql : Str) (columns : List Str) (count : Int)
    (rows : List (RowDict F)) (d w : D) :
    CountedOrKept (count + rows.length) d
      (Proc.exec engine.serve (insertLoop sql columns count rows) ⟨d, some w⟩).2.count
      (Proc.exec engine.serve (insertLoop sql columns count rows) ⟨d, some w⟩).1.durable := by
  induction rows generalizing w count with
  | nil =>
    rw [insertLoop, Proc.exec_call]
    have hserve : engine.serve ⟨d, some w⟩ .commit = engine.commit ⟨d, some w⟩ w := rfl
    rw [hserve, Engine.commit]
    cases engine.commitError w with
    | none => exact Or.inl (congrArg some (Int.add_zero count).symm)
    | some x => exact Or.inr ⟨rfl, rfl⟩
  | cons row rows ih =>
    rw [insertLoop]
    cases serializeAll (columns.map fun col => (row.get col).getD (.value .none)) with
    | error e => exact Or.inr ⟨rfl, rfl⟩
    | ok values =>
      dsimp only
      rw [Proc.exec_call]
      cases happly : engine.apply ⟨sql, values⟩ w with
      | error e =>
        have hserve : engine.serve ⟨d, some w⟩ (.statement ⟨sql, values⟩) = (⟨d, some w⟩, .error e) := by
          simp only [Engine.serve, happly]
        rw [hserve]
        exact Or.inr ⟨rfl, rfl⟩
      | ok r =>
        have hserve : engine.serve ⟨d, some w⟩ (.statement ⟨sql, values⟩) = (⟨d, some r.1⟩, .ok (some r.2)) := by
          simp only [Engine.serve, happly]
        rw [hserve, List.length_cons, Nat.cast_add_one, Int.add_comm (rows.length : Int) 1, ← Int.add_assoc]
        exact ih (count + 1) r.1

omit [PyFloat F] in
open Session in
theorem pgInsertLoop_countedOrKept (server : PostgresServer D F) (path : SearchPath) (sql : Str) (columns : List Str)
    (count : Int) (rows : List (RowDict F)) {s : PgSession D F} {w : D} (hs : s.txn = some ⟨w, path, false⟩) :
    CountedOrKept (count + rows.length) s.durable
      (Proc.exec server.engine.serve (pgInsertLoop sql columns count rows) s).2.count
      (Proc.exec server.engine.serve (pgInsertLoop sql columns count rows) s).1.durable := by
  have hserve : ∀ c, server.engine.serve s c = server.engine.inside s ⟨w, path, false⟩ c := by
    intro c
    simp only [Engine.serve, hs, Bool.false_eq_true, if_false]
  induction rows generalizing s w count with
  | nil =>
    rw [pgInsertLoop, finish, Proc.exec_call, hserve, Engine.inside]
    cases server.engine.commitError w with
    | none => exact Or.inl (congrArg some (Int.add_zero count).symm)
    | some x => exact Or.inr ⟨rfl, rfl⟩
  | cons row rows ih =>
    rw [pgInsertLoop, Proc.exec_call, hserve, Engine.inside]
    cases server.engine.apply path ⟨sql, rowValues columns row⟩ w with
    | error e => exact Or.inr ⟨rfl, rfl⟩
    | ok r =>
      rw [List.length_cons, Nat.cast_add_one, Int.add_comm (rows.length : Int) 1, ← Int.add_assoc]
      exact ih (count + 1) rfl fun c => rfl

end Transactions

/-! ## One INSERT after the other -/

section Single
variable {D F : Type} [PyFloat F] {engine : DuckEngine D F} {sql : Str} {columns : List Str}

omit [PyFloat F] in
open Transaction in
theorem duck_serve (q : Statement F) (d : D) :
    (∃ r d', engine.serve ⟨d, none⟩ (.statement q) = (⟨d', none⟩, .ok r) ∧ (BulkClient.duckdb engine).write q d = .ok d') ∨
      ∃ e, engine.serve ⟨d, none⟩ (.statement q) = (⟨d, none⟩, .error e) ∧
        (BulkClient.duckdb engine).write q d = .error e := by
  cases happly : engine.apply q d with
  | error e => exact Or.inr ⟨e, by simp only [Engine.serve, happly], by simp only [BulkClient.write, happly]⟩
  | ok r =>
    cases hcommit : engine.commitError r.1 with
    | some e =>
      exact Or.inr ⟨e, by simp only [Engine.serve, happly, hcommit], by simp only [BulkClient.write, happly, hcommit]⟩
    | none =>
      exact Or.inl ⟨some r.2, r.1, by simp only [Engine.serve, happly, hcommit],
        by simp only [BulkClient.write, happly, hcommit]⟩

/-- The rows before the first INSERT that fails are in the database, all of them if none fails. -/
theorem exec_duckInsertLoop_split (count : Int) (rows : List (RowDict F)) (d : D) :
    ∃ before after, rows = before ++ after ∧
      (BulkClient.duckdb engine).insertRows sql columns d before =
        some (Proc.exec engine.serve (duckInsertLoop sql columns count rows) ⟨d, none⟩).1.durable ∧
      ((after = [] ∧ (Proc.exec engine.serve (duckInsertLoop sql columns count rows) ⟨d, none⟩).2.count =
          some (count + rows.length)) ∨
        ((Proc.exec engine.serve (duckInsertLoop sql columns count rows) ⟨d, none⟩).2.count = none ∧
          ∃ row rest e, after = row :: rest ∧ (BulkClient.duckdb engine).write ⟨sql, rowValues columns row⟩
            (Proc.exec engine.serve (duckInsertLoop sql columns count rows) ⟨d, none⟩).1.durable = .error e)) := by
  induction rows generalizing d count with
  | nil => exact ⟨[], [], rfl, rfl, Or.inl ⟨rfl, congrArg some (Int.add_zero count).symm⟩⟩
  | cons row rows ih =>
    rw [duckInsertLoop, Proc.exec_call]
    rcases @duck_serve D F engine ⟨sql, rowValues columns row⟩ d with
      ⟨r, d', hserve, hwrite⟩ | ⟨e, hserve, hwrite⟩
    · obtain ⟨before, after, hrows, hinserted, hend⟩ := ih (count + 1) d'
      rw [hserve, List.length_cons, Nat.cast_add_one, Int.add_comm (rows.length : Int) 1, ← Int.add_assoc]
      refine ⟨row :: before, after, congrArg (row :: ·) hrows, ?_, hend⟩
      have hbind : bindAll (BulkClient.duckdb engine).bind (rowValues columns row) = .ok (rowValues columns row) :=
        bindAll_same _
      rw [BulkClient.insertRows, hbind]
      dsimp only
      rw [hwrite]
      exact hinserted
    · rw [hserve]
      exact ⟨[], row :: rows, rfl, rfl, Or.inr ⟨rfl, row, rows, e, rfl, hwrite⟩⟩

/-- The INSERT that fails ends the loop. -/
theorem exec_duckInsertLoop_failed {before : List (RowDict F)} {row : RowDict F} (after : List (RowDict F)) {d d' : D}
    {e : Str} (count : Int) (h : (BulkClient.duckdb engine).insertRows sql columns d before = some d')
    (hfails : (BulkClient.duckdb engine).write ⟨sql, rowValues columns row⟩ d' = .error e) :
    Proc.exec engine.serve (duckInsertLoop sql columns count (before ++ row :: after)) ⟨d, none⟩ =
      (⟨d', none⟩, .rows none) := by
  have hbind : ∀ row, bindAll (BulkClient.duckdb engine).bind (rowValues columns row) = .ok (rowValues columns row) :=
    fun row => bindAll_same _
  induction before generalizing d count with
  | nil =>
    cases h
    rw [List.nil_append, duckInsertLoop, Proc.exec_call]
    rcases @duck_serve D F engine ⟨sql, rowValues columns row⟩ d' with
      ⟨r, d₁, hserve, hwrite⟩ | ⟨e', hserve, hwrite⟩
    · rw [hwrite] at hfails
      cases hfails
    · rw [hserve]
      rfl
  | cons first before ih =>
    rw [BulkClient.insertRows, hbind] at h
    rw [List.cons_append, duckInsertLoop, Proc.exec_call]
    dsimp only at h
    rcases @duck_serve D F engine ⟨sql, rowValues columns first⟩ d with
      ⟨r, d₁, hserve, hwrite⟩ | ⟨e', hserve, hwrite⟩
    · rw [hwrite] at h
      rw [hserve]
      exact ih (count + 1) h
    · rw [hwrite] at h
      cases h

end Single

/-! ## The whole call -/

section Calls
variable {D F : Type} [PyFloat F] {client : BulkClient D F} {call : BulkInsert F} {t : SqlTable F} {view : TableView D F}

theorem insert_no_rows (h : call.rows = []) (d : D) : client.insert call d = (d, some 0) := by
  obtain ⟨table, rows, returning, schema⟩ := call
  cases h
  cases client with
  | postgres server path => rfl
  | sqlite engine => rfl
  | duckdb engine => rfl

theorem atomic_no_rows (h : call.rows = []) (d : D) : Atomic client call t view d := by
  refine Or.inl ⟨?_, [], ?_, ?_⟩
  · rw [insert_no_rows h, h]
    rfl
  · rw [insert_no_rows h, List.append_nil]
  · rw [h]
    exact .nil

theorem insertsAdded (hins : client.Inserts call t view) {d : D} (hrows : call.rows ≠ []) {n : Int}
    (h : (client.insert call d).2 = some n) : InsertsAdded client call t view d (client.insert call d).1 := by
  obtain ⟨sql, hsql, hinserted⟩ := insert_reported hrows h
  exact rows_insertRows hins hsql hinserted

theorem atomic_of_countedOrKept (hins : client.Inserts call t view) {d : D} (hrows : call.rows ≠ [])
    (h : CountedOrKept (call.rows.length : Int) d (client.insert call d).2 (client.insert call d).1) :
    Atomic client call t view d := by
  rcases h with hcount | ⟨hnone, hkept⟩
  · exact Or.inl ⟨hcount, insertsAdded hins hrows hcount⟩
  · exact Or.inr ⟨hnone, congrArg view.rows hkept⟩

theorem sqlite_countedOrKept (engine : SqliteEngine D F) (d : D) (hrows : call.rows ≠ []) :
    CountedOrKept (call.rows.length : Int) d ((BulkClient.sqlite engine).insert call d).2
      ((BulkClient.sqlite engine).insert call d).1 := by
  obtain ⟨table, rows, returning, schema⟩ := call
  cases rows with
  | nil => exact absurd rfl hrows
  | cons first rest =>
    have hloop := insertLoop_countedOrKept engine (insertText schema table first.keys) first.keys 0 (first :: rest) d d
    rw [Int.zero_add] at hloop
    exact hloop

theorem postgres_countedOrKept (server : PostgresServer D F) (path : SearchPath) (d : D) (hrows : call.rows ≠ []) :
    CountedOrKept (call.rows.length : Int) d ((BulkClient.postgres server path).insert call d).2
      ((BulkClient.postgres server path).insert call d).1 := by
  obtain ⟨table, rows, returning, schema⟩ := call
  cases rows with
  | nil => exact absurd rfl hrows
  | cons first rest =>
    simp only [BulkClient.insert, pgInsertInto]
    cases pgTarget schema table with
    | error e => exact Or.inr ⟨rfl, rfl⟩
    | ok target =>
      have hloop := pgInsertLoop_countedOrKept server path (pgInsertText target first.keys returning) first.keys 0
        (first :: rest) (s := ⟨d, path, some ⟨d, path, false⟩, []⟩) rfl
      rw [Int.zero_add] at hloop
      exact hloop

/-- A name is refused before anything is sent, or the loop runs. -/
theorem duck_insert_cases (engine : DuckEngine D F) (d : D) (hrows : call.rows ≠ []) :
    (∃ e, (BulkClient.duckdb engine).insertSql call = .error e ∧ (BulkClient.duckdb engine).insert call d = (d, none)) ∨
      ∃ sql, (BulkClient.duckdb engine).insertSql call = .ok sql ∧ (BulkClient.duckdb engine).insert call d =
        ((Proc.exec engine.serve (duckInsertLoop sql call.columns 0 call.rows) ⟨d, none⟩).1.durable,
          (Proc.exec engine.serve (duckInsertLoop sql call.columns 0 call.rows) ⟨d, none⟩).2.count) := by
  obtain ⟨table, rows, returning, schema⟩ := call
  cases rows with
  | nil => exact absurd rfl hrows
  | cons first rest =>
    simp only [BulkClient.insert, insertMany, BulkClient.insertSql, BulkInsert.columns]
    cases duckValidateIdentifier table (lit "table name") with
    | error e => exact Or.inl ⟨e, rfl, rfl⟩
    | ok validatedTable =>
      cases validateColumns first.keys with
      | error e => exact Or.inl ⟨e, rfl, rfl⟩
      | ok validatedColumns => exact Or.inr ⟨_, rfl, rfl⟩

theorem duck_atomic_iff {engine : DuckEngine D F} (hins : (BulkClient.duckdb engine).Inserts call t view) (d : D)
    (hrows : call.rows ≠ []) :
    Atomic (.duckdb engine) call t view d ↔ OnlyFirstFails (.duckdb engine) call d := by
  rcases duck_insert_cases engine d hrows with ⟨e, hsql, hinsert⟩ | ⟨sql, hsql, hinsert⟩
  · apply iff_of_true
    · exact Or.inr ⟨congrArg Prod.snd hinsert, congrArg view.rows (congrArg Prod.fst hinsert)⟩
    · intro sql before row after d' e' hsql'
      rw [hsql] at hsql'
      cases hsql'
  constructor
  · intro hatomic sql' before row after d' e hsql' hsplit hbefore hfails
    obtain rfl : sql = sql' := Except.ok.inj (hsql.symm.trans hsql')
    have hexec := exec_duckInsertLoop_failed after 0 hbefore hfails
    rw [← hsplit] at hexec
    rw [hexec] at hinsert
    obtain ⟨stored, hstored, hall⟩ := rows_insertRows hins hsql hbefore
    have hlength : stored.length = before.length := by
      rw [← hall.length_eq, List.length_zipIdx]
    rcases hatomic with ⟨hcount, -⟩ | ⟨-, hkept⟩
    · rw [hinsert] at hcount
      cases hcount
    · rw [hinsert] at hkept
      have hnil : stored = [] := List.append_right_eq_self.mp (hstored.symm.trans hkept)
      rw [hnil] at hlength
      exact List.length_eq_zero_iff.mp hlength.symm
  · intro h
    obtain ⟨before, after, hsplit, hbefore, hend⟩ := @exec_duckInsertLoop_split D F _ engine sql call.columns 0 call.rows d
    rcases hend with ⟨-, hcount⟩ | ⟨hnone, row, rest, e, hafter, hfails⟩
    · have hall : ((BulkClient.duckdb engine).insert call d).2 = some (call.rows.length : Int) := by
        rw [hinsert, hcount, Int.zero_add]
      exact Or.inl ⟨hall, insertsAdded hins hrows hall⟩
    · have hnil : before = [] := h sql before row rest _ e hsql (hafter ▸ hsplit) hbefore hfails
      rw [hnil] at hbefore
      refine Or.inr ⟨by rw [hinsert, hnone], ?_⟩
      rw [hinsert, ← Option.some.inj hbefore]

/-- A bulk insert stores all rows or none exactly where no INSERT after the first one fails outside a transaction. -/
theorem bulk_insert_atomic_iff (hins : client.Inserts call t view) (d : D) :
    Atomic client call t view d ↔ OnlyFirstFails client call d := by
  by_cases hrows : call.rows = []
  · apply iff_of_true (atomic_no_rows hrows d)
    cases client with
    | postgres server path => trivial
    | sqlite engine => trivial
    | duckdb engine =>
      intro sql before row after d' e _ hsplit
      rw [hrows] at hsplit
      exact absurd hsplit.symm (List.append_ne_nil_of_right_ne_nil _ (List.cons_ne_nil _ _))
  · cases client with
    | postgres server path => exact iff_of_true (atomic_of_countedOrKept hins hrows (postgres_countedOrKept server path d hrows)) trivial
    | sqlite engine => exact iff_of_true (atomic_of_countedOrKept hins hrows (sqlite_countedOrKept engine d hrows)) trivial
    | duckdb engine => exact duck_atomic_iff hins d hrows

end Calls

/-! ## Two items -/

theorem sizedFirst_atomic : (itemClients sizedFirst.columns).Forall fun client =>
    Atomic client sizedFirst items itemView [] := by
  refine List.forall_iff_forall_mem.mpr ?_
  intro client hc
  apply (bulk_insert_atomic_iff (inserts_itemClients hc) []).mpr
  cases client with
  | postgres server path => trivial
  | sqlite engine => trivial
  | duckdb engine =>
    intro sql before row after d' e hsql _ _ hfails
    have hknown : (BulkClient.duckdb engine : BulkClient (List (Row Unit)) Unit).insertSql sizedFirst =
        .ok (duckInsertText (lit "items") sizedFirst.columns) := rfl
    obtain rfl := Except.ok.inj (hknown.symm.trans hsql)
    rw [write_itemClients hc, keepItems, if_pos (List.mem_cons_of_mem _ List.mem_cons_self)] at hfails
    cases hfails

/-- `size` is declared NOT NULL. -/
def keepSized (columns : List Str) (q : Statement Unit) (d : List (Row Unit)) : Except Str (List (Row Unit)) :=
  match q.params with
  | [_, .value .none] => .error (lit "NOT NULL constraint failed: items.size")
  | _ => keepItems columns q d

def sizedItems : BulkClient (List (Row Unit)) Unit :=
  .duckdb ⟨fun q d => (keepSized sizedFirst.columns q d).map (·, ()), fun _ => none, [], []⟩

theorem write_sizedItems {q : Statement Unit} {d d' : List (Row Unit)} (h : sizedItems.write q d = .ok d') :
    d' = d ++ [items.rowOf d.length sizedFirst.columns q.params] := by
  have hkept : keepSized sizedFirst.columns q d = .ok d' := by
    dsimp only [sizedItems, BulkClient.write] at h
    cases hkeep : keepSized sizedFirst.columns q d with
    | error e =>
      rw [hkeep] at h
      cases h
    | ok d₁ =>
      rw [hkeep] at h
      exact congrArg Except.ok (Except.ok.inj h)
  rw [keepSized] at hkept
  split at hkept
  · cases hkept
  · exact keepItems_ok hkept

/-- The second row is refused, and the first one stays. -/
theorem refused_row_leaves_first :
    sizedItems.Inserts sizedFirst items itemView ∧ ¬ Atomic sizedItems sizedFirst items itemView [] := by
  refine ⟨⟨fun _ _ _ _ _ _ h => write_sizedItems h, ?_⟩, ?_⟩
  · intro sql values d d' _ _ h
    rw [write_sizedItems h]
    exact List.length_append
  · have hcount : (sizedItems.insert sizedFirst []).2 = none := by decide
    have hlength : (sizedItems.insert sizedFirst []).1.length = 1 := by decide
    rintro (⟨hall, -⟩ | ⟨-, hkept⟩)
    · rw [hcount] at hall
      cases hall
    · have hnone : (sizedItems.insert sizedFirst []).1 = [] := hkept
      rw [hnone] at hlength
      cases hlength

end IsaCloud.Database
