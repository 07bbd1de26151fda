import IsaCloud.Database.PostgresClient

/-!
# Batches and their reports

`execute_batch` of both clients catches the error of each operation inside one
transaction and reports per operation. In PostgreSQL the first error aborts the
transaction, so what is listed before it is undone by the commit; in SQLite the
others stay. The counts are `rowcount` and the number in the command tag.
-/

namespace IsaCloud.Database

set_option autoImplicit false

open Support Support.Text Support.Python

/-! ## What a report says -/

section Listed
variable {D Q R : Type} (apply : Q → D → Except Str (D × R)) (changed : R → Nat)

/-- Executing in order exactly the operations listed without an error: the database this leaves
and the rows it changes. It fails when one of them fails or the lists do not match. -/
def listedEffect : List Q → List OperationResult → D → Option (D × Nat)
  | [], [], d => some (d, 0)
  | q :: qs, r :: rs, d =>
    if r.error = [] then
      match apply q d with
      | .ok (d', x) => (listedEffect qs rs d').map fun y => (y.1, changed x + y.2)
      | .error _ => none
    else listedEffect qs rs d
  | _, _, _ => none

/-- A report, if there is one, lists what is committed and counts the rows this changed. -/
def ReportTrue (qs : List Q) (d committed : D) (report : Option BatchReport) : Prop :=
  ∀ rep, report = some rep → ∃ n : Nat, listedEffect apply changed qs rep.results d = some (committed, n) ∧
    rep.totalRowsAffected = n

/-- The entry of an operation; `count` is the number of rows read off an answer. -/
def entryOf (count : R → Int) : Except Str R → OperationResult
  | .ok r => ⟨count r, []⟩
  | .error x => ⟨0, x⟩

variable {apply changed}

open Session

def changedBy (changed : R → Nat) : Except Str R → Nat
  | .ok r => changed r
  | .error _ => 0

theorem listedEffect_attemptAll (count : R → Int) {d : D} {qs : List Q}
    (h : ∀ x, .error x ∈ (attemptAll apply d qs).1 → x ≠ []) :
    listedEffect apply changed qs ((attemptAll apply d qs).1.map (entryOf count)) d =
      some ((attemptAll apply d qs).2, ((attemptAll apply d qs).1.map (changedBy changed)).sum) := by
  induction qs generalizing d with
  | nil => rfl
  | cons q qs ih =>
    rw [attemptAll] at h ⊢
    cases hq : apply q d with
    | error x =>
      rw [hq] at h
      dsimp only at h ⊢
      rw [List.map_cons, listedEffect]
      have hx : x ≠ [] := h x (List.mem_cons_self ..)
      rw [entryOf, if_neg hx, ih fun y hy => h y (List.mem_cons_of_mem _ hy)]
      simp [changedBy]
    | ok r =>
      rw [hq] at h
      dsimp only at h ⊢
      rw [List.map_cons, listedEffect, entryOf, if_pos rfl, hq]
      dsimp only
      rw [ih fun y hy => h y (List.mem_cons_of_mem _ hy)]
      simp [changedBy]

/-- A failed operation with an empty error is listed, and cannot be executed. -/
theorem listedEffect_none (count : R → Int) {d : D} {qs : List Q} (h : .error [] ∈ (attemptAll apply d qs).1) :
    listedEffect apply changed qs ((attemptAll apply d qs).1.map (entryOf count)) d = none := by
  induction qs generalizing d with
  | nil => cases h
  | cons q qs ih =>
    rw [attemptAll] at h ⊢
    cases hq : apply q d with
    | error x =>
      rw [hq] at h
      dsimp only at h ⊢
      rw [List.map_cons, listedEffect, entryOf]
      dsimp only
      by_cases hx : x = []
      · rw [if_pos hx, hq]
      · rw [if_neg hx]
        refine ih ?_
        rcases List.mem_cons.mp h with heq | h
        · cases heq
          exact absurd rfl hx
        · exact h
    | ok r =>
      rw [hq] at h
      dsimp only at h ⊢
      rw [List.map_cons, listedEffect, entryOf, if_pos rfl, hq]
      dsimp only
      rcases List.mem_cons.mp h with heq | h
      · cases heq
      · rw [ih h]
        rfl

end Listed

/-! ## Counting rows -/

theorem sum_eq_iff_of_le {A : Type} {f g : A → Int} {as : List A} (h : ∀ a ∈ as, f a ≤ g a) :
    (as.map f).sum = (as.map g).sum ↔ ∀ a ∈ as, f a = g a := by
  have hle : ∀ bs : List A, (∀ b ∈ bs, f b ≤ g b) → (bs.map f).sum ≤ (bs.map g).sum := by
    intro bs hb
    induction bs with
    | nil => exact Int.le_refl 0
    | cons b bs ih =>
      have h1 := hb b (List.mem_cons_self ..)
      have h2 := ih fun x hx => hb x (List.mem_cons_of_mem b hx)
      simp only [List.map_cons, List.sum_cons]
      omega
  induction as with
  | nil => simp
  | cons a as ih =>
    have h1 := h a (List.mem_cons_self ..)
    have hrest := fun x hx => h x (List.mem_cons_of_mem a hx)
    have h2 := hle as hrest
    have h3 := ih hrest
    simp only [List.map_cons, List.sum_cons, List.forall_mem_cons]
    constructor
    · intro heq
      have heq' : f a = g a := by omega
      exact ⟨heq', h3.mp (by omega)⟩
    · rintro ⟨heq, hall⟩
      rw [heq, h3.mpr hall]

section Totals
variable {R : Type}

theorem cast_sum_changedBy (changed : R → Nat) (answers : List (Except Str R)) :
    (((answers.map (changedBy changed)).sum : Nat) : Int) =
      (answers.map fun a => (changedBy changed a : Int)).sum := by
  induction answers with
  | nil => rfl
  | cons a answers ih => simp only [List.map_cons, List.sum_cons, Nat.cast_add, ih]

/-- When counts err on one side only, the total is right when every count is. -/
theorem total_eq_iff (changed : R → Nat) (count : R → Int) (h : (∀ r, count r ≤ changed r) ∨ ∀ r, (changed r : Int) ≤ count r)
    (answers : List (Except Str R)) :
    ((answers.map (entryOf count)).map OperationResult.rowsAffected).sum =
        ((answers.map (changedBy changed)).sum : Nat) ↔
      ∀ r, .ok r ∈ answers → count r = changed r := by
  have hentry : ∀ a : Except Str R, (∀ r, a = .ok r → count r = changed r) ↔
      (entryOf count a).rowsAffected = (changedBy changed a : Int) := by
    intro a
    cases a with
    | error x => exact ⟨fun _ => rfl, fun _ r hr => nomatch hr⟩
    | ok r =>
      refine ⟨fun h => h r rfl, ?_⟩
      rintro h r' ⟨⟩
      exact h
  have hall : (∀ r, .ok r ∈ answers → count r = changed r) ↔
      ∀ a ∈ answers, (entryOf count a).rowsAffected = (changedBy changed a : Int) := by
    constructor
    · intro h a ha
      refine (hentry a).mp ?_
      rintro r rfl
      exact h r ha
    · intro h r hr
      exact (hentry (.ok r)).mpr (h _ hr) r rfl
  rw [hall, cast_sum_changedBy, List.map_map]
  rcases h with h | h
  · refine sum_eq_iff_of_le ?_
    intro a _
    cases a with
    | error x => exact Int.le_refl 0
    | ok r => exact h r
  · rw [eq_comm, sum_eq_iff_of_le]
    · exact forall₂_congr fun a _ => eq_comm
    · intro a _
      cases a with
      | error x => exact Int.le_refl 0
      | ok r => exact h r

end Totals

/-! ## The SQLite client -/

section Sqlite
variable [RegexTables] {D F : Type} [PyFloat F]

open Session in
/-- An operation as SQLite executes it; one that cannot be prepared fails. -/
def sqliteOp (e : SqliteEngine D F) (schema : Str) (op : Operation F) (d : D) : Except Str (D × Int) :=
  match sqliteStatement schema op.text op.values with
  | .ok q => e.apply q d
  | .error x => .error x.message

/-- Every parameter of the operations has a form for SQLite. -/
def Serializable (schema : Str) (ops : List (Operation F)) : Prop :=
  ∀ op ∈ ops, ∃ q, sqliteStatement schema op.text op.values = .ok q

open Session Transaction in
theorem exec_batchLoop {e : SqliteEngine D F} {schema : Str} {ops : List (Operation F)} (h : Serializable schema ops)
    (d w : D) (total : Int) (results : List OperationResult) :
    Proc.exec e.serve (batchLoop schema total results ops) ⟨d, some w⟩ =
      match e.commitError (attemptAll (sqliteOp e schema) w ops).2 with
      | none => (⟨(attemptAll (sqliteOp e schema) w ops).2, none⟩, .report (some
          ⟨total + (((attemptAll (sqliteOp e schema) w ops).1.map (entryOf id)).map OperationResult.rowsAffected).sum,
            results ++ (attemptAll (sqliteOp e schema) w ops).1.map (entryOf id)⟩))
      | some _ => (⟨d, none⟩, .report none) := by
  induction ops generalizing w total results with
  | nil =>
    rw [batchLoop, attemptAll, Proc.exec_call]
    dsimp only
    cases hc : e.commitError w with
    | none => simp [Transaction.Engine.serve, Transaction.Engine.commit, hc]
    | some x => simp [Transaction.Engine.serve, Transaction.Engine.commit, hc, rollBack]
  | cons op ops ih =>
    obtain ⟨q, hq⟩ := h op (List.mem_cons_self ..)
    have hrest : Serializable schema ops := fun o ho => h o (List.mem_cons_of_mem op ho)
    rw [batchLoop, hq, attemptAll]
    dsimp only
    rw [Proc.exec_call]
    have hop : sqliteOp e schema op w = e.apply q w := by rw [sqliteOp, hq]
    rw [hop]
    cases ha : e.apply q w with
    | error x =>
      have hserve : e.serve ⟨d, some w⟩ (.statement q) = (⟨d, some w⟩, .error x) := by
        simp [Transaction.Engine.serve, ha]
      rw [hserve]
      dsimp only
      rw [ih hrest]
      simp only [List.map_cons, List.sum_cons, entryOf, Int.zero_add, List.append_assoc, List.singleton_append]
    | ok r =>
      have hserve : e.serve ⟨d, some w⟩ (.statement q) = (⟨d, some r.1⟩, .ok (some r.2)) := by
        simp [Transaction.Engine.serve, ha]
      rw [hserve]
      dsimp only
      rw [ih hrest]
      simp only [List.map_cons, List.sum_cons, entryOf, rowcountOf, Option.getD_some, id, Int.add_assoc,
        List.append_assoc, List.singleton_append]

structure BatchOutcome (D : Type) where
  report : Option BatchReport
  committed : D

def reportOf : SqlReply → Option BatchReport
  | .report r => r
  | _ => none

/-- `execute_batch` of the SQLite client, with nobody else on the connection. -/
def sqliteBatch (e : SqliteEngine D F) (schema : Str) (ops : List (Operation F)) (d : D) : BatchOutcome D where
  report := reportOf (Proc.exec e.serve (executeBatch ops schema) ⟨d, none⟩).2
  committed := (Proc.exec e.serve (executeBatch ops schema) ⟨d, none⟩).1.durable

theorem exec_batchLoop_refused {e : SqliteEngine D F} {schema : Str} {ops : List (Operation F)}
    (h : ¬ Serializable schema ops) (d w : D) (total : Int) (results : List OperationResult) :
    Proc.exec e.serve (batchLoop schema total results ops) ⟨d, some w⟩ = (⟨d, none⟩, .report none) := by
  induction ops generalizing w total results with
  | nil => exact absurd (fun _ hop => nomatch hop) h
  | cons op ops ih =>
    rw [batchLoop]
    cases hq : sqliteStatement schema op.text op.values with
    | error x => rfl
    | ok q =>
      have hrest : ¬ Serializable schema ops := by
        intro hs
        refine h ?_
        intro o ho
        rcases List.mem_cons.mp ho with rfl | ho
        · exact ⟨q, hq⟩
        · exact hs o ho
      dsimp only
      rw [Proc.exec_call]
      cases ha : e.apply q w with
      | error x =>
        have hserve : e.serve ⟨d, some w⟩ (.statement q) = (⟨d, some w⟩, .error x) := by
          simp [Transaction.Engine.serve, ha]
        rw [hserve]
        exact ih hrest _ _ _
      | ok r =>
        have hserve : e.serve ⟨d, some w⟩ (.statement q) = (⟨d, some r.1⟩, .ok (some r.2)) := by
          simp [Transaction.Engine.serve, ha]
        rw [hserve]
        exact ih hrest _ _ _

open Session in
theorem sqliteBatch_eq {e : SqliteEngine D F} {schema : Str} {ops : List (Operation F)} (h : Serializable schema ops)
    (d : D) :
    sqliteBatch e schema ops d =
      match e.commitError (attemptAll (sqliteOp e schema) d ops).2 with
      | none => ⟨some ⟨(((attemptAll (sqliteOp e schema) d ops).1.map (entryOf id)).map OperationResult.rowsAffected).sum,
          (attemptAll (sqliteOp e schema) d ops).1.map (entryOf id)⟩, (attemptAll (sqliteOp e schema) d ops).2⟩
      | some _ => ⟨none, d⟩ := by
  have hexec : Proc.exec e.serve (executeBatch ops schema) ⟨d, none⟩ =
      Proc.exec e.serve (batchLoop schema 0 [] ops) ⟨d, some d⟩ := rfl
  rw [sqliteBatch, hexec, exec_batchLoop h]
  cases e.commitError (attemptAll (sqliteOp e schema) d ops).2 with
  | none => simp [reportOf]
  | some x => rfl

theorem sqliteBatch_refused {e : SqliteEngine D F} {schema : Str} {ops : List (Operation F)}
    (h : ¬ Serializable schema ops) (d : D) : sqliteBatch e schema ops d = ⟨none, d⟩ := by
  have hexec : Proc.exec e.serve (executeBatch ops schema) ⟨d, none⟩ =
      Proc.exec e.serve (batchLoop schema 0 [] ops) ⟨d, some d⟩ := rfl
  rw [sqliteBatch, hexec, exec_batchLoop_refused h]
  rfl

open Session in
/-- When a report comes back, no error is empty and every operation that succeeds is an INSERT, UPDATE
or DELETE (has a count). -/
def SqliteFits (e : SqliteEngine D F) (schema : Str) (ops : List (Operation F)) (d : D) : Prop :=
  Serializable schema ops → e.commitError (attemptAll (sqliteOp e schema) d ops).2 = none →
    (∀ x, .error x ∈ (attemptAll (sqliteOp e schema) d ops).1 → x ≠ []) ∧
      ∀ n, .ok n ∈ (attemptAll (sqliteOp e schema) d ops).1 → 0 ≤ n

open Session in
theorem sqlite_report_true_iff (e : SqliteEngine D F) (schema : Str) (ops : List (Operation F)) (d : D) :
    ReportTrue (sqliteOp e schema) Int.toNat ops d (sqliteBatch e schema ops d).committed
        (sqliteBatch e schema ops d).report ↔ SqliteFits e schema ops d := by
  by_cases hs : Serializable schema ops
  · rw [sqliteBatch_eq hs, SqliteFits]
    cases hc : e.commitError (attemptAll (sqliteOp e schema) d ops).2 with
    | some x => exact ⟨fun _ _ h => (nomatch h), fun _ _ h => (nomatch h)⟩
    | none =>
      have hcount : ∀ n : Int, n = (n.toNat : Int) ↔ 0 ≤ n := by omega
      have htotal := total_eq_iff Int.toNat id (Or.inl fun n => Int.self_le_toNat n)
        (attemptAll (sqliteOp e schema) d ops).1
      constructor
      · intro h _ _
        obtain ⟨n, hlisted, hn⟩ := h _ rfl
        have herr : ∀ x, .error x ∈ (attemptAll (sqliteOp e schema) d ops).1 → x ≠ [] := by
          rintro x hx rfl
          rw [listedEffect_none id hx] at hlisted
          cases hlisted
        rw [listedEffect_attemptAll id herr] at hlisted
        have hn' : ((attemptAll (sqliteOp e schema) d ops).1.map (changedBy Int.toNat)).sum = n :=
          congrArg Prod.snd (Option.some.inj hlisted)
        refine ⟨herr, ?_⟩
        intro r hr
        refine (hcount r).mp (htotal.mp ?_ r hr)
        rw [hn']
        exact hn
      · rintro h rep ⟨⟩
        obtain ⟨herr, hpos⟩ := h hs rfl
        refine ⟨_, listedEffect_attemptAll id herr, ?_⟩
        exact htotal.mpr fun r hr => (hcount r).mpr (hpos r hr)
  · rw [sqliteBatch_refused hs]
    exact ⟨fun _ h => absurd h hs, fun _ _ h => (nomatch h)⟩

end Sqlite

/-! ## The PostgreSQL client -/

section Postgres
variable {D F : Type}

open Session

def pgOp (p : PostgresServer D F) (path : SearchPath) (op : Operation F) (d : D) : Except Str (D × PgResult F) :=
  p.apply path (pgStatement op.text op.params) d

/-- The tags of the commands that change rows. -/
def changingTags : List Str := [lit "INSERT", lit "UPDATE", lit "DELETE", lit "MERGE"]

/-- The rows a command has changed, by its tag. -/
def changedRows (r : PgResult F) : Nat :=
  match (splitWords r.status []).head? with
  | some word => if word ∈ changingTags then (rowsAffected r.status).toNat else 0
  | none => 0

def countedRows (r : PgResult F) : Int := rowsAffected r.status

theorem rowsAffected_nonneg (status : Str) : 0 ≤ rowsAffected status := by
  rw [rowsAffected]
  split
  · split
    · exact Int.natCast_nonneg _
    · exact Int.le_refl 0
  · exact Int.le_refl 0

theorem changedRows_le (r : PgResult F) : (changedRows r : Int) ≤ countedRows r := by
  have hpos := rowsAffected_nonneg r.status
  rw [changedRows, countedRows]
  split
  · split
    · omega
    · exact hpos
  · exact hpos

def listedEntry (r : PgResult F) : OperationResult := ⟨rowsAffected r.status, []⟩

/-- The entries of a batch in which an operation fails with `x`. -/
def failedEntries (answers : List (PgResult F)) (x : Str) (rest : List (Operation F)) : List OperationResult :=
  answers.map listedEntry ++ ⟨0, x⟩ :: rest.map fun _ => ⟨0, abortedError⟩

variable {p : PostgresServer D F}

theorem exec_pgBatchLoop_aborted (ops : List (Operation F)) {s : PgSession D F} {x : Txn D SearchPath}
    (hs : s.txn = some x) (hx : x.aborted = true) (total : Int) (results : List OperationResult) :
    Proc.exec p.engine.serve (pgBatchLoop total results ops) s =
      (s.close, .report (some ⟨total, results ++ ops.map fun _ => ⟨0, abortedError⟩⟩)) := by
  induction ops generalizing results with
  | nil => simp [pgBatchLoop, finish, Engine.serve, hs, hx, Engine.insideAborted]
  | cons op ops ih =>
    have hserve : p.engine.serve s (.statement (pgStatement op.text op.params)) = (s, .error abortedError) := by
      rw [Engine.serve, hs]
      dsimp only
      rw [if_pos hx]
      rfl
    rw [pgBatchLoop, Proc.exec_call, hserve]
    dsimp only
    rw [ih]
    simp

theorem exec_pgBatchLoop (ops : List (Operation F)) {s : PgSession D F} {x : Txn D SearchPath}
    (hs : s.txn = some x) (hx : x.aborted = false) (total : Int) (results : List OperationResult) :
    ((Proc.exec p.engine.serve (pgBatchLoop total results ops) s).1.durable,
      (Proc.exec p.engine.serve (pgBatchLoop total results ops) s).2) =
      match (stretch (pgOp p x.setting) x.db ops).failure with
      | some err => (s.durable, .report (some ⟨total + ((stretch (pgOp p x.setting) x.db ops).answers.map countedRows).sum,
          results ++ failedEntries (stretch (pgOp p x.setting) x.db ops).answers err
            (stretch (pgOp p x.setting) x.db ops).rest⟩))
      | none =>
        match p.commitError (stretch (pgOp p x.setting) x.db ops).db with
        | none => ((stretch (pgOp p x.setting) x.db ops).db,
            .report (some ⟨total + ((stretch (pgOp p x.setting) x.db ops).answers.map countedRows).sum,
              results ++ (stretch (pgOp p x.setting) x.db ops).answers.map listedEntry⟩))
        | some _ => (s.durable, .report none) := by
  induction ops generalizing s x total results with
  | nil =>
    have hserve : p.engine.serve s .commit = p.engine.inside s x .commit := by
      rw [Engine.serve, hs]
      dsimp only
      rw [if_neg (by rw [hx]; exact Bool.false_ne_true)]
    rw [pgBatchLoop, finish, Proc.exec_call, hserve, stretch, Engine.inside]
    dsimp only
    have hcommit : p.engine.commitError x.db = p.commitError x.db := rfl
    rw [hcommit]
    cases p.commitError x.db with
    | none => simp
    | some err => rfl
  | cons op ops ih =>
    have hserve : p.engine.serve s (.statement (pgStatement op.text op.params)) =
        p.engine.inside s x (.statement (pgStatement op.text op.params)) := by
      rw [Engine.serve, hs]
      dsimp only
      rw [if_neg (by rw [hx]; exact Bool.false_ne_true)]
    have hop : p.engine.apply x.setting (pgStatement op.text op.params) x.db = pgOp p x.setting op x.db := rfl
    rw [pgBatchLoop, Proc.exec_call, hserve, Engine.inside, hop, stretch]
    cases ha : pgOp p x.setting op x.db with
    | error err =>
      dsimp only
      rw [exec_pgBatchLoop_aborted ops (x := { x with aborted := true }) rfl rfl]
      simp [failedEntries, State.close, State.abort]
    | ok r =>
      dsimp only
      rw [ih (x := { x with db := r.1 }) rfl hx]
      generalize stretch (pgOp p x.setting) r.1 ops = st
      have htotal : total + rowsAffected (statusOf (some r.2)) + (st.answers.map countedRows).sum =
          total + ((r.2 :: st.answers).map countedRows).sum := by
        rw [List.map_cons, List.sum_cons, ← Int.add_assoc]
        rfl
      have hentry : ∀ es : List OperationResult, results ++ [⟨rowsAffected (statusOf (some r.2)), []⟩] ++ es =
          results ++ listedEntry r.2 :: es := by
        intro es
        rw [List.append_assoc]
        rfl
      simp only [htotal, hentry]
      rfl

/-- The search path of a call, unless its schema is refused. -/
def pathFor (p : PostgresServer D F) (setting : SearchPath) (schema : Str) : Option SearchPath :=
  if schema ≠ publicSchema then
    match validateIdentifier schema schemaWord with
    | .error _ => none
    | .ok validated =>
      match p.readPath validated with
      | .error _ => none
      | .ok path => some path
  else some setting

/-- A method is its body inside a transaction under the path of the schema. -/
theorem exec_inTransaction {s : PgSession D F} (hs : s.txn = none) (schema : Str) (failed : PgReply F)
    (body : PgCode F) :
    Proc.exec p.engine.serve (inTransaction schema failed body) s =
      match pathFor p s.setting schema with
      | none => (s, failed)
      | some path => Proc.exec p.engine.serve body { s with txn := some ⟨s.durable, path, false⟩ } := by
  have hbegin : p.engine.serve s (.begin : Command Str (Statement F)) =
      ({ s with txn := some ⟨s.durable, s.setting, false⟩ }, .ok none) := by
    rw [Engine.serve, hs]
    rfl
  have hclose : ∀ x, (State.close { s with txn := x }) = s := by
    intro x
    rw [State.close, ← hs]
  rw [inTransaction, Proc.exec_call, hbegin, pathFor]
  dsimp only
  by_cases hp : schema ≠ publicSchema
  · rw [if_pos hp, if_pos hp]
    cases validateIdentifier schema schemaWord with
    | error x => exact Prod.ext (hclose _) rfl
    | ok validated =>
      dsimp only
      rw [Proc.exec_call]
      cases hr : p.readPath validated with
      | error err =>
        have hset : p.engine.serve { s with txn := some ⟨s.durable, s.setting, false⟩ } (.set validated) =
            (State.abort s ⟨s.durable, s.setting, false⟩, .error err) := by
          simp [Engine.serve, Engine.inside, PostgresServer.engine, hr, State.abort]
        rw [hset]
        exact Prod.ext (hclose _) rfl
      | ok path =>
        have hset : p.engine.serve { s with txn := some ⟨s.durable, s.setting, false⟩ } (.set validated) =
            ({ s with txn := some ⟨s.durable, path, false⟩ }, .ok none) := by
          simp [Engine.serve, Engine.inside, PostgresServer.engine, hr]
        rw [hset]
  · rw [if_neg hp, if_neg hp]

def pgReportOf : PgReply F → Option BatchReport
  | .report r => r
  | _ => none

/-- `execute_batch` of the PostgreSQL client, on a connection with the given search path. -/
def pgBatch (p : PostgresServer D F) (setting : SearchPath) (schema : Str) (ops : List (Operation F)) (d : D) :
    BatchOutcome D where
  report := pgReportOf (Proc.exec p.engine.serve (pgExecuteBatch ops schema) ⟨d, setting, none, []⟩).2
  committed := (Proc.exec p.engine.serve (pgExecuteBatch ops schema) ⟨d, setting, none, []⟩).1.durable

theorem pgBatch_eq (setting : SearchPath) (schema : Str) (ops : List (Operation F)) (d : D) :
    pgBatch p setting schema ops d =
      match pathFor p setting schema with
      | none => ⟨none, d⟩
      | some path =>
        match (stretch (pgOp p path) d ops).failure with
        | some err => ⟨some ⟨((stretch (pgOp p path) d ops).answers.map countedRows).sum,
            failedEntries (stretch (pgOp p path) d ops).answers err (stretch (pgOp p path) d ops).rest⟩, d⟩
        | none =>
          match p.commitError (stretch (pgOp p path) d ops).db with
          | none => ⟨some ⟨((stretch (pgOp p path) d ops).answers.map countedRows).sum,
              (stretch (pgOp p path) d ops).answers.map listedEntry⟩, (stretch (pgOp p path) d ops).db⟩
          | some _ => ⟨none, d⟩ := by
  have hin := exec_inTransaction (p := p) (s := ⟨d, setting, none, []⟩) rfl schema (.report none) (pgBatchLoop 0 [] ops)
  rw [pgBatch, pgExecuteBatch, hin]
  cases pathFor p setting schema with
  | none => rfl
  | some path =>
    dsimp only
    have hexec := exec_pgBatchLoop (p := p) ops (s := ⟨d, setting, some ⟨d, path, false⟩, []⟩) rfl rfl 0 []
    have h1 := congrArg Prod.fst hexec
    have h2 := congrArg Prod.snd hexec
    dsimp only at h1 h2
    rw [h1, h2]
    cases (stretch (pgOp p path) d ops).failure with
    | some err => simp [pgReportOf]
    | none =>
      dsimp only
      cases p.commitError (stretch (pgOp p path) d ops).db with
      | none => simp [pgReportOf]
      | some x => rfl

section Listed
variable {apply : Operation F → D → Except Str (D × PgResult F)}

theorem listedEffect_skipped {es : List OperationResult} {ops : List (Operation F)} (hlen : es.length = ops.length)
    (h : ∀ r ∈ es, r.error ≠ []) (d : D) : listedEffect apply changedRows ops es d = some (d, 0) := by
  induction ops generalizing es with
  | nil =>
    rw [List.length_eq_zero_iff.mp hlen]
    rfl
  | cons op ops ih =>
    cases es with
    | nil => cases hlen
    | cons r es =>
      rw [listedEffect, if_neg (h r (List.mem_cons_self ..))]
      exact ih (Nat.succ.inj hlen) fun x hx => h x (List.mem_cons_of_mem r hx)

theorem listedEffect_completed {d : D} {ops : List (Operation F)} (h : (stretch apply d ops).failure = none) :
    listedEffect apply changedRows ops ((stretch apply d ops).answers.map listedEntry) d =
      some ((stretch apply d ops).db, ((stretch apply d ops).answers.map changedRows).sum) := by
  induction ops generalizing d with
  | nil => rfl
  | cons op ops ih =>
    rw [stretch] at h ⊢
    cases ha : apply op d with
    | error x =>
      rw [ha] at h
      cases h
    | ok r =>
      rw [ha] at h
      dsimp only at h ⊢
      rw [List.map_cons, listedEffect, listedEntry, if_pos rfl, ha]
      dsimp only
      rw [ih h]
      rfl

theorem listedEffect_failed {d : D} {ops : List (Operation F)} {x : Str} (h : (stretch apply d ops).failure = some x) :
    listedEffect apply changedRows ops (failedEntries (stretch apply d ops).answers x (stretch apply d ops).rest) d =
      if x = [] then none
      else some ((stretch apply d ops).db, ((stretch apply d ops).answers.map changedRows).sum) := by
  induction ops generalizing d with
  | nil => cases h
  | cons op ops ih =>
    rw [stretch] at h ⊢
    cases ha : apply op d with
    | error y =>
      rw [ha] at h
      cases h
      dsimp only
      rw [failedEntries, List.map_nil, List.nil_append, listedEffect]
      dsimp only
      by_cases hx : x = []
      · rw [if_pos hx, if_pos hx, ha]
      · rw [if_neg hx, if_neg hx]
        refine listedEffect_skipped (List.length_map _) ?_ d
        intro r hr
        obtain ⟨_, _, rfl⟩ := List.mem_map.mp hr
        decide
    | ok r =>
      rw [ha] at h
      dsimp only at h ⊢
      have hentries : ∀ rest : List (Operation F), failedEntries (r.2 :: (stretch apply r.1 ops).answers) x rest =
          listedEntry r.2 :: failedEntries (stretch apply r.1 ops).answers x rest := fun _ => rfl
      rw [hentries, listedEffect, listedEntry, if_pos rfl, ha]
      dsimp only
      rw [ih h]
      split
      · rfl
      · rfl

end Listed

theorem counted_total_iff (answers : List (PgResult F)) :
    (answers.map countedRows).sum = (((answers.map changedRows).sum : Nat) : Int) ↔
      ∀ r ∈ answers, countedRows r = changedRows r := by
  have hcast : (((answers.map changedRows).sum : Nat) : Int) = (answers.map fun r => (changedRows r : Int)).sum := by
    induction answers with
    | nil => rfl
    | cons r answers ih => simp only [List.map_cons, List.sum_cons, Nat.cast_add, ih]
  rw [hcast, eq_comm, sum_eq_iff_of_le fun r _ => changedRows_le r]
  exact forall₂_congr fun r _ => eq_comm

/-- When a report comes back: with a failure its error is not empty and what went before changed
nothing; and no operation before it has a tag that counts rows without changing them. -/
def PgFits (p : PostgresServer D F) (setting : SearchPath) (schema : Str) (ops : List (Operation F)) (d : D) : Prop :=
  ∀ path, pathFor p setting schema = some path →
    match (stretch (pgOp p path) d ops).failure with
    | some err => err ≠ [] ∧ (stretch (pgOp p path) d ops).db = d ∧
        ∀ r ∈ (stretch (pgOp p path) d ops).answers, countedRows r = changedRows r
    | none => p.commitError (stretch (pgOp p path) d ops).db = none →
        ∀ r ∈ (stretch (pgOp p path) d ops).answers, countedRows r = changedRows r

/-- A report is about the operations as the server reads them. -/
def PgReportTrue (p : PostgresServer D F) (setting : SearchPath) (schema : Str) (ops : List (Operation F)) (d : D) :
    Prop :=
  ∀ path, pathFor p setting schema = some path → ReportTrue (pgOp p path) changedRows ops d
    (pgBatch p setting schema ops d).committed (pgBatch p setting schema ops d).report

theorem pg_report_true_iff (setting : SearchPath) (schema : Str) (ops : List (Operation F)) (d : D) :
    PgReportTrue p setting schema ops d ↔ PgFits p setting schema ops d := by
  refine forall₂_congr fun path hpath => ?_
  have heq := pgBatch_eq (p := p) setting schema ops d
  rw [hpath] at heq
  dsimp only at heq
  rw [heq]
  cases hf : (stretch (pgOp p path) d ops).failure with
  | some err =>
    have hlisted := listedEffect_failed hf
    dsimp only
    constructor
    · intro h
      obtain ⟨n, hn, htotal⟩ := h _ rfl
      rw [hlisted] at hn
      split at hn
      · cases hn
      · rename_i herr
        have hdb := congrArg Prod.fst (Option.some.inj hn)
        have hcount : ((stretch (pgOp p path) d ops).answers.map changedRows).sum = n :=
          congrArg Prod.snd (Option.some.inj hn)
        refine ⟨herr, hdb, (counted_total_iff _).mp ?_⟩
        rw [hcount]
        exact htotal
    · rintro ⟨herr, hdb, hcount⟩ rep ⟨⟩
      rw [if_neg herr] at hlisted
      refine ⟨_, ?_, (counted_total_iff _).mpr hcount⟩
      rw [hlisted, hdb]
  | none =>
    have hlisted := listedEffect_completed hf
    dsimp only
    cases hc : p.commitError (stretch (pgOp p path) d ops).db with
    | some x => exact ⟨fun _ h => (nomatch h), fun _ _ h => (nomatch h)⟩
    | none =>
      dsimp only
      constructor
      · intro h _
        obtain ⟨n, hn, htotal⟩ := h _ rfl
        rw [hlisted] at hn
        have hcount : ((stretch (pgOp p path) d ops).answers.map changedRows).sum = n :=
          congrArg Prod.snd (Option.some.inj hn)
        refine (counted_total_iff _).mp ?_
        rw [hcount]
        exact htotal
      · rintro h rep ⟨⟩
        exact ⟨_, hlisted, (counted_total_iff _).mpr (h rfl)⟩

end Postgres

/-! ## The two clients -/

section Both
variable [RegexTables] {D F : Type} [PyFloat F] {e : SqliteEngine D F} {p : PostgresServer D F}

open Session

/-- Both databases leave the same, or both refuse. -/
def Alike {R R' : Type} : Except Str (D × R) → Except Str (D × R') → Prop
  | .ok x, .ok y => x.1 = y.1
  | .error _, .error _ => True
  | _, _ => False

/-- The operations do and fail the same on both databases. -/
structure SameFailures (e : SqliteEngine D F) (p : PostgresServer D F) (setting : SearchPath) (schema : Str)
    (ops : List (Operation F)) : Prop where
  statements : ∀ path, pathFor p setting schema = some path → ∀ op ∈ ops,
    (∃ q, sqliteStatement schema op.text op.values = .ok q) → ∀ d, Alike (sqliteOp e schema op d) (pgOp p path op d)
  commits : ∀ d, e.commitError d = none ↔ p.commitError d = none

omit [RegexTables] [PyFloat F] in
theorem stretch_alike {f : Operation F → D → Except Str (D × Int)} {g : Operation F → D → Except Str (D × PgResult F)}
    {ops : List (Operation F)} (h : ∀ op ∈ ops, ∀ d, Alike (f op d) (g op d)) (d : D) :
    (stretch f d ops).db = (stretch g d ops).db ∧
      ((stretch f d ops).failure = none ↔ (stretch g d ops).failure = none) := by
  induction ops generalizing d with
  | nil => exact ⟨rfl, Iff.rfl⟩
  | cons op ops ih =>
    have hop := h op (List.mem_cons_self ..) d
    have hrest := fun d => ih (fun o ho => h o (List.mem_cons_of_mem op ho)) d
    rw [stretch, stretch]
    cases hf : f op d with
    | error x =>
      cases hg : g op d with
      | error y => exact ⟨rfl, ⟨fun h => (by cases h), fun h => (by cases h)⟩⟩
      | ok y =>
        rw [hf, hg] at hop
        exact hop.elim
    | ok x =>
      cases hg : g op d with
      | error y =>
        rw [hf, hg] at hop
        exact hop.elim
      | ok y =>
        rw [hf, hg] at hop
        have hxy : x.1 = y.1 := hop
        dsimp only
        rw [hxy]
        exact hrest y.1

/-- With reports from both, a failure means that SQLite commits no change either. -/
def SameFits (e : SqliteEngine D F) (p : PostgresServer D F) (setting : SearchPath) (schema : Str)
    (ops : List (Operation F)) (d : D) : Prop :=
  ∀ path, pathFor p setting schema = some path → Serializable schema ops →
    e.commitError (attemptAll (sqliteOp e schema) d ops).2 = none →
      (stretch (pgOp p path) d ops).failure = none ∨ (attemptAll (sqliteOp e schema) d ops).2 = d

/-- When both clients return a report, they leave the same database. -/
def SameCommitted (e : SqliteEngine D F) (p : PostgresServer D F) (setting : SearchPath) (schema : Str)
    (ops : List (Operation F)) (d : D) : Prop :=
  (sqliteBatch e schema ops d).report.isSome → (pgBatch p setting schema ops d).report.isSome →
    (sqliteBatch e schema ops d).committed = (pgBatch p setting schema ops d).committed

theorem same_committed_iff {setting : SearchPath} {schema : Str} {ops : List (Operation F)}
    (hsame : SameFailures e p setting schema ops) (d : D) :
    SameCommitted e p setting schema ops d ↔ SameFits e p setting schema ops d := by
  have hpg := pgBatch_eq (p := p) setting schema ops d
  rw [SameCommitted, SameFits]
  cases hpath : pathFor p setting schema with
  | none =>
    rw [hpath] at hpg
    rw [hpg]
    exact ⟨fun _ _ h => (nomatch h), fun _ _ h => (nomatch h)⟩
  | some path =>
    rw [hpath] at hpg
    dsimp only at hpg
    by_cases hs : Serializable schema ops
    · have hsq := sqliteBatch_eq (e := e) hs d
      cases hc : e.commitError (attemptAll (sqliteOp e schema) d ops).2 with
      | some x =>
        rw [hc] at hsq
        rw [hsq]
        exact ⟨fun _ _ _ _ h => (nomatch h), fun _ h => (nomatch h)⟩
      | none =>
        rw [hc] at hsq
        rw [hsq]
        cases hf : (stretch (pgOp p path) d ops).failure with
        | some err =>
          rw [hf] at hpg
          rw [hpg]
          constructor
          · rintro h path' ⟨⟩ _ _
            exact Or.inr (h rfl rfl)
          · intro h _ _
            refine (h path rfl hs rfl).resolve_left ?_
            rw [hf]
            exact fun h => nomatch h
        | none =>
          -- nothing fails, so both leave what the operations lead to
          have halike := stretch_alike (fun op hop d => hsame.statements path hpath op hop (hs op hop) d) d
          have hfinal := congrArg Prod.snd (attemptAll_of_stretch (halike.2.mpr hf))
          dsimp only at hfinal
          rw [halike.1] at hfinal
          rw [hfinal] at hc
          rw [hf] at hpg
          dsimp only at hpg
          rw [(hsame.commits _).mp hc] at hpg
          rw [hpg]
          constructor
          · rintro _ path' ⟨⟩ _ _
            exact Or.inl hf
          · intro _ _ _
            exact hfinal
    · rw [sqliteBatch_refused hs]
      exact ⟨fun _ _ _ h => absurd h hs, fun _ h => (nomatch h)⟩

end Both

/-! ## Two databases that keep texts -/

section Example

attribute [local instance] asciiTables

def logServer : PostgresServer (List Str) Unit where
  apply _ q d := if q.sql = lit "bad" then .error (lit "syntax error") else .ok (d ++ [q.sql], ⟨lit "INSERT 0 1", []⟩)
  reserved _ := none
  commitError _ := none
  defaultPath := [publicSchema]

theorem logs_alike {sqls : List String} (h : ∀ sql ∈ sqls, sqliteText publicSchema (lit sql) = lit sql) :
    SameFailures logEngine logServer [publicSchema] publicSchema (sqls.map operation) where
  statements := by
    rintro path _ op hop _ d
    obtain ⟨sql, hsql, rfl⟩ := List.mem_map.mp hop
    have hq : sqliteStatement publicSchema (operation sql).text (operation sql).values = .ok ⟨lit sql, []⟩ := by
      have htext := h sql hsql
      show Except.ok (⟨sqliteText publicSchema (lit sql), []⟩ : Statement Unit) = _
      rw [htext]
    rw [sqliteOp, hq]
    dsimp only
    have hp : pgOp logServer path (operation sql) d =
        if lit sql = lit "bad" then .error (lit "syntax error") else .ok (d ++ [lit sql], ⟨lit "INSERT 0 1", []⟩) := rfl
    have he : logEngine.apply ⟨lit sql, []⟩ d =
        if lit sql = lit "bad" then .error (lit "near \"bad\": syntax error") else .ok (d ++ [lit sql], 1) := rfl
    rw [hp, he]
    by_cases hbad : lit sql = lit "bad"
    · rw [if_pos hbad, if_pos hbad]
      exact trivial
    · rw [if_neg hbad, if_neg hbad]
      rfl
  commits := fun _ => Iff.rfl

def goodOps : List (Operation Unit) := ["a", "b"].map operation

end Example

end IsaCloud.Database
