import IsaCloud.Database.Batches

/-!
# Search paths over shared server connections

Under pgbouncer every transaction may run on another server connection. The
methods set the search path with SET, so it stays in force on that connection
after the commit; a call for `public` sets nothing and takes what it finds. The
pool resets a connection it takes back, but the reset is a transaction of its own
and may run on any server connection.
-/

namespace IsaCloud.Database

set_option autoImplicit false

open Support Support.Text Support.Python Support.Session

inductive PgCall (F : Type) where
  | query (sql : Str) (params : Option (List (SqlValue F))) (schema : Str)
  | queryRow (sql : Str) (params : Option (List (SqlValue F))) (schema : Str)
  | execute (sql : Str) (params : Option (List (SqlValue F))) (schema : Str)
  | executeBatch (operations : List (Operation F)) (schema : Str)
  | executeInTransaction (operations : List (Operation F)) (schema : Str)

namespace PgCall
variable {F : Type}

def code : PgCall F → PgCode F
  | .query sql params schema => pgQuery sql params schema
  | .queryRow sql params schema => pgQueryRow sql params schema
  | .execute sql params schema => pgExecute sql params schema
  | .executeBatch operations schema => pgExecuteBatch operations schema
  | .executeInTransaction operations schema => pgExecuteInTransaction operations schema

def schema : PgCall F → Str
  | .query _ _ schema => schema
  | .queryRow _ _ schema => schema
  | .execute _ _ schema => schema
  | .executeBatch _ schema => schema
  | .executeInTransaction _ schema => schema

/-- The statements of the call, in order. -/
def statements : PgCall F → List (Statement F)
  | .query sql params _ => [pgStatement sql params]
  | .queryRow sql params _ => [pgStatement sql params]
  | .execute sql params _ => [pgStatement sql params]
  | .executeBatch operations _ => operations.map fun op => pgStatement op.text op.params
  | .executeInTransaction operations _ => operations.map fun op => pgStatement op.text op.params

end PgCall

/-- The committed database and the search path of every server connection. -/
structure Cluster (D C : Type) where
  durable : D
  paths : C → SearchPath

inductive ClusterEvent (C F : Type) where
  | call (server : C) (c : PgCall F)
  /-- The reset of a connection that goes back to the pool. -/
  | reset (server : C)

section Cluster
variable {D C F : Type} [DecidableEq C] (p : PostgresServer D F)

def Cluster.fresh (d : D) : Cluster D C := ⟨d, fun _ => p.defaultPath⟩

def Cluster.session (s : Cluster D C) (server : C) : PgSession D F := ⟨s.durable, s.paths server, none, []⟩

/-- The session after a call on the server connection. -/
def Cluster.after (s : Cluster D C) (server : C) (c : PgCall F) : PgSession D F :=
  (Proc.exec p.engine.serve c.code (s.session server)).1

def Cluster.step (s : Cluster D C) : ClusterEvent C F → Cluster D C
  | .call server c => ⟨(s.after p server c).durable, Function.update s.paths server (s.after p server c).setting⟩
  | .reset server => { s with paths := Function.update s.paths server p.defaultPath }

/-- How a call with this schema is to look names up. -/
def expectedPath (schema : Str) : SearchPath := if schema = publicSchema then p.defaultPath else [schema, publicSchema]

/-- Every statement of the call is read under the search path of its schema. -/
def Resolves (s : Cluster D C) : ClusterEvent C F → Prop
  | .call server c => ∀ x ∈ (s.after p server c).resolved, x.1 = expectedPath p c.schema
  | .reset _ => True

/-- The schema is not set: it is no identifier, or a reserved word. -/
def Refused (schema : Str) : Prop :=
  (∃ x, validateIdentifier schema schemaWord = .error x) ∨ (p.reserved (foldIdentifier schema)).isSome

/-- A call for `public` finds the default search path on its server connection; another schema is
refused or written as the server reads it. -/
def Cluster.Fits (s : Cluster D C) : ClusterEvent C F → Prop
  | .call server c => c.statements = [] ∨
      if c.schema = publicSchema then s.paths server = p.defaultPath
      else Refused p c.schema ∨ foldIdentifier c.schema = c.schema
  | .reset _ => True

variable {p}

/-! ## What a body does -/

/-- Statements, then the end of the transaction. -/
def Body : PgCode F → Prop
  | .ret _ => True
  | .call (.statement _) k => ∀ a, Body (k a)
  | .call .commit k => ∀ a, ∃ o, k a = .ret o
  | .call .rollback k => ∀ a, ∃ o, k a = .ret o
  | .call _ _ => False

theorem serve_statement {s : PgSession D F} {x : Txn D SearchPath} (hs : s.txn = some x) (q : Statement F) :
    ∃ (x' : Txn D SearchPath) (log : List (SearchPath × Statement F)),
      (p.engine.serve s (.statement q)).1.txn = some x' ∧ x'.setting = x.setting ∧
      (p.engine.serve s (.statement q)).1.setting = s.setting ∧
      (p.engine.serve s (.statement q)).1.resolved = s.resolved ++ log ∧ (∀ y ∈ log, y.1 = x.setting) ∧
      (x.aborted = false → (x.setting, q) ∈ log) := by
  cases hx : x.aborted with
  | true =>
    have hserve : p.engine.serve s (.statement q) = (s, .error abortedError) := by
      rw [Engine.serve, hs]
      dsimp only
      rw [if_pos hx]
      rfl
    rw [hserve]
    exact ⟨x, [], hs, rfl, rfl, (List.append_nil _).symm, fun _ h => absurd h List.not_mem_nil,
      fun h => by cases h⟩
  | false =>
    have hserve : p.engine.serve s (.statement q) = p.engine.inside s x (.statement q) := by
      rw [Engine.serve, hs]
      dsimp only
      rw [if_neg (by rw [hx]; exact Bool.false_ne_true)]
    rw [hserve, Engine.inside]
    have hlog : ∀ y ∈ [(x.setting, q)], y.1 = x.setting := by
      intro y hy
      rw [List.mem_singleton.mp hy]
    cases p.engine.apply x.setting q x.db with
    | error err => exact ⟨_, [(x.setting, q)], rfl, rfl, rfl, rfl, hlog, fun _ => List.mem_singleton_self _⟩
    | ok r => exact ⟨_, [(x.setting, q)], rfl, rfl, rfl, rfl, hlog, fun _ => List.mem_singleton_self _⟩

/-- The end of a transaction reads nothing, and leaves the setting of the session or that of the
transaction. -/
theorem serve_end {s : PgSession D F} {x : Txn D SearchPath} (hs : s.txn = some x)
    {c : Command Str (Statement F)} (hc : c = .commit ∨ c = .rollback) :
    (p.engine.serve s c).1.resolved = s.resolved ∧
      ((p.engine.serve s c).1.setting = s.setting ∨ (p.engine.serve s c).1.setting = x.setting) := by
  rw [Engine.serve, hs]
  dsimp only
  rcases hc with rfl | rfl
  · split
    · exact ⟨rfl, Or.inl rfl⟩
    · rw [Engine.inside]
      split
      · exact ⟨rfl, Or.inr rfl⟩
      · exact ⟨rfl, Or.inl rfl⟩
  · split
    · exact ⟨rfl, Or.inl rfl⟩
    · exact ⟨rfl, Or.inl rfl⟩

/-- A body reads every statement under the setting of its transaction, and its first one certainly. -/
theorem exec_body {code : PgCode F} (h : Body code) {s : PgSession D F} {x : Txn D SearchPath}
    (hs : s.txn = some x) :
    ∃ log, (Proc.exec p.engine.serve code s).1.resolved = s.resolved ++ log ∧ (∀ y ∈ log, y.1 = x.setting) ∧
      ((Proc.exec p.engine.serve code s).1.setting = s.setting ∨
        (Proc.exec p.engine.serve code s).1.setting = x.setting) ∧
      (∀ q k, code = .call (.statement q) k → x.aborted = false → log ≠ []) ∧
      ∀ k, code = .call .commit k → log = [] := by
  induction code generalizing s x with
  | ret o =>
    exact ⟨[], (List.append_nil _).symm, fun _ h => (nomatch h), Or.inl rfl, fun _ _ h => (nomatch h), fun _ h => (nomatch h)⟩
  | call c k ih =>
    have hend : (c = .commit ∨ c = .rollback) → (∀ a, ∃ o, k a = .ret o) →
        (Proc.exec p.engine.serve (.call c k) s).1.resolved = s.resolved ∧
          ((Proc.exec p.engine.serve (.call c k) s).1.setting = s.setting ∨
            (Proc.exec p.engine.serve (.call c k) s).1.setting = x.setting) := by
      intro hc hk
      obtain ⟨o, ho⟩ := hk (p.engine.serve s c).2
      rw [Proc.exec_call, ho, Proc.exec_ret]
      exact serve_end hs hc
    cases c with
    | begin => exact h.elim
    | set a => exact h.elim
    | commit =>
      obtain ⟨hres, hset⟩ := hend (Or.inl rfl) h
      exact ⟨[], hres.trans (List.append_nil _).symm, fun _ h => (nomatch h), hset, fun _ _ h => (nomatch h), fun _ _ => rfl⟩
    | rollback =>
      obtain ⟨hres, hset⟩ := hend (Or.inr rfl) h
      exact ⟨[], hres.trans (List.append_nil _).symm, fun _ h => (nomatch h), hset, fun _ _ h => (nomatch h), fun _ _ => rfl⟩
    | statement q =>
      obtain ⟨x', log, htxn, hx', hset, hres, hlog, hfirst⟩ := serve_statement (p := p) hs q
      obtain ⟨log', hres', hlog', hset', _⟩ := ih _ (h _) htxn
      rw [Proc.exec_call]
      refine ⟨log ++ log', ?_, ?_, ?_, ?_, fun _ h => (nomatch h)⟩
      · rw [hres', hres, List.append_assoc]
      · intro y hy
        rcases List.mem_append.mp hy with hy | hy
        · exact hlog y hy
        · exact (hlog' y hy).trans hx'
      · rw [hset, hx'] at hset'
        exact hset'
      · intro _ _ _ ha hnil
        have hmem := hfirst ha
        rw [(List.append_eq_nil_iff.mp hnil).1] at hmem
        cases hmem

theorem body_finish (failed o : PgReply F) : Body (finish failed o) := by
  intro a
  cases a with
  | error x => exact ⟨failed, rfl⟩
  | ok r => exact ⟨o, rfl⟩

theorem body_abandon (o : PgReply F) : Body (abandon o) := fun _ => ⟨o, rfl⟩

theorem body_pgBatchLoop (total : Int) (results : List OperationResult) (ops : List (Operation F)) :
    Body (pgBatchLoop total results ops) := by
  induction ops generalizing total results with
  | nil => exact body_finish _ _
  | cons op ops ih =>
    intro a
    cases a with
    | error x => exact ih _ _
    | ok r => exact ih _ _

theorem body_pgTransactionLoop (ops : List (Operation F)) : Body (pgTransactionLoop ops) := by
  induction ops with
  | nil => exact body_finish _ _
  | cons op ops ih =>
    intro a
    cases a with
    | error x => exact body_abandon _
    | ok r => exact ih

/-- What a call runs in its transaction begins with a statement, if it has any. -/
structure RunsBody (c : PgCall F) (failed : PgReply F) (body : PgCode F) : Prop where
  code : c.code = inTransaction c.schema failed body
  shape : Body body
  first : (c.statements ≠ [] ∧ ∃ q k, body = .call (.statement q) k) ∨ (c.statements = [] ∧ ∃ k, body = .call .commit k)

theorem oneStatement_body (sql : Str) (params : Option (List (SqlValue F))) (failed : PgReply F)
    (answer : PgResult F → PgReply F) :
    Body (.call (.statement (pgStatement sql params)) fun
      | .error _ => abandon failed
      | .ok none => abandon failed
      | .ok (some r) => finish failed (answer r)) := by
  intro a
  match a with
  | .error x => exact body_abandon _
  | .ok none => exact body_abandon _
  | .ok (some r) => exact body_finish _ _

theorem PgCall.runsBody (c : PgCall F) : ∃ failed body, RunsBody c failed body := by
  cases c with
  | query sql params schema => exact ⟨_, _, rfl, oneStatement_body sql params _ _, Or.inl ⟨List.cons_ne_nil _ _, _, _, rfl⟩⟩
  | queryRow sql params schema => exact ⟨_, _, rfl, oneStatement_body sql params _ _, Or.inl ⟨List.cons_ne_nil _ _, _, _, rfl⟩⟩
  | execute sql params schema => exact ⟨_, _, rfl, oneStatement_body sql params _ _, Or.inl ⟨List.cons_ne_nil _ _, _, _, rfl⟩⟩
  | executeBatch ops schema =>
    refine ⟨_, _, rfl, body_pgBatchLoop 0 [] ops, ?_⟩
    cases ops with
    | nil => exact Or.inr ⟨rfl, _, rfl⟩
    | cons op ops => exact Or.inl ⟨List.cons_ne_nil _ _, _, _, rfl⟩
  | executeInTransaction ops schema =>
    refine ⟨_, _, rfl, body_pgTransactionLoop ops, ?_⟩
    cases ops with
    | nil => exact Or.inr ⟨rfl, _, rfl⟩
    | cons op ops => exact Or.inl ⟨List.cons_ne_nil _ _, _, _, rfl⟩

/-! ## One call -/

theorem validateIdentifier_ok {name kind v : Str} (h : validateIdentifier name kind = .ok v) : v = name := by
  rw [validateIdentifier] at h
  split at h
  · cases h
  · split at h
    · cases h
    · split at h
      · cases h
      · exact (Except.ok.inj h).symm

/-- The path of a schema that is set. -/
theorem pathFor_schema (setting : SearchPath) {schema : Str} (h : schema ≠ publicSchema) :
    (pathFor p setting schema = none ∧ Refused p schema) ∨
      (pathFor p setting schema = some [foldIdentifier schema, publicSchema] ∧ ¬ Refused p schema) := by
  rw [pathFor, if_pos h]
  cases hv : validateIdentifier schema schemaWord with
  | error x => exact Or.inl ⟨rfl, Or.inl ⟨x, hv⟩⟩
  | ok v =>
    rw [validateIdentifier_ok hv]
    dsimp only
    rw [PostgresServer.readPath]
    cases hr : p.reserved (foldIdentifier schema) with
    | some x => exact Or.inl ⟨rfl, Or.inr (by rw [hr]; rfl)⟩
    | none =>
      refine Or.inr ⟨rfl, ?_⟩
      rintro (⟨x, hx⟩ | hx)
      · rw [hv] at hx
        cases hx
      · rw [hr] at hx
        cases hx

omit [DecidableEq C] in
/-- What a call reads: nothing when its schema is refused, else its statements under one path, at
least one of them if it has any. -/
theorem resolved_after (s : Cluster D C) (server : C) (c : PgCall F) :
    match pathFor p (s.paths server) c.schema with
    | none => (s.after p server c).resolved = []
    | some path => (∀ x ∈ (s.after p server c).resolved, x.1 = path) ∧
        ((s.after p server c).resolved = [] ↔ c.statements = []) := by
  obtain ⟨failed, body, hb⟩ := c.runsBody
  have hin := exec_inTransaction (p := p) (s := s.session server) rfl c.schema failed body
  rw [← hb.code] at hin
  have hset : (s.session (F := F) server).setting = s.paths server := rfl
  rw [hset] at hin
  cases hp : pathFor p (s.paths server) c.schema with
  | none =>
    rw [hp] at hin
    dsimp only
    rw [Cluster.after, hin]
    rfl
  | some path =>
    rw [hp] at hin
    dsimp only at hin ⊢
    rw [Cluster.after, hin]
    obtain ⟨log, hres, hlog, _, hsome, hnone⟩ := exec_body (p := p) hb.shape
      (s := { s.session server with txn := some ⟨s.durable, path, false⟩ }) (x := ⟨s.durable, path, false⟩) rfl
    have hlogged : (Proc.exec p.engine.serve body
        ⟨s.durable, s.paths server, some ⟨s.durable, path, false⟩, []⟩).1.resolved = log := hres
    change (∀ x ∈ (Proc.exec p.engine.serve body
        ⟨s.durable, s.paths server, some ⟨s.durable, path, false⟩, []⟩).1.resolved, x.1 = path) ∧
      ((Proc.exec p.engine.serve body
        ⟨s.durable, s.paths server, some ⟨s.durable, path, false⟩, []⟩).1.resolved = [] ↔ c.statements = [])
    rw [hlogged]
    refine ⟨hlog, ?_⟩
    rcases hb.first with ⟨hne, q, k, hq⟩ | ⟨hnil, k, hk⟩
    · exact ⟨fun h => absurd h (hsome q k hq rfl), fun h => absurd h hne⟩
    · exact ⟨fun _ => hnil, fun _ => hnone k hk⟩

omit [DecidableEq C] in
/-- Every statement of every call is read under the path of its schema exactly when every call fits. -/
theorem resolves_iff (s : Cluster D C) (ev : ClusterEvent C F) : Resolves p s ev ↔ s.Fits p ev := by
  cases ev with
  | reset server => exact Iff.rfl
  | call server c =>
    have hafter := resolved_after (p := p) s server c
    rw [Resolves, Cluster.Fits, expectedPath]
    by_cases hpub : c.schema = publicSchema
    · have hpath : pathFor p (s.paths server) c.schema = some (s.paths server) := by
        rw [pathFor, if_neg (fun h => h hpub)]
      rw [hpath] at hafter
      obtain ⟨hall, hnil⟩ := hafter
      rw [if_pos hpub, if_pos hpub, ← hnil]
      constructor
      · intro h
        cases hlog : (s.after p server c).resolved with
        | nil => exact Or.inl rfl
        | cons x log =>
          rw [hlog] at h hall
          exact Or.inr ((hall x (List.mem_cons_self ..)).symm.trans (h x (List.mem_cons_self ..)))
      · rintro (hlog | hset) x hx
        · rw [hlog] at hx
          cases hx
        · rw [hall x hx, hset]
    · rw [if_neg hpub, if_neg hpub]
      rcases pathFor_schema (p := p) (s.paths server) hpub with ⟨hpath, href⟩ | ⟨hpath, href⟩
      · rw [hpath] at hafter
        have hnil : (s.after p server c).resolved = [] := hafter
        rw [hnil]
        exact ⟨fun _ => Or.inr (Or.inl href), fun _ _ hx => absurd hx List.not_mem_nil⟩
      · rw [hpath] at hafter
        obtain ⟨hall, hnil⟩ := hafter
        rw [← hnil]
        constructor
        · intro h
          cases hlog : (s.after p server c).resolved with
          | nil => exact Or.inl rfl
          | cons x log =>
            rw [hlog] at h hall
            have heq := (hall x (List.mem_cons_self ..)).symm.trans (h x (List.mem_cons_self ..))
            exact Or.inr (Or.inr (List.cons.inj heq).1)
        · rintro (hlog | hset | hfold) x hx
          · rw [hlog] at hx
            cases hx
          · exact absurd hset href
          · rw [hall x hx, hfold]

/-! ## Runs -/

/-- In a run from fresh server connections, every statement is read under the search path of its
call's schema exactly when every call fits the connection it runs on. -/
theorem schemas_isolated_iff (d : D) (events : List (ClusterEvent C F)) :
    (∀ pre ev post, events = pre ++ ev :: post → Resolves p (run (Cluster.step p) (Cluster.fresh p d) pre) ev) ↔
      Guarded (Cluster.step p) (Cluster.Fits p) (Cluster.fresh p d) events := by
  rw [guarded_iff]
  refine forall_congr' fun pre => forall_congr' fun ev => forall_congr' fun post => ?_
  rw [resolves_iff]

end Cluster

/-! ## A call that changes the path of a later one -/

section Example

/-- A server every statement succeeds on. -/
def easyServer : PostgresServer Unit Unit where
  apply := fun _ _ _ => .ok ((), ⟨lit "SELECT 0", []⟩)
  reserved := fun _ => none
  commitError := fun _ => none
  defaultPath := [publicSchema]

/-- A call for `sales` on a server connection; the reset of the pool runs on another one. -/
def salesThenReset : List (ClusterEvent Bool Unit) :=
  [.call true (.execute (lit "INSERT INTO orders DEFAULT VALUES") none (lit "sales")), .reset false]

def publicQuery : PgCall Unit := .query (lit "SELECT * FROM orders") none publicSchema

/-- The next call, for `public`, finds `sales` on that server connection. -/
theorem public_reads_sales :
    (((run (Cluster.step easyServer) (Cluster.fresh easyServer ()) salesThenReset).after easyServer true
      publicQuery).resolved.map fun x => x.1) = [[lit "sales", publicSchema]] ∧
    expectedPath easyServer publicQuery.schema = [publicSchema] ∧
    ¬ Resolves easyServer (run (Cluster.step easyServer) (Cluster.fresh easyServer ()) salesThenReset)
      (.call true publicQuery) := by
  have hlog : (((run (Cluster.step easyServer) (Cluster.fresh easyServer ()) salesThenReset).after easyServer true
      publicQuery).resolved.map fun x => x.1) = [[lit "sales", publicSchema]] := by
    decide
  refine ⟨hlog, rfl, ?_⟩
  intro h
  have hmem : [lit "sales", publicSchema] ∈ (((run (Cluster.step easyServer) (Cluster.fresh easyServer ())
      salesThenReset).after easyServer true publicQuery).resolved.map fun x => x.1) := by
    rw [hlog]
    exact List.mem_singleton_self _
  rw [List.mem_map] at hmem
  obtain ⟨x, hx, hpath⟩ := hmem
  have hdefault : [lit "sales", publicSchema] = [publicSchema] := hpath.symm.trans (h x hx)
  exact absurd (List.cons.inj hdefault).2 (List.cons_ne_nil _ _)

end Example

end IsaCloud.Database
