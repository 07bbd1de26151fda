import IsaCloud.Support.Runs
import IsaCloud.Support.Reconcile
import IsaCloud.Support.Text

/-!
# Concurrent queries of the DuckDB client

`query_many_concurrent` hands its queries to a pool of worker threads. Each query
executes, reads the description and fetches the rows in three steps on the one
connection, which holds a single pending result. The queries only read: what a
query selects does not depend on the others.
-/

namespace IsaCloud.Database

set_option autoImplicit false

open Support Support.Text

structure Table (V : Type) where
  columns : List Str
  rows : List (List V)

/-- The `duckdb` package. -/
structure DuckDb (V : Type) where
  /-- The table of a query, unless `execute` raises. -/
  select : Str → Option (Table V)
  /-- The pending result after an `execute` that has raised. -/
  afterError : Option (Table V) → Option (Table V)

/-- Where the `_query` of a call is. -/
inductive Query (V : Type) where
  | queued
  /-- `result` is the connection. -/
  | executed
  | described (columns : List Str)
  | finished (rows : Option (List (Dict Str V)))

namespace Query
variable {V : Type}

def waiting : Query V → Bool
  | queued => true
  | _ => false

def busy : Query V → Bool
  | executed => true
  | described _ => true
  | _ => false

def result : Query V → Option (List (Dict Str V))
  | finished rows => rows
  | _ => none

end Query

namespace DuckDb
variable {V : Type} (db : DuckDb V) (sql : Str)

/-- The next step of a worker: what is pending then, and where the query is. -/
def advance (pending : Option (Table V)) : Query V → Option (Table V) × Query V
  | .queued =>
    match db.select sql with
    | some t => (some t, .executed)
    | none => (db.afterError pending, .finished none)
  | .executed =>
    match pending with
    | some t => (pending, .described t.columns)
    | none => (pending, .finished none)
  | .described columns =>
    match pending with
    | some t =>
      (some { t with rows := [] }, .finished (some (t.rows.map fun row => Dict.empty.putAll (columns.zip row))))
    | none => (pending, .finished none)
  | .finished rows => (pending, .finished rows)

/-- So many steps on a connection of its own. -/
def steps : Nat → Option (Table V) × Query V
  | 0 => (none, .queued)
  | n + 1 => db.advance sql (steps n).1 (steps n).2

/-- What the query returns when it is run alone. -/
def alone : Option (List (Dict Str V)) := (db.steps sql 3).2.result

theorem alone_of_select {t : Table V} (h : db.select sql = some t) :
    db.alone sql = some (t.rows.map fun row => Dict.empty.putAll (t.columns.zip row)) := by
  simp only [alone, steps, advance, h, Query.result]

theorem alone_of_error (h : db.select sql = none) : db.alone sql = none := by
  simp only [alone, steps, advance, h, Query.result]

end DuckDb

/-- The connection, and the calls in the order of the queries. -/
structure QueryState (V : Type) where
  pending : Option (Table V)
  calls : Nat → Query V

namespace QueryState

section Steps
variable {V : Type} (db : DuckDb V) (workers : Nat) (queries : List Str)

def start : QueryState V := ⟨none, fun _ => .queued⟩

/-- The pool takes a query when a worker is free and all queries before it have been taken. -/
def taken (s : QueryState V) (i : Nat) : Bool :=
  (List.range queries.length).countP (fun j => (s.calls j).busy) < workers &&
    (List.range i).all fun j => !(s.calls j).waiting

def serve (s : QueryState V) (i : Nat) (sql : Str) : QueryState V :=
  ⟨(db.advance sql s.pending (s.calls i)).1, Function.update s.calls i (db.advance sql s.pending (s.calls i)).2⟩

/-- The worker of a query takes its next step. -/
def step (s : QueryState V) (i : Nat) : QueryState V :=
  match queries[i]? with
  | none => s
  | some sql =>
    if (s.calls i).waiting && !s.taken workers queries i then s else s.serve db i sql

/-- The returned results are those of the queries run alone. -/
def Faithful (s : QueryState V) : Prop :=
  ∀ i sql rows, queries[i]? = some sql → s.calls i = .finished rows → rows = db.alone sql

/-- No query executes while another has executed and not yet fetched its rows. -/
def Separate (s : QueryState V) (i : Nat) : Prop :=
  (s.calls i).waiting = true → s.taken workers queries i = true → ∀ j, j < queries.length → (s.calls j).busy = false

end Steps

/-! ## The invariant -/

section Invariant
variable {V : Type} {db : DuckDb V} {workers : Nat} {queries : List Str} {s : QueryState V}

/-- What is pending while a query is where it is. -/
def Fits (db : DuckDb V) (pending : Option (Table V)) (sql : Str) : Query V → Prop
  | .queued => True
  | .executed => ∃ t, db.select sql = some t ∧ pending = some t
  | .described columns => ∃ t, db.select sql = some t ∧ pending = some t ∧ columns = t.columns
  | .finished rows => rows = db.alone sql

structure Inv (db : DuckDb V) (queries : List Str) (s : QueryState V) : Prop where
  fits : ∀ i sql, queries[i]? = some sql → Fits db s.pending sql (s.calls i)
  single : ∀ i j, i < queries.length → j < queries.length →
    (s.calls i).busy = true → (s.calls j).busy = true → i = j

theorem inv_start : Inv db queries start := by
  constructor
  · intro i sql hi
    trivial
  · intro i j hi hj hbusy
    cases hbusy

theorem faithful_of_inv (h : Inv db queries s) : s.Faithful db queries := by
  intro i sql rows hi hcall
  have hfits := h.fits i sql hi
  rw [hcall] at hfits
  exact hfits

/-- A query that is not busy fits whatever is pending. -/
theorem fits_of_not_busy {p p' : Option (Table V)} {sql : Str} {q : Query V} (hq : q.busy = false)
    (h : Fits db p sql q) : Fits db p' sql q := by
  cases q with
  | queued => trivial
  | finished rows => exact h
  | executed => cases hq
  | described columns => cases hq

/-- A step of a query that has executed, or that nobody disturbs, is a step of it alone. -/
theorem fits_advance {pending : Option (Table V)} {sql : Str} {q : Query V} (h : Fits db pending sql q) :
    Fits db (db.advance sql pending q).1 sql (db.advance sql pending q).2 := by
  cases q with
  | queued =>
    cases hselect : db.select sql with
    | none =>
      simp only [DuckDb.advance, hselect]
      exact (db.alone_of_error sql hselect).symm
    | some t =>
      simp only [DuckDb.advance, hselect]
      exact ⟨t, hselect, rfl⟩
  | executed =>
    obtain ⟨t, hselect, rfl⟩ := h
    exact ⟨t, hselect, rfl, rfl⟩
  | described columns =>
    obtain ⟨t, hselect, rfl, rfl⟩ := h
    exact (db.alone_of_select sql hselect).symm
  | finished rows => exact h

theorem busy_of_advance {pending : Option (Table V)} {sql : Str} {q : Query V}
    (h : (db.advance sql pending q).2.busy = true) : q.waiting = true ∨ q.busy = true := by
  cases q with
  | queued => exact Or.inl rfl
  | executed => exact Or.inr rfl
  | described columns => exact Or.inr rfl
  | finished rows => cases h

/-- Only a query that executes, or that is busy, changes what is pending. -/
theorem pending_of_advance {pending : Option (Table V)} {sql : Str} {q : Query V} (hw : q.waiting = false)
    (hb : q.busy = false) : (db.advance sql pending q).1 = pending := by
  cases q with
  | queued => cases hw
  | executed => cases hb
  | described columns => cases hb
  | finished rows => rfl

theorem serve_calls_self (i : Nat) (sql : Str) :
    (s.serve db i sql).calls i = (db.advance sql s.pending (s.calls i)).2 :=
  Function.update_self _ _ _

theorem serve_calls_of_ne (sql : Str) {i j : Nat} (h : j ≠ i) : (s.serve db i sql).calls j = s.calls j :=
  Function.update_of_ne h _ _

/-- A query is served while no other is busy. -/
theorem inv_serve {i : Nat} {sql : Str} (h : Inv db queries s) (hquery : queries[i]? = some sql)
    (hothers : (s.calls i).waiting = true ∨ (s.calls i).busy = true →
      ∀ j, j < queries.length → j ≠ i → (s.calls j).busy = false) :
    Inv db queries (s.serve db i sql) := by
  have hquiet : ∀ j, j < queries.length → j ≠ i → (s.calls j).busy = true →
      ((s.serve db i sql).calls i).busy = true → False := by
    intro j hj hji hbusyj hbusyi
    rw [serve_calls_self] at hbusyi
    have hfree := hothers (busy_of_advance hbusyi) j hj hji
    rw [hbusyj] at hfree
    cases hfree
  constructor
  · intro j sqlj hj
    by_cases hji : j = i
    · subst hji
      rw [hquery] at hj
      cases hj
      rw [serve_calls_self]
      exact fits_advance (h.fits _ _ hquery)
    · rw [serve_calls_of_ne sql hji]
      have hfits := h.fits j sqlj hj
      cases hbusy : (s.calls j).busy with
      | false => exact fits_of_not_busy hbusy hfits
      | true =>
        obtain ⟨hjlt, _⟩ := List.getElem?_eq_some_iff.mp hj
        have hidle : ¬ ((s.calls i).waiting = true ∨ (s.calls i).busy = true) := by
          intro hi
          have hfree := hothers hi j hjlt hji
          rw [hbusy] at hfree
          cases hfree
        have hpending : (s.serve db i sql).pending = s.pending :=
          pending_of_advance (Bool.eq_false_of_not_eq_true fun hw => hidle (Or.inl hw))
            (Bool.eq_false_of_not_eq_true fun hb => hidle (Or.inr hb))
        rw [hpending]
        exact hfits
  · intro j k hj hk hbusyj hbusyk
    by_cases hji : j = i
    · by_cases hki : k = i
      · rw [hji, hki]
      · rw [hji] at hbusyj
        rw [serve_calls_of_ne sql hki] at hbusyk
        exact (hquiet k hk hki hbusyk hbusyj).elim
    · rw [serve_calls_of_ne sql hji] at hbusyj
      by_cases hki : k = i
      · rw [hki] at hbusyk
        exact (hquiet j hj hji hbusyj hbusyk).elim
      · rw [serve_calls_of_ne sql hki] at hbusyk
        exact h.single j k hj hk hbusyj hbusyk

theorem inv_step {i : Nat} (h : Inv db queries s) (hseparate : s.Separate workers queries i) :
    Inv db queries (s.step db workers queries i) := by
  unfold step
  cases hquery : queries[i]? with
  | none => exact h
  | some sql =>
    obtain ⟨hi, _⟩ := List.getElem?_eq_some_iff.mp hquery
    dsimp only
    split
    · exact h
    · rename_i htaken
      refine inv_serve h hquery ?_
      rintro (hwaiting | hbusy) j hj hji
      · refine hseparate hwaiting ?_ j hj
        cases htake : s.taken workers queries i with
        | true => rfl
        | false =>
          rw [hwaiting, htake] at htaken
          exact absurd rfl htaken
      · cases hbusyj : (s.calls j).busy with
        | false => rfl
        | true => exact absurd (h.single j i hj hi hbusyj hbusy) hji

end Invariant

/-! ## Runs -/

section Runs
variable {V : Type} (db : DuckDb V) (workers : Nat) (queries : List Str)

/-- Queries that do not run into each other return what they return alone. -/
theorem faithful_run (events : List Nat)
    (h : Guarded (step db workers queries) (Separate workers queries) start events) :
    (run (step db workers queries) start events).Faithful db queries :=
  faithful_of_inv (guarded_invariant (Inv db queries) (fun _ _ hseparate hs => inv_step hs hseparate) h inv_start)

/-- One worker takes one query after the other. -/
theorem separate_of_one_worker (s : QueryState V) (i : Nat) : s.Separate 1 queries i := by
  intro _ htaken j hj
  unfold taken at htaken
  obtain ⟨hcount, _⟩ := Bool.and_eq_true_iff.mp htaken
  have hnone : (List.range queries.length).countP (fun j => (s.calls j).busy) = 0 := by
    have := of_decide_eq_true hcount
    omega
  have hbusy := List.countP_eq_zero.mp hnone j (List.mem_range.mpr hj)
  exact Bool.not_eq_true _ ▸ hbusy

theorem faithful_of_one_worker (events : List Nat) :
    (run (step db 1 queries) start events).Faithful db queries := by
  refine faithful_run db 1 queries events ?_
  exact guarded_iff.mpr fun pre i post _ => separate_of_one_worker queries _ i

end Runs

/-! ## Two queries -/

/-- A table of one row for every query. -/
def lengthDb : DuckDb Nat := ⟨fun sql => some ⟨[lit "n"], [[sql.length]]⟩, fun pending => pending⟩

/-- The second query waits until the rows of the first are fetched. -/
theorem polite_queries_faithful :
    (run (step lengthDb 4 [lit "a", lit "bb"]) start [0, 0, 0, 1, 1, 1]).Faithful lengthDb [lit "a", lit "bb"] := by
  refine faithful_run lengthDb 4 _ _ ⟨?_, ?_, ?_, ?_, ?_, ?_, trivial⟩
  · exact fun _ _ j _ => rfl
  · exact fun hwaiting => nomatch hwaiting
  · exact fun hwaiting => nomatch hwaiting
  · intro _ _ j hj
    match j, hj with
    | 0, _ => rfl
    | 1, _ => rfl
  · exact fun hwaiting => nomatch hwaiting
  · exact fun hwaiting => nomatch hwaiting

/-- The second query executes before the first fetches, which then returns the rows of the second. -/
theorem overlapping_queries_mixed :
    ¬ ∀ events : List Nat,
      (run (step lengthDb 4 [lit "a", lit "bb"]) start events).Faithful lengthDb [lit "a", lit "bb"] := by
  intro hall
  have hfirst := hall [0, 1, 0, 0] 0 (lit "a") _ rfl rfl
  have hrows := congrArg (Option.map fun rows => rows.map Dict.entries) hfirst
  exact absurd hrows (by decide)

end QueryState

end IsaCloud.Database
