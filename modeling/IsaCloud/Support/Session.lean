import IsaCloud.Support.Runs

/-!
# Sessions whose transactions abort

A session of a database server with one setting. Inside a transaction a failing
command aborts it: every later command fails until the end, and a commit is then
a rollback. The setting made inside a transaction stays in force if it commits.
`resolved` records under which setting each statement was read.
-/

namespace Support.Session

set_option autoImplicit false

/-- What statements do under a setting, how an assignment of the setting is read, what a commit
checks, and the error of every command in an aborted transaction. A `begin` inside a transaction and
a commit or rollback outside one are only warned of. -/
structure Engine (D S A Q R E : Type) where
  apply : S → Q → D → Except E (D × R)
  read : A → Except E S
  commitError : D → Option E
  aborted : E

structure Txn (D S : Type) where
  db : D
  setting : S
  aborted : Bool

structure State (D S Q : Type) where
  durable : D
  setting : S
  txn : Option (Txn D S)
  resolved : List (S × Q)

inductive Command (A Q : Type) where
  | begin
  | set (a : A)
  | statement (q : Q)
  | commit
  | rollback

abbrev Answer (R E : Type) := Except E (Option R)

section Serve
variable {D S A Q R E : Type} (e : Engine D S A Q R E)

/-- A transaction that a command has failed in. -/
def State.abort (s : State D S Q) (x : Txn D S) : State D S Q := { s with txn := some { x with aborted := true } }

def State.close (s : State D S Q) : State D S Q := { s with txn := none }

def Engine.inside (s : State D S Q) (x : Txn D S) : Command A Q → State D S Q × Answer R E
  | .begin => (s, .ok none)
  | .set a =>
    match e.read a with
    | .ok setting => ({ s with txn := some { x with setting := setting } }, .ok none)
    | .error err => (s.abort x, .error err)
  | .statement q =>
    match e.apply x.setting q x.db with
    | .ok (db, r) => ({ s with txn := some { x with db := db }, resolved := s.resolved ++ [(x.setting, q)] }, .ok (some r))
    | .error err => ({ s.abort x with resolved := s.resolved ++ [(x.setting, q)] }, .error err)
  | .commit =>
    match e.commitError x.db with
    | none => (⟨x.db, x.setting, none, s.resolved⟩, .ok none)
    | some err => (s.close, .error err)
  | .rollback => (s.close, .ok none)

def Engine.insideAborted (s : State D S Q) : Command A Q → State D S Q × Answer R E
  | .commit => (s.close, .ok none)
  | .rollback => (s.close, .ok none)
  | _ => (s, .error e.aborted)

/-- Outside a transaction every command commits itself. -/
def Engine.outside (s : State D S Q) : Command A Q → State D S Q × Answer R E
  | .begin => ({ s with txn := some ⟨s.durable, s.setting, false⟩ }, .ok none)
  | .set a =>
    match e.read a with
    | .ok setting => ({ s with setting := setting }, .ok none)
    | .error err => (s, .error err)
  | .statement q =>
    let logged := { s with resolved := s.resolved ++ [(s.setting, q)] }
    match e.apply s.setting q s.durable with
    | .ok (db, r) =>
      match e.commitError db with
      | none => ({ logged with durable := db }, .ok (some r))
      | some err => (logged, .error err)
    | .error err => (logged, .error err)
  | .commit => (s, .ok none)
  | .rollback => (s, .ok none)

def Engine.serve (s : State D S Q) (c : Command A Q) : State D S Q × Answer R E :=
  match s.txn with
  | some x => if x.aborted then e.insideAborted s c else e.inside s x c
  | none => e.outside s c

end Serve

/-! ## Statements one after the other -/

section Sequence
variable {D Q R E : Type} (apply : Q → D → Except E (D × R))

/-- All statements, those that fail changing nothing. -/
def attemptAll : D → List Q → List (Except E R) × D
  | d, [] => ([], d)
  | d, q :: qs =>
    match apply q d with
    | .ok (d', r) => (.ok r :: (attemptAll d' qs).1, (attemptAll d' qs).2)
    | .error x => (.error x :: (attemptAll d qs).1, (attemptAll d qs).2)

/-- What the statements before the first failing one answer, the database there, the failure, and
the statements after it. -/
structure Stretch (D Q R E : Type) where
  answers : List R
  db : D
  failure : Option E
  rest : List Q

def stretch : D → List Q → Stretch D Q R E
  | d, [] => ⟨[], d, none, []⟩
  | d, q :: qs =>
    match apply q d with
    | .ok (d', r) => { stretch d' qs with answers := r :: (stretch d' qs).answers }
    | .error x => ⟨[], d, some x, qs⟩

variable {apply}

theorem attemptAll_of_stretch {d : D} {qs : List Q} (h : (stretch apply d qs).failure = none) :
    attemptAll apply d qs = ((stretch apply d qs).answers.map .ok, (stretch apply d qs).db) := by
  induction qs generalizing d with
  | nil => rfl
  | cons q qs ih =>
    rw [stretch] at h ⊢
    rw [attemptAll]
    cases hq : apply q d with
    | error x =>
      rw [hq] at h
      cases h
    | ok r =>
      rw [hq] at h
      dsimp only at h ⊢
      rw [ih h]
      rfl

end Sequence

end Support.Session
