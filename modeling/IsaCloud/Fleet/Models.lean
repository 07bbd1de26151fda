import IsaCloud.Support.IsoTime
import IsaCloud.Support.Runs
import IsaCloud.Support.Table

/-!
# The fleet console's tables

The rows of `models.py`, `telemetry_credential.py` and `telemetry_models.py`
with all their columns, and the database they live in. A transaction is a list
of writes; primary and foreign keys are checked write by write, and a write that
fails undoes the transaction. A client sees the database through single reads
and commits, so that several of them can interleave between these.
-/

namespace IsaCloud.Fleet

set_option autoImplicit false

open Support Support.Text Support.Python Support.DateTime Support.IsoTime

structure IssuanceLedger where
  licenseId : Str
  customerId : Str
  edition : Str
  entitledModules : List Str
  quotaTier : Option Str
  issuedAt : Instant
  notBefore : Instant
  expiresAt : Option Instant
  supersededBy : Option Str
  delivery : Option Str
  deploymentSecretId : Option Str
  revokedAt : Option Instant
  revokedReason : Option Str
  deriving DecidableEq, Repr

structure DeploymentSecret where
  deploymentSecretId : Str
  secret : Str
  customerId : Str
  licenseId : Option Str
  deriving DecidableEq, Repr

structure TelemetryRecord (F : Type) where
  id : Nat
  licenseId : Str
  deploymentSecretId : Option Str
  lastSeen : PyDateTime
  receivedAt : Instant
  source : Str
  activeEdition : Option Str
  activeModules : List Str
  moduleUsage : List (Str × Int)
  showbackTotals : List (Str × F)
  overLicense : Bool

structure Database (F : Type) where
  ledger : List IssuanceLedger
  secrets : List DeploymentSecret
  telemetry : List (TelemetryRecord F)

variable {F : Type}

namespace Database

def empty : Database F := ⟨[], [], []⟩

def findLicense (db : Database F) (licenseId : Str) : Option IssuanceLedger :=
  Table.find IssuanceLedger.licenseId db.ledger licenseId

def findSecret (db : Database F) (deploymentSecretId : Str) : Option DeploymentSecret :=
  Table.find DeploymentSecret.deploymentSecretId db.secrets deploymentSecretId

/-- A foreign key to the ledger that names no row; `NULL` is no reference. -/
def lacks (db : Database F) : Option Str → Bool
  | none => false
  | some licenseId => (db.findLicense licenseId).isNone

end Database

inductive Write (F : Type) where
  | insertLedger (row : IssuanceLedger)
  | insertSecret (row : DeploymentSecret)
  /-- The columns a unit of work changed, and no others. -/
  | setSuperseded (licenseId successor : Str)
  | setRevoked (licenseId : Str) (at_ : Instant) (reason : Option (Option Str))
  /-- The database assigns the surrogate key. -/
  | insertTelemetry (row : TelemetryRecord F)

def integrityError (message : String) : PyError := ⟨.integrityError, lit message⟩

def uniqueFailed : PyError := integrityError "UNIQUE constraint failed"
def foreignKeyFailed : PyError := integrityError "FOREIGN KEY constraint failed"

def IssuanceLedger.supersede (row : IssuanceLedger) (successor : Str) : IssuanceLedger :=
  { row with supersededBy := some successor }

/-- A reason of `none` leaves that column as it is. -/
def IssuanceLedger.revoke (row : IssuanceLedger) (at_ : Instant) (reason : Option (Option Str)) :
    IssuanceLedger :=
  { row with revokedAt := some at_, revokedReason := reason.getD row.revokedReason }

namespace IssuanceLedger
variable (row : IssuanceLedger) (successor : Str) (at_ : Instant) (reason : Option (Option Str))

@[simp] theorem supersede_licenseId : (row.supersede successor).licenseId = row.licenseId := rfl

@[simp] theorem supersede_supersededBy :
    (row.supersede successor).supersededBy = some successor := rfl

@[simp] theorem supersede_revokedAt : (row.supersede successor).revokedAt = row.revokedAt := rfl

@[simp] theorem revoke_licenseId : (row.revoke at_ reason).licenseId = row.licenseId := rfl

@[simp] theorem revoke_supersededBy :
    (row.revoke at_ reason).supersededBy = row.supersededBy := rfl

@[simp] theorem revoke_revokedAt : (row.revoke at_ reason).revokedAt = some at_ := rfl

end IssuanceLedger

def applyWrite (db : Database F) : Write F → Except PyError (Database F)
  | .insertLedger row =>
    if (db.findLicense row.licenseId).isSome then .error uniqueFailed
    else if db.lacks row.supersededBy then .error foreignKeyFailed
    else .ok { db with ledger := db.ledger ++ [row] }
  | .insertSecret row =>
    if (db.findSecret row.deploymentSecretId).isSome then .error uniqueFailed
    else .ok { db with secrets := db.secrets ++ [row] }
  | .setSuperseded licenseId successor =>
    if db.lacks (some successor) then .error foreignKeyFailed
    else .ok
      { db with
        ledger := Table.update IssuanceLedger.licenseId db.ledger licenseId
          (·.supersede successor) }
  | .setRevoked licenseId at_ reason => .ok
      { db with
        ledger := Table.update IssuanceLedger.licenseId db.ledger licenseId
          (·.revoke at_ reason) }
  | .insertTelemetry row =>
    if db.lacks (some row.licenseId) then .error foreignKeyFailed
    else .ok { db with telemetry := db.telemetry ++ [{ row with id := db.telemetry.length + 1 }] }

def applyWrites (db : Database F) : List (Write F) → Except PyError (Database F)
  | [] => .ok db
  | w :: ws =>
    match applyWrite db w with
    | .ok db' => applyWrites db' ws
    | .error e => .error e

theorem applyWrites_cons_ok {db db' : Database F} {w : Write F} (h : applyWrite db w = .ok db')
    (ws : List (Write F)) : applyWrites db (w :: ws) = applyWrites db' ws := by
  rw [applyWrites, h]

theorem applyWrites_cons_error {db : Database F} {w : Write F} {e : PyError}
    (h : applyWrite db w = .error e) (ws : List (Write F)) :
    applyWrites db (w :: ws) = .error e := by
  rw [applyWrites, h]

inductive DbCommand (F : Type) where
  | getLedger (licenseId : Str)
  | getSecret (deploymentSecretId : Str)
  | commit (writes : List (Write F))

inductive DbReply where
  | ledger (row : Option IssuanceLedger)
  | secret (row : Option DeploymentSecret)
  /-- With the surrogate key that was assigned last. -/
  | committed (telemetryId : Nat)
  | failed (e : PyError)

def serve (db : Database F) : DbCommand F → Database F × DbReply
  | .getLedger licenseId => (db, .ledger (db.findLicense licenseId))
  | .getSecret deploymentSecretId => (db, .secret (db.findSecret deploymentSecretId))
  | .commit writes =>
    match applyWrites db writes with
    | .ok db' => (db', .committed db'.telemetry.length)
    | .error e => (db, .failed e)

/-- A server that can refuse a command, for a reason of its own or because the
connection is gone. What it refuses it has not done. -/
def serveUnder (refuse : Database F → DbCommand F → Option PyError) (db : Database F)
    (c : DbCommand F) : Database F × DbReply :=
  match refuse db c with
  | some e => (db, .failed e)
  | none => serve db c

/-- A piece of service code on one database session. -/
abbrev Session (F Out : Type) := Proc (DbCommand F) DbReply (Except PyError Out)

namespace Session
variable {Out : Type}

def withLedger (licenseId : Str) (k : Option IssuanceLedger → Session F Out) : Session F Out :=
  .call (.getLedger licenseId) fun reply =>
    match reply with
    | .ledger row => k row
    | .failed e => .ret (.error e)
    | _ => k none

def withSecret (deploymentSecretId : Str) (k : Option DeploymentSecret → Session F Out) :
    Session F Out :=
  .call (.getSecret deploymentSecretId) fun reply =>
    match reply with
    | .secret row => k row
    | .failed e => .ret (.error e)
    | _ => k none

/-- Commit, and answer only after the commit succeeded, with the key it assigned. -/
def commitWith (writes : List (Write F)) (out : Nat → Out) : Session F Out :=
  .call (.commit writes) fun reply =>
    match reply with
    | .failed e => .ret (.error e)
    | .committed telemetryId => .ret (.ok (out telemetryId))
    | _ => .ret (.ok (out 0))

def commitThen (writes : List (Write F)) (out : Out) : Session F Out :=
  commitWith writes fun _ => out

/-- The session with its answer dropped. -/
def quiet (s : Session F Out) : Session F Unit := Proc.map (Except.map fun _ => ()) s

@[simp] theorem quiet_ret_error (e : PyError) : quiet (.ret (.error e) : Session F Out) =
    .ret (.error e) := rfl

theorem quiet_withLedger (licenseId : Str) (k : Option IssuanceLedger → Session F Out) :
    quiet (withLedger licenseId k) = withLedger licenseId fun row => quiet (k row) := by
  simp only [quiet, withLedger, Proc.map_call]
  congr 1
  funext reply
  cases reply <;> rfl

theorem quiet_attempt {X : Type} (x : Except PyError X) (k : X → Session F Out) :
    quiet (Proc.attempt x k) = Proc.attempt x fun a => quiet (k a) := by
  cases x <;> rfl

theorem quiet_commitThen (writes : List (Write F)) (out : Out) :
    quiet (commitThen writes out) = commitThen writes () := by
  simp only [quiet, commitThen, commitWith, Proc.map_call]
  congr 1
  funext reply
  cases reply <;> rfl

/-- One call on its own session, with nothing in between. -/
def exec (s : Session F Out) (db : Database F) : Database F × Except PyError Out :=
  Proc.exec serve s db

/-- The same on a server that can refuse. -/
def execUnder (refuse : Database F → DbCommand F → Option PyError) (s : Session F Out)
    (db : Database F) : Database F × Except PyError Out :=
  Proc.exec (serveUnder refuse) s db

@[simp] theorem exec_ret (out : Except PyError Out) (db : Database F) :
    exec (.ret out : Session F Out) db = (db, out) := rfl

@[simp] theorem exec_withLedger (licenseId : Str) (k : Option IssuanceLedger → Session F Out)
    (db : Database F) : exec (withLedger licenseId k) db = exec (k (db.findLicense licenseId)) db :=
  rfl

@[simp] theorem exec_withSecret (deploymentSecretId : Str)
    (k : Option DeploymentSecret → Session F Out) (db : Database F) :
    exec (withSecret deploymentSecretId k) db = exec (k (db.findSecret deploymentSecretId)) db :=
  rfl

/-- The call raises and stores nothing. -/
def Rejects (db : Database F) (call : Session F Out) : Prop := ∃ e, exec call db = (db, .error e)

theorem Rejects.unchanged {db : Database F} {call : Session F Out} (h : Rejects db call) : (exec call db).1 = db := by
  obtain ⟨e, he⟩ := h
  rw [he]

/-- A local computation raises, and nothing happens, or the session goes on with its value. -/
theorem exec_attempt {X : Type} (x : Except PyError X) (k : X → Session F Out) (db : Database F) :
    Rejects db (Proc.attempt x k) ∨ ∃ a, x = .ok a ∧ exec (Proc.attempt x k) db = exec (k a) db := by
  cases x with
  | error e => exact .inl ⟨e, rfl⟩
  | ok a => exact .inr ⟨a, rfl, rfl⟩

theorem exec_commitWith (writes : List (Write F)) (out : Nat → Out) (db : Database F) :
    exec (commitWith writes out) db =
      match applyWrites db writes with
      | .ok db' => (db', .ok (out db'.telemetry.length))
      | .error e => (db, .error e) := by
  simp only [exec, commitWith, Proc.exec_call, serve]
  cases applyWrites db writes <;> rfl

theorem exec_commitThen (writes : List (Write F)) (out : Out) (db : Database F) :
    exec (commitThen writes out) db =
      match applyWrites db writes with
      | .ok db' => (db', .ok out)
      | .error e => (db, .error e) :=
  exec_commitWith writes (fun _ => out) db

/-! What a server that can refuse makes of the pieces of a session. -/

section Refusing
variable (refuse : Database F → DbCommand F → Option PyError) (db : Database F)

@[simp] theorem execUnder_ret (out : Except PyError Out) :
    execUnder refuse (.ret out : Session F Out) db = (db, out) := rfl

theorem execUnder_withLedger (licenseId : Str) (k : Option IssuanceLedger → Session F Out) :
    execUnder refuse (withLedger licenseId k) db =
      match refuse db (.getLedger licenseId) with
      | some e => (db, .error e)
      | none => execUnder refuse (k (db.findLicense licenseId)) db := by
  simp only [execUnder, withLedger, Proc.exec_call, serveUnder]
  cases refuse db (.getLedger licenseId) <;> rfl

theorem execUnder_withSecret (deploymentSecretId : Str)
    (k : Option DeploymentSecret → Session F Out) :
    execUnder refuse (withSecret deploymentSecretId k) db =
      match refuse db (.getSecret deploymentSecretId) with
      | some e => (db, .error e)
      | none => execUnder refuse (k (db.findSecret deploymentSecretId)) db := by
  simp only [execUnder, withSecret, Proc.exec_call, serveUnder]
  cases refuse db (.getSecret deploymentSecretId) <;> rfl

theorem execUnder_commitWith (writes : List (Write F)) (out : Nat → Out) :
    execUnder refuse (commitWith writes out) db =
      match refuse db (.commit writes) with
      | some e => (db, .error e)
      | none => exec (commitWith writes out) db := by
  simp only [execUnder, exec, commitWith, Proc.exec_call, serveUnder]
  cases refuse db (.commit writes) with
  | some e => rfl
  | none =>
    simp only [serve]
    cases applyWrites db writes <;> rfl

end Refusing

end Session

end IsaCloud.Fleet
