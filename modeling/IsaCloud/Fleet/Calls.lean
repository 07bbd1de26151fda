import IsaCloud.Fleet.Issuance
import IsaCloud.Support.Lineage

/-!
# Calls on the ledger

A call to `issue`, `renew` or `revoke` reads at most one row and, unless it is
refused, commits one of three plans. `exec_session` says what a call does when
nothing happens between its read and its commit, `prepare_admitted` which plan
it can have, and `Plan.apply` what committing one does to the tables.
-/

namespace IsaCloud.Fleet

set_option autoImplicit false

open Support Support.Text Support.Python Support.DateTime Support.Lineage License

/-- What a call has decided to write. -/
inductive Plan where
  | add (row : IssuanceLedger) (secret : DeploymentSecret)
  | replace (prior : Str) (row : IssuanceLedger) (secret : DeploymentSecret)
  | flag (licenseId : Str) (at_ : Instant) (reason : Option (Option Str))
  deriving DecidableEq, Repr

namespace Plan
variable {F : Type}

def writes : Plan → List (Write F)
  | .add row secret => [.insertLedger row, .insertSecret secret]
  | .replace prior row secret =>
    [.insertLedger row, .insertSecret secret, .setSuperseded prior row.licenseId]
  | .flag licenseId at_ reason => [.setRevoked licenseId at_ reason]

/-- The primary keys a plan brings are free. -/
def fresh (db : Database F) : Plan → Bool
  | .add row secret | .replace _ row secret =>
    (db.findLicense row.licenseId).isNone && (db.findSecret secret.deploymentSecretId).isNone
  | .flag _ _ _ => true

def apply (db : Database F) : Plan → Database F
  | .add row secret =>
    { db with ledger := db.ledger ++ [row], secrets := db.secrets ++ [secret] }
  | .replace prior row secret =>
    { db with
      ledger := Table.update IssuanceLedger.licenseId (db.ledger ++ [row]) prior
        (·.supersede row.licenseId)
      secrets := db.secrets ++ [secret] }
  | .flag licenseId at_ reason =>
    { db with
      ledger := Table.update IssuanceLedger.licenseId db.ledger licenseId
        (·.revoke at_ reason) }

/-- The rows a plan adds are new ones. -/
def Proper : Plan → Prop
  | .add row _ | .replace _ row _ => row.supersededBy = none
  | .flag _ _ _ => True

theorem applyWrites_insert {db : Database F} {row : IssuanceLedger} {secret : DeploymentSecret}
    (hrow : row.supersededBy = none) (ws : List (Write F)) :
    applyWrites db (.insertLedger row :: .insertSecret secret :: ws) =
      if (Plan.add row secret).fresh db then applyWrites ((Plan.add row secret).apply db) ws
      else .error uniqueFailed := by
  have hfk : db.lacks row.supersededBy = false := by rw [hrow]; rfl
  cases hl : db.findLicense row.licenseId with
  | some other =>
    have hledger : applyWrite db (.insertLedger row) = .error uniqueFailed := by
      simp [applyWrite, hl]
    rw [applyWrites_cons_error hledger]
    simp [fresh, hl]
  | none =>
    have hledger : applyWrite db (.insertLedger row) =
        .ok { db with ledger := db.ledger ++ [row] } := by
      simp [applyWrite, hl, hfk]
    have hsame : Database.findSecret { db with ledger := db.ledger ++ [row] }
        secret.deploymentSecretId = db.findSecret secret.deploymentSecretId := rfl
    rw [applyWrites_cons_ok hledger]
    cases hs : db.findSecret secret.deploymentSecretId with
    | some other =>
      have hsecret : applyWrite { db with ledger := db.ledger ++ [row] } (.insertSecret secret) =
          .error uniqueFailed := by
        simp [applyWrite, hsame, hs]
      rw [applyWrites_cons_error hsecret]
      simp [fresh, hl, hs]
    | none =>
      have hsecret : applyWrite { db with ledger := db.ledger ++ [row] } (.insertSecret secret) =
          .ok ((Plan.add row secret).apply db) := by
        simp [applyWrite, hsame, hs, apply]
      rw [applyWrites_cons_ok hsecret]
      simp [fresh, hl, hs]

theorem applyWrites_writes {db : Database F} {plan : Plan} (h : plan.Proper) :
    applyWrites db plan.writes =
      if plan.fresh db then .ok (plan.apply db) else .error uniqueFailed := by
  cases plan with
  | add row secret => exact applyWrites_insert h []
  | replace prior row secret =>
    rw [writes, applyWrites_insert h]
    have hfresh : (Plan.add row secret).fresh db = (Plan.replace prior row secret).fresh db := rfl
    rw [hfresh]
    by_cases hf : (Plan.replace prior row secret).fresh db = true
    · -- the new row is there when the prior one is pointed at it
      have hnew : ((Plan.add row secret).apply db).lacks (some row.licenseId) = false := by
        have hl : row.licenseId ∉ db.ledger.map IssuanceLedger.licenseId := by
          apply Table.find_eq_none_iff.mp
          have := (Bool.and_eq_true _ _ ▸ hf).1
          exact Option.isNone_iff_eq_none.mp this
        simp only [Database.lacks, Database.findLicense, apply]
        rw [Table.find_append_fresh hl, if_pos rfl]
        rfl
      rw [if_pos hf, if_pos hf]
      simp only [applyWrites, applyWrite, hnew]
      rfl
    · rw [if_neg hf, if_neg hf]
  | flag licenseId at_ reason => rfl

end Plan

inductive LedgerCall [Cryptography] where
  | issue (ambient : Ambient) (priv : Option Cryptography.PrivateKey) (req : IssuanceRequest)
  | renew (ambient : Ambient) (priv : Option Cryptography.PrivateKey) (priorLicenseId : Str)
      (req : IssuanceRequest)
  | revoke (now : Instant) (licenseId : Str) (reason : Option Str)

/-- The secret's row of a drafted license. -/
def IssuanceResult.secretRow {F : Type} (result : IssuanceResult F) : DeploymentSecret :=
  persistCredential result.credential result.ledgerRow.customerId (some result.ledgerRow.licenseId)

namespace LedgerCall
variable (F : Type) [PyFloat F] [Cryptography] [Unicode]

/-- The code of a call, without what it answers. -/
def session : LedgerCall → Session F Unit
  | .issue ambient priv req => Session.quiet (Fleet.issue F ambient priv req)
  | .renew ambient priv priorLicenseId req =>
    Session.quiet (Fleet.renew F ambient priv priorLicenseId req)
  | .revoke now licenseId reason => Session.quiet (Fleet.revoke F now licenseId reason)

/-- The row a call reads first. -/
def target : LedgerCall → Option Str
  | .issue _ _ _ => none
  | .renew _ _ priorLicenseId _ => some priorLicenseId
  | .revoke _ licenseId _ => some licenseId

/-- What a call decides on the row it read. -/
def prepare (read : Option IssuanceLedger) : LedgerCall → Except PyError Plan
  | .issue ambient priv req =>
    match buildSpec req ambient.now with
    | .error e => .error e
    | .ok spec => (draft F ambient priv spec req.delivery).map fun result =>
        .add result.ledgerRow result.secretRow
  | .renew ambient priv priorLicenseId req =>
    match read with
    | none => .error (valueError (lit "unknown prior license_id: " ++ strRepr priorLicenseId))
    | some prior => (prepareRenewal F ambient priv priorLicenseId req prior).map fun result =>
        .replace priorLicenseId result.ledgerRow result.secretRow
  | .revoke now licenseId reason =>
    match read with
    | none => .error (valueError (lit "unknown license_id: " ++ strRepr licenseId))
    | some row => (prepareRevocation licenseId row).map fun _ =>
        .flag licenseId now (changed row.revokedReason reason)

/-- A decision carried out. -/
def carryOut (decision : Except PyError Plan) : Session F Unit :=
  .attempt decision fun plan => Session.commitThen plan.writes ()

variable {F}

theorem session_issue (ambient : Ambient) (priv : Option Cryptography.PrivateKey)
    (req : IssuanceRequest) : session F (.issue ambient priv req) =
      carryOut F (prepare F none (.issue ambient priv req)) := by
  simp only [session, Fleet.issue, prepare]
  cases buildSpec req ambient.now with
  | error e => rfl
  | ok spec =>
    simp only [Proc.attempt_ok, Session.quiet_attempt, Session.quiet_commitThen]
    cases draft F ambient priv spec req.delivery <;> rfl

theorem session_of_target {c : LedgerCall} {licenseId : Str} (h : c.target = some licenseId) :
    session F c = Session.withLedger licenseId fun read => carryOut F (prepare F read c) := by
  cases c with
  | issue ambient priv req => cases h
  | renew ambient priv priorLicenseId req =>
    cases h
    rw [session, Fleet.renew, Session.quiet_withLedger]
    congr 1
    funext read
    cases read with
    | none => rfl
    | some prior =>
      simp only [Session.quiet_attempt, Session.quiet_commitThen, prepare]
      cases prepareRenewal F ambient priv licenseId req prior <;> rfl
  | revoke now licenseId reason =>
    cases h
    rw [session, Fleet.revoke, Session.quiet_withLedger]
    congr 1
    funext read
    cases read with
    | none => rfl
    | some row =>
      simp only [Session.quiet_attempt, Session.quiet_commitThen, prepare]
      cases prepareRevocation licenseId row <;> rfl

end LedgerCall

theorem exists_of_map_ok {A B : Type} {x : Except PyError A} {f : A → B} {b : B} (h : x.map f = .ok b) :
    ∃ a, x = .ok a ∧ f a = b := by
  cases x with
  | error e => cases h
  | ok a => exact ⟨a, rfl, Except.ok.inj h⟩

/-- A license that was just drafted, and its credential. -/
structure Drafted (row : IssuanceLedger) (secret : DeploymentSecret) : Prop where
  head : row.supersededBy = none
  unrevoked : row.revokedAt = none
  credential : row.deploymentSecretId = some secret.deploymentSecretId
  customer : secret.customerId = row.customerId
  license : secret.licenseId = some row.licenseId

section Admission
variable {F : Type} [PyFloat F] [Cryptography] [Unicode]

theorem drafted_of_draft {ambient : Ambient} {priv : Option Cryptography.PrivateKey} {spec : Spec}
    {delivery : Option Str} {result : IssuanceResult F}
    (h : draft F ambient priv spec delivery = .ok result) :
    Drafted result.ledgerRow result.secretRow := by
  obtain ⟨_, _, _, _, -, -, -, -, rfl⟩ := draft_ok h
  exact ⟨rfl, rfl, rfl, rfl, rfl⟩

/-- Which plan a call can have, and what it read for it. -/
inductive Admitted : LedgerCall → Option IssuanceLedger → Plan → Prop where
  | issue {ambient : Ambient} {priv : Option Cryptography.PrivateKey} {req : IssuanceRequest}
      {read : Option IssuanceLedger} {row : IssuanceLedger} {secret : DeploymentSecret}
      (drafted : Drafted row secret) :
      Admitted (.issue ambient priv req) read (.add row secret)
  | renew {ambient : Ambient} {priv : Option Cryptography.PrivateKey} {priorLicenseId : Str}
      {req : IssuanceRequest} {prior row : IssuanceLedger} {secret : DeploymentSecret}
      (head : prior.supersededBy = none) (drafted : Drafted row secret) :
      Admitted (.renew ambient priv priorLicenseId req) (some prior)
        (.replace priorLicenseId row secret)
  | revoke {now : Instant} {licenseId : Str} {reason : Option Str} {row : IssuanceLedger}
      (head : row.supersededBy = none) (unrevoked : row.revokedAt = none) :
      Admitted (.revoke now licenseId reason) (some row)
        (.flag licenseId now (changed row.revokedReason reason))

theorem prepare_admitted {c : LedgerCall} {read : Option IssuanceLedger} {plan : Plan}
    (h : c.prepare F read = .ok plan) : Admitted c read plan := by
  cases c with
  | issue ambient priv req =>
    simp only [LedgerCall.prepare] at h
    split at h
    · cases h
    · rename_i spec _
      cases hd : draft F ambient priv spec req.delivery with
      | error e => rw [hd] at h; cases h
      | ok result =>
        rw [hd] at h
        cases h
        exact .issue (drafted_of_draft hd)
  | renew ambient priv priorLicenseId req =>
    cases read with
    | none => cases h
    | some prior =>
      simp only [LedgerCall.prepare, prepareRenewal] at h
      split at h
      · cases h
      · rename_i hhead
        split at h
        · cases h
        · rename_i spec _
          split at h
          · cases h
          · cases hd : draft F ambient priv spec req.delivery with
            | error e => rw [hd] at h; cases h
            | ok result =>
              rw [hd] at h
              cases h
              exact .renew hhead (drafted_of_draft hd)
  | revoke now licenseId reason =>
    cases read with
    | none => cases h
    | some row =>
      simp only [LedgerCall.prepare, prepareRevocation] at h
      split at h
      · cases h
      · rename_i hhead
        split at h
        · cases h
        · rename_i hrev
          cases h
          exact .revoke hhead hrev

omit [Unicode] in
theorem Admitted.proper {c : LedgerCall} {read : Option IssuanceLedger} {plan : Plan}
    (h : Admitted c read plan) : plan.Proper := by
  cases h with
  | issue drafted => exact drafted.head
  | renew _ drafted => exact drafted.head
  | revoke => trivial

end Admission

namespace LedgerCall
variable (F : Type) [PyFloat F] [Cryptography] [Unicode]

/-- The row a call finds. -/
def reads (db : Database F) (c : LedgerCall) : Option IssuanceLedger := c.target.bind db.findLicense

variable {F}

theorem exec_carryOut {c : LedgerCall} {read : Option IssuanceLedger} (db : Database F) :
    Session.exec (carryOut F (c.prepare F read)) db =
      match c.prepare F read with
      | .error e => (db, .error e)
      | .ok plan =>
        if plan.fresh db then (plan.apply db, .ok ()) else (db, .error uniqueFailed) := by
  cases h : c.prepare F read with
  | error e => rfl
  | ok plan =>
    simp only [carryOut, Proc.attempt_ok, Session.exec_commitThen,
      Plan.applyWrites_writes (prepare_admitted h).proper]
    by_cases hf : plan.fresh db = true
    · simp only [if_pos hf]
    · simp only [if_neg hf]

/-- A whole call with nothing in between. -/
theorem exec_session (c : LedgerCall) (db : Database F) :
    Session.exec (c.session F) db =
      match c.prepare F (c.reads F db) with
      | .error e => (db, .error e)
      | .ok plan =>
        if plan.fresh db then (plan.apply db, .ok ()) else (db, .error uniqueFailed) := by
  cases ht : c.target with
  | none =>
    cases c with
    | issue ambient priv req => rw [session_issue, exec_carryOut]; rfl
    | renew ambient priv priorLicenseId req => cases ht
    | revoke now licenseId reason => cases ht
  | some licenseId =>
    rw [session_of_target ht, Session.exec_withLedger, exec_carryOut, reads, ht, Option.bind_some]

end LedgerCall

end IsaCloud.Fleet
