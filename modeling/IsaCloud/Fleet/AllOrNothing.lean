import IsaCloud.Fleet.Calls
import IsaCloud.Fleet.IssuedLicense

/-!
# A license and its rows, or nothing

`issue_license` and `renew_license` from the PEM text of the key to the answer,
on a server that may refuse any read or commit. Whatever fails on the way, the
tables are as they were; an answer means that exactly the two rows of the license
came in, and that the ledger row says what was signed.
-/

namespace IsaCloud.Fleet

set_option autoImplicit false

open Support Support.Text Support.Python Support.DateTime Support.Encoding Support.Json License

section Matching
variable {F : Type}

/-- A ledger row says what a license body says; timestamps as `_parse_ts` reads them. -/
structure Matches (license : Members F) (row : IssuanceLedger) : Prop where
  licenseId : license.get (lit "license_id") = some (.str row.licenseId)
  customerId : license.get (lit "customer_id") = some (.str row.customerId)
  edition : license.get (lit "edition") = some (.str row.edition)
  entitledModules : license.get (lit "entitled_modules") = some (.arr (row.entitledModules.map .str))
  quotaTier : license.get (lit "quota_tier") = row.quotaTier.map .str
  notBefore : ∃ text, license.get (lit "not_before") = some (.str text) ∧
    specInstant text = .ok row.notBefore
  expiresAt : ∃ text : Option Str, license.get (lit "expires_at") = text.map .str ∧
    text.mapM specInstant = .ok row.expiresAt

theorem get_licenseId (spec : Spec) :
    (spec.toMembers : Members F).get (lit "license_id") = some (.str spec.licenseId) := rfl

variable [PyFloat F] [Cryptography]

/-- Signing leaves every field but the signature as it was. -/
theorem signed_get {spec : Spec} {key : Cryptography.PrivateKey} {license : Members F}
    (h : signLicense spec.toMembers key = .ok license) {k : Str} (hk : k ≠ signatureField) :
    license.get k = spec.toMembers.get k := by
  obtain ⟨bytes, -, rfl⟩ := signLicense_spec h
  rw [spec_without, get_append_ne hk]

variable [Unicode]

theorem matches_of_draft {ambient : Ambient} {priv : Option Cryptography.PrivateKey} {spec : Spec}
    {delivery : Option Str} {result : IssuanceResult F}
    (h : draft F ambient priv spec delivery = .ok result) :
    Matches result.license result.ledgerRow := by
  obtain ⟨key, signed, notBefore, expiresAt, -, hsigned, hnotBefore, hexpiresAt, rfl⟩ := draft_ok h
  obtain ⟨hcustomer, hedition, hstart, -, hmodules, -⟩ := get_fixed (F := F) spec
  obtain ⟨htier, hexpiry⟩ := get_optional (F := F) spec
  have hget : ∀ k : Str, k ≠ signatureField → signed.get k = spec.toMembers.get k :=
    fun k hk => signed_get hsigned hk
  exact {
    licenseId := (hget _ (by decide)).trans (get_licenseId spec)
    customerId := (hget _ (by decide)).trans hcustomer
    edition := (hget _ (by decide)).trans hedition
    entitledModules := (hget _ (by decide)).trans hmodules
    quotaTier := (hget _ (by decide)).trans htier
    notBefore := ⟨_, (hget _ (by decide)).trans hstart, hnotBefore⟩
    expiresAt := ⟨_, (hget _ (by decide)).trans hexpiry, hexpiresAt⟩ }

end Matching

/-- The rows with the prior license, if there is one, pointed at its successor. -/
def repointed (prior : Option Str) (successor : Str) (rows : List IssuanceLedger) :
    List IssuanceLedger :=
  match prior with
  | none => rows
  | some p => Table.update IssuanceLedger.licenseId rows p (·.supersede successor)

section Outcome
variable {F : Type}

/-- Exactly the rows of one license came in: its ledger row, the secret that row
names, and the pointer of the license it replaces. -/
structure Recorded (prior : Option Str) (db db' : Database F) (result : IssuanceResult F) : Prop where
  ledger : db'.ledger =
    repointed prior result.ledgerRow.licenseId db.ledger ++ [result.ledgerRow]
  secrets : db'.secrets = db.secrets ++ [result.secretRow]
  telemetry : db'.telemetry = db.telemetry
  credential : result.ledgerRow.deploymentSecretId = some result.secretRow.deploymentSecretId
  newLicense : db.findLicense result.ledgerRow.licenseId = none
  newSecret : db.findSecret result.secretRow.deploymentSecretId = none
  replaced : ∀ p ∈ prior, ∃ row, db.findLicense p = some row ∧ row.supersededBy = none

/-- How a call that issues a license ends. -/
def AllOrNothing (prior : Option Str) (db : Database F) :
    Database F × Except PyError (IssuanceResult F) → Prop
  | (db', .ok result) => Recorded prior db db' result ∧ Matches result.license result.ledgerRow
  | (db', .error _) => db' = db

section Steps
variable {prior : Option Str} {db : Database F}
  {refuse : Database F → DbCommand F → Option PyError}

theorem AllOrNothing.attempt {X : Type} {x : Except PyError X}
    {k : X → Session F (IssuanceResult F)}
    (h : ∀ a, x = .ok a → AllOrNothing prior db (Session.execUnder refuse (k a) db)) :
    AllOrNothing prior db (Session.execUnder refuse (.attempt x k) db) := by
  cases x with
  | error e => exact rfl
  | ok a => exact h a rfl

theorem AllOrNothing.withLedger {licenseId : Str}
    {k : Option IssuanceLedger → Session F (IssuanceResult F)}
    (h : AllOrNothing prior db (Session.execUnder refuse (k (db.findLicense licenseId)) db)) :
    AllOrNothing prior db (Session.execUnder refuse (Session.withLedger licenseId k) db) := by
  rw [Session.execUnder_withLedger]
  cases refuse db (.getLedger licenseId) with
  | some e => exact rfl
  | none => exact h

/-- A commit that is not refused goes through where the keys are free. -/
theorem AllOrNothing.commit (plan : Plan) {result : IssuanceResult F} (hplan : plan.Proper)
    (h : plan.fresh db = true → AllOrNothing prior db (plan.apply db, .ok result)) :
    AllOrNothing prior db
      (Session.execUnder refuse (Session.commitThen plan.writes result) db) := by
  rw [Session.commitThen, Session.execUnder_commitWith]
  cases refuse db (.commit plan.writes) with
  | some e => exact rfl
  | none =>
    simp only [Session.exec_commitWith, Plan.applyWrites_writes hplan]
    by_cases hf : plan.fresh db = true
    · rw [if_pos hf]
      exact h hf
    · rw [if_neg hf]
      exact rfl

end Steps

theorem fresh_iff {row : IssuanceLedger} {secret : DeploymentSecret} {db : Database F} :
    (Plan.add row secret).fresh db = true ↔
      db.findLicense row.licenseId = none ∧ db.findSecret secret.deploymentSecretId = none := by
  simp [Plan.fresh]

variable [PyFloat F] [Cryptography] [Unicode]

theorem issue_allOrNothing (refuse : Database F → DbCommand F → Option PyError) (ambient : Ambient)
    (priv : Option Cryptography.PrivateKey) (req : IssuanceRequest) (db : Database F) :
    AllOrNothing none db (Session.execUnder refuse (issue F ambient priv req) db) := by
  apply AllOrNothing.attempt
  intro spec _
  apply AllOrNothing.attempt
  intro result hdraft
  have hd := drafted_of_draft hdraft
  apply AllOrNothing.commit (.add result.ledgerRow result.secretRow) hd.head
  intro hfresh
  obtain ⟨hlicense, hsecret⟩ := fresh_iff.mp hfresh
  exact ⟨⟨rfl, rfl, rfl, hd.credential, hlicense, hsecret, fun p hp => nomatch hp⟩,
    matches_of_draft hdraft⟩

/-- What a renewal was drafted from. -/
theorem prepareRenewal_ok {ambient : Ambient} {priv : Option Cryptography.PrivateKey}
    {priorLicenseId : Str} {req : IssuanceRequest} {prior : IssuanceLedger} {result : IssuanceResult F}
    (h : prepareRenewal F ambient priv priorLicenseId req prior = .ok result) :
    prior.supersededBy = none ∧ ∃ spec, spec.licenseId ≠ priorLicenseId ∧
      draft F ambient priv spec req.delivery = .ok result := by
  simp only [prepareRenewal] at h
  split at h
  · cases h
  · rename_i hhead
    split at h
    · cases h
    · rename_i spec _
      split at h
      · cases h
      · rename_i hne
        exact ⟨hhead, spec, hne, h⟩

theorem renew_allOrNothing (refuse : Database F → DbCommand F → Option PyError) (ambient : Ambient)
    (priv : Option Cryptography.PrivateKey) (p : Str) (req : IssuanceRequest) (db : Database F) :
    AllOrNothing (some p) db (Session.execUnder refuse (renew F ambient priv p req) db) := by
  apply AllOrNothing.withLedger
  cases hfound : db.findLicense p with
  | none => exact rfl
  | some prior =>
    apply AllOrNothing.attempt
    intro result hprepared
    obtain ⟨hhead, spec, hne, hdraft⟩ := prepareRenewal_ok hprepared
    have hd := drafted_of_draft hdraft
    apply AllOrNothing.commit (.replace p result.ledgerRow result.secretRow) hd.head
    intro hfresh
    obtain ⟨hlicense, hsecret⟩ := fresh_iff.mp hfresh
    have hledger : Table.update IssuanceLedger.licenseId (db.ledger ++ [result.ledgerRow]) p
        (·.supersede result.ledgerRow.licenseId) =
        repointed (some p) result.ledgerRow.licenseId db.ledger ++ [result.ledgerRow] := by
      -- the new row is not the one it replaces
      have hother : result.ledgerRow.licenseId ≠ p := by
        obtain ⟨_, _, _, _, -, -, -, -, rfl⟩ := draft_ok hdraft
        exact hne
      rw [Table.update_append, Table.update_singleton_of_ne hother]
      rfl
    refine ⟨⟨hledger, rfl, rfl, hd.credential, hlicense, hsecret, ?_⟩, matches_of_draft hdraft⟩
    intro q hq
    obtain rfl := Option.mem_some_iff.mp hq
    exact ⟨prior, hfound, hhead⟩

variable (F) in
/-- A license for a customer, new or in place of a prior one. -/
def issuance (ambient : Ambient) (signingKeyPem : Option Bytes) (prior : Option Str)
    (req : IssuanceRequest) : Session F (IssuanceResult F) :=
  match prior with
  | none => issueLicense F ambient signingKeyPem req
  | some p => renewLicense F ambient signingKeyPem p req

/-- Issuing and renewing are all or nothing, whatever is refused on the way. -/
theorem issuance_all_or_nothing (refuse : Database F → DbCommand F → Option PyError)
    (ambient : Ambient) (signingKeyPem : Option Bytes) (prior : Option Str) (req : IssuanceRequest)
    (db : Database F) : AllOrNothing prior db
      (Session.execUnder refuse (issuance F ambient signingKeyPem prior req) db) := by
  cases prior with
  | none =>
    apply AllOrNothing.attempt
    intro priv _
    exact issue_allOrNothing refuse ambient priv req db
  | some p =>
    apply AllOrNothing.attempt
    intro priv _
    exact renew_allOrNothing refuse ambient priv p req db

end Outcome

end IsaCloud.Fleet
