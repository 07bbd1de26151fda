import IsaCloud.Fleet.Intake
import IsaCloud.Fleet.LedgerRuns
import IsaCloud.License.Config

/-!
# Who telemetry is attributed to

An envelope names a credential and its payload names a license. `issue` and
`renew` pin one credential to each license, so a record can be stored for a
license only by an envelope signed with the secret of that license.
-/

namespace IsaCloud.Fleet

set_option autoImplicit false

open Support Support.Text Support.Python Support.DateTime Support.Encoding License

section Verification
variable (F : Type) [PyFloat F] [Unicode] [Hmac]

/-- The signature of the envelope in `raw` is the HMAC of its canonical payload under `secret`. -/
def VerifiesUnder (nesting : Nat) (raw : Bytes) (secret : Str) : Prop :=
  ∃ envelope signed signature, parseEnvelopeOr422 F nesting raw = .ok envelope ∧
    canonicalPayloadBytes envelope.payload = .ok signed ∧ envelope.signature = .str signature ∧
    signTelemetry secret signed = .ok signature

end Verification

section Ingest
variable {F : Type} [PyFloat F] [Unicode] [Hmac] [IntakeLibraries F]

omit [Unicode] [IntakeLibraries F] in
theorem checkHmac_true {row : DeploymentSecret} {signed : Bytes} {signature : Json F}
    (hne : signature.truthy = true) (h : checkHmac row signed signature = .ok true) :
    ∃ text, signature = .str text ∧ signTelemetry row.secret signed = .ok text := by
  cases hsign : signTelemetry row.secret signed with
  | error e =>
    rw [checkHmac, hsign] at h
    cases h
  | ok expected =>
    rw [checkHmac_signed hne hsign] at h
    obtain ⟨s, rfl, -, -, heq⟩ | ⟨-, message, herror⟩ := compareDigest_cases expected signature
    · rw [heq] at h
      have hsame : expected = s := of_decide_eq_true (Except.ok.inj h)
      exact ⟨s, rfl, by rw [hsame]⟩
    · rw [herror] at h
      cases h

/-- A record stored by `_ingest`, and everything that was checked for it. -/
structure Stored (db : Database F) (nesting : Nat) (raw : Bytes) (record : TelemetryRecord F)
    (secret : DeploymentSecret) (row : IssuanceLedger) : Prop where
  verifies : VerifiesUnder F nesting raw secret.secret
  found : db.findLicense record.licenseId = some row
  credential : db.findSecret secret.deploymentSecretId = some secret
  recorded : record.deploymentSecretId = some secret.deploymentSecretId
  pinned : row.deploymentSecretId = none ∨
    row.deploymentSecretId = some secret.deploymentSecretId

omit [Unicode] in
/-- What `_verify_or_401` lets through. -/
theorem verifyOr401_cases {Out : Type} (db : Database F) (sid : Json F) (signed : Bytes)
    (signature : Json F) (k : Json F → Session F Out) :
    Session.Rejects db (verifyOr401 sid signed signature k) ∨
    ∃ secret text, secretKey sid = .ok secret.deploymentSecretId ∧
      db.findSecret secret.deploymentSecretId = some secret ∧ signature = .str text ∧
      signTelemetry secret.secret signed = .ok text ∧
      Session.exec (verifyOr401 sid signed signature k) db = Session.exec (k sid) db := by
  rw [verifyOr401]
  split
  · exact .inl ⟨_, rfl⟩
  rename_i htruthy
  have hsig : signature.truthy = true := by
    rw [not_or] at htruthy
    exact Bool.not_eq_false _ ▸ htruthy.2
  rw [verifyTelemetryHmac]
  rcases Session.exec_attempt (secretKey sid) _ db with hraises | ⟨key, hkey, heq⟩
  · exact .inl hraises
  rw [Session.Rejects, heq, Session.exec_withSecret]
  cases hsecret : db.findSecret key with
  | none => exact .inl ⟨_, rfl⟩
  | some secret =>
    obtain ⟨-, rfl⟩ := Table.mem_of_find hsecret
    rcases Session.exec_attempt (checkHmac secret signed signature) _ db with
      hraises | ⟨valid, hvalid, heq'⟩
    · exact .inl hraises
    · cases valid with
      | false => exact .inl ⟨_, by simp only [heq']; rfl⟩
      | true =>
        obtain ⟨text, htext, hsign⟩ := checkHmac_true hsig hvalid
        refine .inr ⟨secret, text, hkey, hsecret, htext, hsign, ?_⟩
        simp only [heq']
        rfl

/-- The call stores the record and nothing else, and says so. -/
def Accepts (db : Database F) (call : Session F Accepted) (record : TelemetryRecord F) : Prop :=
  Session.exec call db = ({ db with telemetry := db.telemetry ++ [record] },
    .ok ⟨record.id, record.licenseId, record.lastSeen, record.source⟩)

omit [PyFloat F] [Unicode] [Hmac] [IntakeLibraries F] in
theorem Accepts.stored {db : Database F} {call : Session F Accepted} {record : TelemetryRecord F}
    (h : Accepts db call record) :
    (Session.exec call db).1 = { db with telemetry := db.telemetry ++ [record] } := by
  rw [h]

omit [PyFloat F] [Hmac] in
/-- What `_persist` stores. -/
theorem persist_cases (db : Database F) (payload : TelemetryPayload F) (sid : Json F) (source : Str)
    (now : Instant) :
    Session.Rejects db (persist payload sid source now) ∨
    ∃ row key, secretKey sid = .ok key ∧ db.findLicense payload.licenseId = some row ∧
      (row.deploymentSecretId = none ∨ sid = .str key ∧ row.deploymentSecretId = some key) ∧
      Accepts db (persist payload sid source now) (recordOf db payload key source now) := by
  rw [persist, Session.Rejects]
  simp only [Accepts, Session.exec_withLedger]
  cases hrow : db.findLicense payload.licenseId with
  | none => exact .inl ⟨_, rfl⟩
  | some row =>
    simp only
    split
    · exact .inl ⟨_, rfl⟩
    rename_i hpins
    rcases Session.exec_attempt (secretKey sid) _ db with hraises | ⟨key, hkey, heq⟩
    · exact .inl hraises
    have hpinned : row.deploymentSecretId = none ∨ sid = .str key ∧ row.deploymentSecretId = some key := by
      cases hp : row.deploymentSecretId with
      | none => exact .inl rfl
      | some pinned =>
        right
        cases sid with
        | str s =>
          cases hkey
          exact ⟨rfl, by simpa [pinsOther, hp] using hpins⟩
        | null => simp [pinsOther, hp] at hpins
        | bool b => simp [pinsOther, hp] at hpins
        | int n => simp [pinsOther, hp] at hpins
        | float x => simp [pinsOther, hp] at hpins
        | arr xs => simp [pinsOther, hp] at hpins
        | obj m => simp [pinsOther, hp] at hpins
    have hfk : db.lacks (some payload.licenseId) = false := by
      rw [Database.lacks, hrow]
      rfl
    refine .inr ⟨row, key, hkey, rfl, hpinned, ?_⟩
    rw [heq, Session.exec_commitWith]
    simp only [applyWrites, applyWrite, recordOf, telemetryRow, hfk, Bool.false_eq_true, if_false,
      List.length_append, List.length_singleton]

/-- The envelope of a stored record names the license of the record, and the credential by its id. -/
def Opened (nesting : Nat) (raw : Bytes) (record : TelemetryRecord F) (secret : DeploymentSecret)
    (row : IssuanceLedger) : Prop :=
  ∃ (envelope : Envelope F) (payload : TelemetryPayload F), parseEnvelopeOr422 F nesting raw = .ok envelope ∧
    validatePayloadOr422 envelope.payload = .ok payload ∧ record.licenseId = payload.licenseId ∧
    (row.deploymentSecretId = none ∨ envelope.deploymentSecretId = .str secret.deploymentSecretId)

/-- `_ingest` raises and leaves the database as it was, or adds the record of its payload. -/
theorem ingest_traced (db : Database F) (nesting : Nat) (now : Instant) (raw : Bytes) (source : Str) :
    Session.Rejects db (ingest nesting now raw source) ∨
    ∃ (envelope : Envelope F) (payload : TelemetryPayload F) (secret : DeploymentSecret) (row : IssuanceLedger),
      parseEnvelopeOr422 F nesting raw = .ok envelope ∧ validatePayloadOr422 envelope.payload = .ok payload ∧
      Stored db nesting raw (recordOf db payload secret.deploymentSecretId source now) secret row ∧
      (row.deploymentSecretId = none ∨ envelope.deploymentSecretId = .str secret.deploymentSecretId) ∧
      Accepts db (ingest nesting now raw source) (recordOf db payload secret.deploymentSecretId source now) := by
  rw [ingest]
  rcases Session.exec_attempt (parseEnvelopeOr422 F nesting raw) _ db with
    hraises | ⟨envelope, hparse, heq⟩
  · exact .inl hraises
  rw [Session.Rejects]
  simp only [Accepts, heq]
  rcases Session.exec_attempt (canonicalPayloadBytes envelope.payload) _ db with
    hraises | ⟨signed, hsigned, heq⟩
  · exact .inl hraises
  simp only [heq]
  rcases verifyOr401_cases db envelope.deploymentSecretId signed envelope.signature _ with
    hraises | ⟨secret, text, hkey, hsecret, htext, hsign, heq⟩
  · exact .inl hraises
  simp only [heq]
  rcases Session.exec_attempt (validatePayloadOr422 envelope.payload) _ db with
    hraises | ⟨payload, hpayload, heq⟩
  · exact .inl hraises
  simp only [heq]
  rcases persist_cases db payload envelope.deploymentSecretId source now with
    hraises | ⟨row, key, hkey', hrow, hpinned, haccepts⟩
  · exact .inl hraises
  have hkeys : key = secret.deploymentSecretId := Except.ok.inj (hkey'.symm.trans hkey)
  subst hkeys
  refine .inr ⟨envelope, payload, secret, row, hparse, hpayload, ?_, hpinned.imp_right And.left, haccepts⟩
  exact ⟨⟨envelope, signed, text, hparse, hsigned, htext, hsign⟩, hrow, hsecret, rfl,
    hpinned.imp_right And.right⟩

theorem ingest_opened (db : Database F) (nesting : Nat) (now : Instant) (raw : Bytes) (source : Str) :
    Session.Rejects db (ingest nesting now raw source) ∨
    ∃ record secret row, Stored db nesting raw record secret row ∧ Opened nesting raw record secret row ∧
      Accepts db (ingest nesting now raw source) record := by
  rcases ingest_traced db nesting now raw source with
    hrejects | ⟨envelope, payload, secret, row, hparse, hpayload, hstored, hnamed, haccepts⟩
  · exact .inl hrejects
  · exact .inr ⟨_, secret, row, hstored, ⟨envelope, payload, hparse, hpayload, rfl, hnamed⟩, haccepts⟩

theorem ingest_cases (db : Database F) (nesting : Nat) (now : Instant) (raw : Bytes) (source : Str) :
    Session.Rejects db (ingest nesting now raw source) ∨
    ∃ record secret row, Stored db nesting raw record secret row ∧
      Accepts db (ingest nesting now raw source) record := by
  rcases ingest_opened db nesting now raw source with hrejects | ⟨record, secret, row, hstored, -, haccepts⟩
  · exact .inl hrejects
  · exact .inr ⟨record, secret, row, hstored, haccepts⟩

end Ingest

section Credentials
variable {F : Type}

/-- The credential a ledger row pins: its secret belongs to the same license. -/
structure Pins (db : Database F) (row : IssuanceLedger) (secret : DeploymentSecret) : Prop where
  credential : row.deploymentSecretId = some secret.deploymentSecretId
  found : db.findSecret secret.deploymentSecretId = some secret
  customer : secret.customerId = row.customerId
  license : secret.licenseId = some row.licenseId

/-- Every license has its credential. -/
def Credentialed (db : Database F) : Prop := ∀ row ∈ db.ledger, ∃ secret, Pins db row secret

/-- The columns of a row that say whose it is. -/
structure SameOwner (row row' : IssuanceLedger) : Prop where
  license : row'.licenseId = row.licenseId
  customer : row'.customerId = row.customerId
  credential : row'.deploymentSecretId = row.deploymentSecretId

/-- A row after a plan is one from before or the one it adds, with marks. -/
theorem Plan.mem_apply {db : Database F} {plan : Plan} {row' : IssuanceLedger}
    (h : row' ∈ (plan.apply db).ledger) :
    (∃ row ∈ db.ledger, SameOwner row row') ∨
    ∃ row secret, SameOwner row row' ∧ (plan = .add row secret ∨ ∃ p, plan = .replace p row secret) := by
  cases plan with
  | add row secret =>
    rcases List.mem_append.mp h with h | h
    · exact .inl ⟨row', h, rfl, rfl, rfl⟩
    · rw [List.mem_singleton.mp h]
      exact .inr ⟨row, secret, ⟨rfl, rfl, rfl⟩, .inl rfl⟩
  | replace p row secret =>
    have hold : ∃ old ∈ db.ledger ++ [row], SameOwner old row' := by
      rcases Table.mem_update.mp h with ⟨old, hold, -, rfl⟩ | ⟨hold, -⟩
      · exact ⟨old, hold, rfl, rfl, rfl⟩
      · exact ⟨row', hold, rfl, rfl, rfl⟩
    obtain ⟨old, hold, hsame⟩ := hold
    rcases List.mem_append.mp hold with hold | hold
    · exact .inl ⟨old, hold, hsame⟩
    · rw [List.mem_singleton.mp hold] at hsame
      exact .inr ⟨row, secret, hsame, .inr ⟨p, rfl⟩⟩
  | flag licenseId at_ reason =>
    rcases Table.mem_update.mp h with ⟨old, hold, -, rfl⟩ | ⟨hold, -⟩
    · exact .inl ⟨old, hold, rfl, rfl, rfl⟩
    · exact .inl ⟨row', hold, rfl, rfl, rfl⟩

/-- Credentials stay as they are. -/
theorem Plan.findSecret_apply {db : Database F} {plan : Plan} (hf : plan.fresh db = true)
    {id : Str} {secret : DeploymentSecret} (h : db.findSecret id = some secret) :
    (plan.apply db).findSecret id = some secret := by
  have hadd : ∀ {row : IssuanceLedger} {added : DeploymentSecret},
      ((db.findLicense row.licenseId).isNone &&
        (db.findSecret added.deploymentSecretId).isNone) = true →
      Table.find DeploymentSecret.deploymentSecretId (db.secrets ++ [added]) id = some secret := by
    intro row added hfree
    rw [Bool.and_eq_true, Option.isNone_iff_eq_none, Option.isNone_iff_eq_none] at hfree
    have hnone := hfree.2
    rw [Table.find_append_fresh (Table.find_eq_none_iff.mp hnone)]
    split
    · rename_i heq
      rw [← heq, hnone] at h
      cases h
    · exact h
  cases plan with
  | add row added => exact hadd hf
  | replace p row added => exact hadd hf
  | flag => exact h

/-- The credential a plan adds is found after it. -/
theorem findSecret_added {db : Database F} {row : IssuanceLedger} {secret : DeploymentSecret}
    (hf : (Plan.add row secret).fresh db = true) :
    Table.find DeploymentSecret.deploymentSecretId (db.secrets ++ [secret])
      secret.deploymentSecretId = some secret := by
  rw [Plan.fresh, Bool.and_eq_true] at hf
  have hnone := Option.isNone_iff_eq_none.mp hf.2
  rw [Table.find_append_fresh (Table.find_eq_none_iff.mp hnone), if_pos rfl]

end Credentials

section Runs
variable {F : Type} [PyFloat F] [Cryptography] [Unicode]

theorem step_credentialed {db : Database F} (h : Credentialed db) (c : LedgerCall) :
    Credentialed (step db c) := by
  rcases step_cases db c with heq | ⟨plan, hprep, hf, heq⟩
  · rw [heq]
    exact h
  rw [heq]
  intro row' hrow'
  rcases Plan.mem_apply hrow' with ⟨row, hrow, hsame⟩ | ⟨row, secret, hsame, hplan⟩
  · obtain ⟨secret, hpins⟩ := h row hrow
    exact ⟨secret, hsame.credential.trans hpins.credential, Plan.findSecret_apply hf hpins.found,
      hpins.customer.trans hsame.customer.symm, by rw [hpins.license, hsame.license]⟩
  · have hdrafted : Drafted row secret := by
      cases found_of_prepare hprep with
      | issue drafted =>
        rcases hplan with hplan | ⟨p, hplan⟩
        · cases hplan
          exact drafted
        · cases hplan
      | renew _ _ drafted =>
        rcases hplan with hplan | ⟨p, hplan⟩
        · cases hplan
        · cases hplan
          exact drafted
      | revoke =>
        rcases hplan with hplan | ⟨p, hplan⟩ <;> cases hplan
    have hfound : (plan.apply db).findSecret secret.deploymentSecretId = some secret := by
      rcases hplan with rfl | ⟨p, rfl⟩
      · exact findSecret_added hf
      · exact findSecret_added hf
    exact ⟨secret, hsame.credential.trans hdrafted.credential, hfound,
      hdrafted.customer.trans hsame.customer.symm, by rw [hdrafted.license, hsame.license]⟩

/-- A license keeps its credential. -/
theorem pins_step {db : Database F} (c : LedgerCall) {licenseId : Str} {row : IssuanceLedger}
    {secret : DeploymentSecret} (hrow : db.findLicense licenseId = some row)
    (hpins : Pins db row secret) :
    ∃ row', (step db c).findLicense licenseId = some row' ∧ SameOwner row row' ∧
      Pins (step db c) row' secret := by
  obtain ⟨row', hrow', hev⟩ := step_evolves c hrow
  have hsame : SameOwner row row' := by
    rw [hev.fixed]
    exact ⟨rfl, rfl, rfl⟩
  have hfound : (step db c).findSecret secret.deploymentSecretId = some secret := by
    rcases step_cases db c with heq | ⟨plan, -, hf, heq⟩
    · rw [heq]
      exact hpins.found
    · rw [heq]
      exact Plan.findSecret_apply hf hpins.found
  exact ⟨row', hrow', hsame, hsame.credential.trans hpins.credential, hfound,
    hpins.customer.trans hsame.customer.symm, by rw [hpins.license, hsame.license]⟩

theorem step_telemetry (db : Database F) (c : LedgerCall) : (step db c).telemetry = db.telemetry := by
  rcases step_cases db c with heq | ⟨plan, -, -, heq⟩
  · rw [heq]
  · rw [heq]
    cases plan <;> rfl

variable [Hmac] [IntakeLibraries F]

/-- The calls of operators and of deployments. -/
inductive FleetCall [Cryptography] where
  | ledger (c : LedgerCall)
  | ingest (nesting : Nat) (now : Instant) (raw : Bytes) (source : Str)

def fleetStep (db : Database F) : FleetCall → Database F
  | .ledger c => step db c
  | .ingest nesting now raw source => (Session.exec (ingest nesting now raw source) db).1

variable (F) in
def fleetAfter (history : List FleetCall) : Database F := run fleetStep Database.empty history

theorem fleetAfter_concat (history : List FleetCall) (c : FleetCall) :
    fleetAfter F (history ++ [c]) = fleetStep (fleetAfter F history) c :=
  run_append fleetStep Database.empty history [c]

theorem fleetStep_credentialed {db : Database F} (h : Credentialed db) (c : FleetCall) :
    Credentialed (fleetStep db c) := by
  cases c with
  | ledger c => exact step_credentialed h c
  | ingest nesting now raw source =>
    rcases ingest_cases db nesting now raw source with hrejects | ⟨record, secret, row, -, haccepts⟩
    · rw [fleetStep, hrejects.unchanged]
      exact h
    · rw [fleetStep, haccepts.stored]
      intro row hrow
      obtain ⟨secret, hpins⟩ := h row hrow
      exact ⟨secret, hpins.credential, hpins.found, hpins.customer, hpins.license⟩

theorem fleetAfter_credentialed (history : List FleetCall) : Credentialed (fleetAfter F history) :=
  run_invariant Credentialed (fun _ c h => fleetStep_credentialed h c) history
    (fun _ hrow => nomatch hrow)

omit [Cryptography] [IntakeLibraries F] in
/-- What is stored is stored under the credential of its license. -/
theorem Stored.pins {db : Database F} (h : Credentialed db) {nesting : Nat} {raw : Bytes}
    {record : TelemetryRecord F} {secret : DeploymentSecret} {row : IssuanceLedger}
    (hs : Stored db nesting raw record secret row) : Pins db row secret := by
  obtain ⟨secret', hpins⟩ := h row (Table.mem_of_find hs.found).1
  have hid : secret'.deploymentSecretId = secret.deploymentSecretId := by
    rcases hs.pinned with hnone | hsome
    · rw [hpins.credential] at hnone
      cases hnone
    · rw [hpins.credential] at hsome
      exact Option.some.inj hsome
  have hsame : secret' = secret := by
    have hfound := hpins.found
    rw [hid, hs.credential] at hfound
    exact (Option.some.inj hfound).symm
  exact hsame ▸ hpins

/-- The ingest step that stored a record. -/
def StoredBy (history : List FleetCall) (record : TelemetryRecord F) (secret : Str) : Prop :=
  ∃ before nesting now raw source rest, history = before ++ .ingest nesting now raw source :: rest ∧
    (fleetAfter F (before ++ [.ingest nesting now raw source])).telemetry =
      (fleetAfter F before).telemetry ++ [record] ∧
    VerifiesUnder F nesting raw secret

theorem StoredBy.concat {history : List FleetCall} {record : TelemetryRecord F} {secret : Str}
    (h : StoredBy history record secret) (c : FleetCall) :
    StoredBy (history ++ [c]) record secret := by
  obtain ⟨before, nesting, now, raw, source, rest, rfl, hadds, hverifies⟩ := h
  refine ⟨before, nesting, now, raw, source, rest ++ [c], ?_, hadds, hverifies⟩
  rw [List.append_assoc]
  rfl

/-- Every record has its license, the credential of the license, and an envelope
signed with it. -/
theorem record_origin (history : List FleetCall) {record : TelemetryRecord F}
    (hr : record ∈ (fleetAfter F history).telemetry) :
    ∃ row secret, (fleetAfter F history).findLicense record.licenseId = some row ∧
      Pins (fleetAfter F history) row secret ∧
      record.deploymentSecretId = some secret.deploymentSecretId ∧
      StoredBy history record secret.secret := by
  induction history using List.reverseRecOn with
  | nil => cases hr
  | append_singleton history c ih =>
    rw [fleetAfter_concat] at hr ⊢
    cases c with
    | ledger c =>
      rw [fleetStep, step_telemetry] at hr
      obtain ⟨row, secret, hrow, hpins, hid, hby⟩ := ih hr
      obtain ⟨row', hrow', -, hpins'⟩ := pins_step c hrow hpins
      exact ⟨row', secret, hrow', hpins', hid, hby.concat _⟩
    | ingest nesting now raw source =>
      rcases ingest_cases (fleetAfter F history) nesting now raw source with
        hrejects | ⟨stored, secret, row, hstored, haccepts⟩
      · rw [fleetStep, hrejects.unchanged] at hr ⊢
        obtain ⟨row, secret, hrow, hpins, hid, hby⟩ := ih hr
        exact ⟨row, secret, hrow, hpins, hid, hby.concat _⟩
      · rw [fleetStep, haccepts.stored] at hr ⊢
        rcases List.mem_append.mp hr with hr | hr
        · obtain ⟨row, secret, hrow, hpins, hid, hby⟩ := ih hr
          exact ⟨row, secret, hrow, ⟨hpins.credential, hpins.found, hpins.customer, hpins.license⟩, hid,
            hby.concat _⟩
        · rw [List.mem_singleton.mp hr]
          have hpins := hstored.pins (fleetAfter_credentialed history)
          refine ⟨row, secret, hstored.found,
            ⟨hpins.credential, hpins.found, hpins.customer, hpins.license⟩, hstored.recorded, ?_⟩
          refine ⟨history, nesting, now, raw, source, [], rfl, ?_, hstored.verifies⟩
          rw [fleetAfter_concat, fleetStep, haccepts.stored]

theorem telemetry_attributed (history : List FleetCall) :
    (∀ record ∈ (fleetAfter F history).telemetry,
      ∃ row ∈ (fleetAfter F history).ledger, row.licenseId = record.licenseId ∧
        record.deploymentSecretId = row.deploymentSecretId ∧
        ∃ secret ∈ (fleetAfter F history).secrets,
          row.deploymentSecretId = some secret.deploymentSecretId ∧
          secret.customerId = row.customerId ∧ secret.licenseId = some row.licenseId ∧
          StoredBy history record secret.secret) ∧
    (∀ known ∈ (fleetAfter F history).secrets, ∀ nesting now raw source,
      (∀ other ∈ (fleetAfter F history).secrets, other ≠ known →
        ¬ VerifiesUnder F nesting raw other.secret) →
      ∀ record ∈ (fleetStep (fleetAfter F history) (.ingest nesting now raw source)).telemetry,
        record ∈ (fleetAfter F history).telemetry ∨ known.licenseId = some record.licenseId) := by
  constructor
  · intro record hr
    obtain ⟨row, secret, hrow, hpins, hid, hby⟩ := record_origin history hr
    obtain ⟨hmem, hlicense⟩ := Table.mem_of_find hrow
    exact ⟨row, hmem, hlicense, hid.trans hpins.credential.symm, secret,
      (Table.mem_of_find hpins.found).1, hpins.credential, hpins.customer, hpins.license, hby⟩
  · intro known _ nesting now raw source hforge record hr
    rcases ingest_cases (fleetAfter F history) nesting now raw source with
      hrejects | ⟨stored, secret, row, hstored, haccepts⟩
    · rw [fleetStep, hrejects.unchanged] at hr
      exact .inl hr
    · rw [fleetStep, haccepts.stored] at hr
      rcases List.mem_append.mp hr with hr | hr
      · exact .inl hr
      · right
        have hknown : secret = known := by
          by_contra hne
          exact hforge secret (Table.mem_of_find hstored.credential).1 hne hstored.verifies
        have hpins := hstored.pins (fleetAfter_credentialed history)
        rw [← hknown, hpins.license, (Table.mem_of_find hstored.found).2, List.mem_singleton.mp hr]

end Runs

section Acme
attribute [local instance] asciiUnicode mirrorCryptography

def acmePayload : Members Unit :=
  [(lit "license_id", .str (lit "acme-1")), (lit "last_seen", .str (lit "2026-01-02T00:00:00Z"))]

/-- HMAC-SHA256 of the one message signed here. -/
@[reducible] def acmeHmac : Hmac where
  hexdigest key message :=
    if key = (lit "s").flatMap encodePoint ∧
        message = (Json.canonical (.obj acmePayload)).flatMap encodePoint then
      lit "0b16167202c605c084391480e9a399cd0bf30f6e5f57f766e1a3bee3ff5646ba"
    else []

/-- The schema on payloads of a license and a timestamp. -/
@[reducible] def acmeLibraries : IntakeLibraries Unit where
  modelValidate data :=
    match data.get (lit "license_id"), data.get (lit "last_seen") with
    | some (.str licenseId), some (.str lastSeen) =>
      match parseTs (some (.text lastSeen)) with
      | .ok (some d) => .ok ⟨licenseId, d, none, [], [], [], false⟩
      | _ => .error (lit "last_seen")
    | _, _ => .error (lit "Field required")
  ident _ := .error ⟨.typeError, lit "unsupported type"⟩

attribute [local instance] acmeHmac acmeLibraries

def acmeEnvelope : Bytes :=
  writeJson (.obj [(lit "payload", .obj acmePayload),
    (lit "deployment_secret_id", .str (lit "dep-acme-0a")),
    (lit "signature",
      .str (lit "0b16167202c605c084391480e9a399cd0bf30f6e5f57f766e1a3bee3ff5646ba"))] : Json Unit)

def acmeReports : List FleetCall :=
  [.ledger acmeIssue, .ingest 1000 newYear acmeEnvelope (lit "realtime")]

/-- One deployment reports, and its record is attributed to its license. -/
theorem acme_report_attributed :
    (fleetAfter Unit acmeReports).telemetry.length = 1 ∧
    (∀ record ∈ (fleetAfter Unit acmeReports).telemetry,
      ∃ row ∈ (fleetAfter Unit acmeReports).ledger, row.licenseId = record.licenseId) ∧
    (∀ known ∈ (fleetAfter Unit [.ledger acmeIssue]).secrets,
      ∀ record ∈ (fleetStep (fleetAfter Unit [.ledger acmeIssue])
        (.ingest 1000 newYear acmeEnvelope (lit "realtime"))).telemetry,
      record ∈ (fleetAfter Unit [.ledger acmeIssue]).telemetry ∨
        known.licenseId = some record.licenseId) := by
  refine ⟨by decide +kernel, ?_, ?_⟩
  · intro record hr
    obtain ⟨row, hrow, hlicense, -⟩ := (telemetry_attributed acmeReports).1 record hr
    exact ⟨row, hrow, hlicense⟩
  · intro known hknown
    have hone : ∀ a ∈ (fleetAfter Unit [.ledger acmeIssue]).secrets,
        ∀ b ∈ (fleetAfter Unit [.ledger acmeIssue]).secrets, a = b := by
      decide +kernel
    exact (telemetry_attributed [.ledger acmeIssue]).2 known hknown 1000 newYear acmeEnvelope
      (lit "realtime") (fun other hother hne => absurd (hone other hother known hknown) hne)

end Acme

end IsaCloud.Fleet
