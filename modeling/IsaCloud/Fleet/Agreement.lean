import IsaCloud.Fleet.Attribution
import IsaCloud.Fleet.Intake
import IsaCloud.Support.JsonRendering
import IsaCloud.Support.Pydantic

/-!
# Producer and intake

The producer signs the canonical text of its payload; intake signs the canonical
text of what it parsed. The two texts are equal for every rendering of the same
envelope, so what the producer signed is stored whichever way it is sent, and a
signature is worth nothing for any other payload.
-/

/-! ## The telemetry schema

`TelemetryPayload` field by field: what each field reads, its default, and that
nothing else is let in. An accepted payload is shallow and well formed, and is
accepted in every order of its members.
-/

namespace IsaCloud.Fleet

set_option autoImplicit false

open Support Support.Text Support.Python Support.IsoTime Support.Json Support.Pydantic

section Schema
variable {F : Type} [Scalars F]

def telemetryFields : List String :=
  ["license_id", "last_seen", "active_edition", "active_modules", "module_usage", "showback_totals",
    "over_license"]

def TelemetryPayload.ofMembers (data : Members F) : Option (TelemetryPayload F) := do
  let licenseId ← required data "license_id" text
  let lastSeen ← required data "last_seen" Scalars.datetime
  let activeEdition ← fieldOr data "active_edition" none (Pydantic.optional text)
  let activeModules ← fieldOr data "active_modules" [] (listOf text)
  let moduleUsage ← fieldOr data "module_usage" [] (dictOf Scalars.int)
  let showbackTotals ← fieldOr data "showback_totals" [] (dictOf Scalars.float)
  let overLicense ← fieldOr data "over_license" false Scalars.bool
  if licenseId ≠ [] ∧ onlyFields data telemetryFields = true then
    some ⟨licenseId, lastSeen, activeEdition, activeModules, moduleUsage, showbackTotals, overLicense⟩
  else none

/-- Each field of an accepted payload, and what it was read with. -/
structure Validated (data : Members F) (p : TelemetryPayload F) : Prop where
  licenseId : required data "license_id" text = some p.licenseId
  lastSeen : required data "last_seen" Scalars.datetime = some p.lastSeen
  activeEdition : fieldOr data "active_edition" none (Pydantic.optional text) = some p.activeEdition
  activeModules : fieldOr data "active_modules" [] (listOf text) = some p.activeModules
  moduleUsage : fieldOr data "module_usage" [] (dictOf Scalars.int) = some p.moduleUsage
  showbackTotals : fieldOr data "showback_totals" [] (dictOf Scalars.float) = some p.showbackTotals
  overLicense : fieldOr data "over_license" false Scalars.bool = some p.overLicense
  named : p.licenseId ≠ []
  only : onlyFields data telemetryFields = true

theorem ofMembers_iff {data : Members F} {p : TelemetryPayload F} :
    TelemetryPayload.ofMembers data = some p ↔ Validated data p := by
  constructor
  · intro h
    obtain ⟨licenseId, h1, h⟩ := Option.bind_eq_some_iff.mp h
    obtain ⟨lastSeen, h2, h⟩ := Option.bind_eq_some_iff.mp h
    obtain ⟨activeEdition, h3, h⟩ := Option.bind_eq_some_iff.mp h
    obtain ⟨activeModules, h4, h⟩ := Option.bind_eq_some_iff.mp h
    obtain ⟨moduleUsage, h5, h⟩ := Option.bind_eq_some_iff.mp h
    obtain ⟨showbackTotals, h6, h⟩ := Option.bind_eq_some_iff.mp h
    obtain ⟨overLicense, h7, h⟩ := Option.bind_eq_some_iff.mp h
    split at h
    · rename_i hchecks
      obtain rfl := Option.some.inj h
      exact ⟨h1, h2, h3, h4, h5, h6, h7, hchecks.1, hchecks.2⟩
    · cases h
  · intro h
    simp [TelemetryPayload.ofMembers, h.licenseId, h.lastSeen, h.activeEdition, h.activeModules, h.moduleUsage,
      h.showbackTotals, h.overLicense, h.named, h.only]

variable [LawfulScalars F] {data data' : Members F} {p : TelemetryPayload F}

theorem Validated.bounded (h : Validated data p) (hd : Dicts (.obj data)) : Bounded 2 (.obj data) := by
  have htext : Within 0 (text : Reader F Str) := within_of_scalar text_scalar
  have hint : Within 0 (Scalars.int (F := F)) := within_of_scalar LawfulScalars.int_scalar
  have hfloat : Within 0 (Scalars.float (F := F)) := within_of_scalar LawfulScalars.float_scalar
  have hbool : Within 0 (Scalars.bool (F := F)) := within_of_scalar LawfulScalars.bool_scalar
  have hdatetime : Within 0 (Scalars.datetime (F := F)) := within_of_scalar LawfulScalars.datetime_scalar
  refine bounded_of_fields h.only hd (by decide) ?_
  intro f hf j hj hdicts
  simp only [telemetryFields, List.mem_cons, List.not_mem_nil, or_false] at hf
  rcases hf with rfl | rfl | rfl | rfl | rfl | rfl | rfl
  · exact (htext.mono (Nat.zero_le 1)) j _ (required_accepts h.licenseId hj) hdicts
  · exact (hdatetime.mono (Nat.zero_le 1)) j _ (required_accepts h.lastSeen hj) hdicts
  · exact (htext.optional.mono (Nat.zero_le 1)) j _ (fieldOr_accepts h.activeEdition hj) hdicts
  · exact htext.listOf j _ (fieldOr_accepts h.activeModules hj) hdicts
  · exact hint.dictOf j _ (fieldOr_accepts h.moduleUsage hj) hdicts
  · exact hfloat.dictOf j _ (fieldOr_accepts h.showbackTotals hj) hdicts
  · exact (hbool.mono (Nat.zero_le 1)) j _ (fieldOr_accepts h.overLicense hj) hdicts

/-- The same metadata; dicts are compared without their order. -/
structure SameMetadata (p p' : TelemetryPayload F) : Prop where
  licenseId : p'.licenseId = p.licenseId
  lastSeen : p'.lastSeen = p.lastSeen
  activeEdition : p'.activeEdition = p.activeEdition
  activeModules : p'.activeModules = p.activeModules
  moduleUsage : p.moduleUsage.Perm p'.moduleUsage
  showbackTotals : p.showbackTotals.Perm p'.showbackTotals
  overLicense : p'.overLicense = p.overLicense

theorem Validated.reordered (h : Validated data p) (hnodup : data.keys.Nodup)
    (hs : (Json.obj data').sorted = (Json.obj data).sorted) :
    ∃ p', Validated data' p' ∧ SameMetadata p p' := by
  have htext : Orderless (text : Reader F Str) := orderless_of_scalar text_scalar
  have hint : Orderless (Scalars.int (F := F)) := orderless_of_scalar LawfulScalars.int_scalar
  have hfloat : Orderless (Scalars.float (F := F)) := orderless_of_scalar LawfulScalars.float_scalar
  have hbool : Orderless (Scalars.bool (F := F)) := orderless_of_scalar LawfulScalars.bool_scalar
  have hdatetime : Orderless (Scalars.datetime (F := F)) := orderless_of_scalar LawfulScalars.datetime_scalar
  obtain ⟨moduleUsage, husage, hperm⟩ := fieldOr_dict_reordered hint hnodup hs h.moduleUsage
  obtain ⟨showbackTotals, htotals, hperm'⟩ := fieldOr_dict_reordered hfloat hnodup hs h.showbackTotals
  refine ⟨⟨p.licenseId, p.lastSeen, p.activeEdition, p.activeModules, moduleUsage, showbackTotals,
    p.overLicense⟩, ⟨?_, ?_, ?_, ?_, husage, htotals, ?_, h.named, ?_⟩, ⟨rfl, rfl, rfl, rfl, hperm, hperm', rfl⟩⟩
  · exact required_reordered htext hnodup hs h.licenseId
  · exact required_reordered hdatetime hnodup hs h.lastSeen
  · exact fieldOr_reordered htext.optional hnodup hs h.activeEdition
  · exact fieldOr_reordered htext.listOf hnodup hs h.activeModules
  · exact fieldOr_reordered hbool hnodup hs h.overLicense
  · rw [onlyFields_reordered hs]
    exact h.only

end Schema

end IsaCloud.Fleet

namespace IsaCloud.Fleet

set_option autoImplicit false

open Support Support.Text Support.Python Support.DateTime Support.Encoding Support.Pydantic License

/-- Digests are hexadecimal text. -/
class HexDigest [Hmac] : Prop where
  ascii : ∀ key message, isAscii (Hmac.hexdigest key message) = true
  ne_nil : ∀ key message, Hmac.hexdigest key message ≠ []

/-- Digests are hexadecimal text, and no two messages share one under a key. -/
class LawfulHmac [Hmac] : Prop where
  ascii : ∀ key message, isAscii (Hmac.hexdigest key message) = true
  ne_nil : ∀ key message, Hmac.hexdigest key message ≠ []
  injective : ∀ key, Function.Injective (Hmac.hexdigest key)

instance [Hmac] [LawfulHmac] : HexDigest := ⟨LawfulHmac.ascii, LawfulHmac.ne_nil⟩

/-- `model_validate` validates the fields of the schema. -/
class LawfulIntake (F : Type) [IntakeLibraries F] [Scalars F] : Prop where
  modelValidate_iff : ∀ (data : Members F) (p : TelemetryPayload F),
    IntakeLibraries.modelValidate data = .ok p ↔ Validated data p

/-- The envelope as the producer builds it. -/
def envelopeOf {F : Type} (payload : Members F) (deploymentSecretId signature : Str) : Members F :=
  [(lit "payload", .obj payload), (lit "deployment_secret_id", .str deploymentSecretId),
    (lit "signature", .str signature)]

section Outcomes
variable {F : Type}

/-- Equal in everything but the source, the surrogate key and the time of arrival;
dicts are compared without their order. -/
structure SameContent (r r' : TelemetryRecord F) : Prop where
  licenseId : r'.licenseId = r.licenseId
  deploymentSecretId : r'.deploymentSecretId = r.deploymentSecretId
  lastSeen : r'.lastSeen = r.lastSeen
  activeEdition : r'.activeEdition = r.activeEdition
  activeModules : r'.activeModules = r.activeModules
  moduleUsage : r.moduleUsage.Perm r'.moduleUsage
  showbackTotals : r.showbackTotals.Perm r'.showbackTotals
  overLicense : r'.overLicense = r.overLicense

theorem sameContent_recordOf {p p₁ p₂ : TelemetryPayload F} (h₁ : SameMetadata p p₁) (h₂ : SameMetadata p p₂)
    (db db' : Database F) (sid source source' : Str) (now now' : Instant) :
    SameContent (recordOf db p₁ sid source now) (recordOf db' p₂ sid source' now') where
  licenseId := h₂.licenseId.trans h₁.licenseId.symm
  deploymentSecretId := rfl
  lastSeen := h₂.lastSeen.trans h₁.lastSeen.symm
  activeEdition := h₂.activeEdition.trans h₁.activeEdition.symm
  activeModules := h₂.activeModules.trans h₁.activeModules.symm
  moduleUsage := h₁.moduleUsage.symm.trans h₂.moduleUsage
  showbackTotals := h₁.showbackTotals.symm.trans h₂.showbackTotals
  overLicense := h₂.overLicense.trans h₁.overLicense.symm

end Outcomes

/-! ## One call -/

section Calls
variable {F : Type} [PyFloat F] [Unicode] [Hmac] [IntakeLibraries F]

/-- Everything that intake checks about an envelope. -/
structure Acceptable (db : Database F) (envelope : Envelope F) (secret : DeploymentSecret) (row : IssuanceLedger)
    (p : TelemetryPayload F) : Prop where
  credential : envelope.deploymentSecretId = .str secret.deploymentSecretId
  named : secret.deploymentSecretId ≠ []
  found : db.findSecret secret.deploymentSecretId = some secret
  signed : ∃ bytes signature, canonicalPayloadBytes envelope.payload = .ok bytes ∧
    signTelemetry secret.secret bytes = .ok signature ∧ envelope.signature = .str signature
  valid : IntakeLibraries.modelValidate envelope.payload = .ok p
  license : db.findLicense p.licenseId = some row
  pinned : row.deploymentSecretId = some secret.deploymentSecretId

omit [Unicode] [Hmac] [IntakeLibraries F] in
theorem truthy_str {s : Str} (h : s ≠ []) : (Json.str s : Json F).truthy = true := by
  cases s with
  | nil => exact absurd rfl h
  | cons c s => rfl

omit [PyFloat F] [Unicode] [IntakeLibraries F] in
theorem signTelemetry_spec [HexDigest] {secret : Str} {bytes : Bytes} {signature : Str}
    (h : signTelemetry secret bytes = .ok signature) : isAscii signature = true ∧ signature ≠ [] := by
  unfold signTelemetry at h
  split at h
  · obtain rfl := Except.ok.inj h
    exact ⟨HexDigest.ascii _ _, HexDigest.ne_nil _ _⟩
  · cases h

omit [PyFloat F] [Unicode] [IntakeLibraries F] in
theorem signTelemetry_injective [LawfulHmac] {secret : Str} {bytes bytes' : Bytes} {signature : Str}
    (h : signTelemetry secret bytes = .ok signature) (h' : signTelemetry secret bytes' = .ok signature) :
    bytes = bytes' := by
  cases hkey : utf8Encode secret with
  | error e =>
    rw [signTelemetry, hkey] at h
    cases h
  | ok key =>
    rw [signTelemetry, hkey] at h h'
    exact LawfulHmac.injective key (Except.ok.inj (h.trans h'.symm))

omit [Unicode] in
theorem exec_verifyOr401 [HexDigest] {Out : Type} {db : Database F} {secret : DeploymentSecret} {signed : Bytes}
    {signature : Str} (hnamed : secret.deploymentSecretId ≠ [])
    (hfound : db.findSecret secret.deploymentSecretId = some secret)
    (hsign : signTelemetry secret.secret signed = .ok signature) (k : Json F → Session F Out) :
    Session.exec (verifyOr401 (.str secret.deploymentSecretId) signed (.str signature) k) db =
      Session.exec (k (.str secret.deploymentSecretId)) db := by
  obtain ⟨hascii, hne⟩ := signTelemetry_spec hsign
  have htruthy : (Json.str signature : Json F).truthy = true := truthy_str hne
  have hcheck : checkHmac secret signed (Json.str signature : Json F) = .ok true := by
    rw [checkHmac_signed htruthy hsign]
    simp only [compareDigest, hascii, Bool.and_self, if_true, decide_true]
  rw [verifyOr401, if_neg]
  · rw [verifyTelemetryHmac, secretKey, Proc.attempt_ok, Session.exec_withSecret, hfound]
    simp only [hcheck, Proc.attempt_ok, if_true]
  · rw [truthy_str hnamed, truthy_str hne]
    simp

theorem ingest_of_acceptable [HexDigest] {db : Database F} {nesting : Nat} {raw : Bytes} {envelope : Envelope F}
    {secret : DeploymentSecret} {row : IssuanceLedger} {p : TelemetryPayload F}
    (hparse : parseEnvelopeOr422 F nesting raw = .ok envelope) (h : Acceptable db envelope secret row p)
    (source : Str) (now : Instant) :
    Accepts db (ingest nesting now raw source) (recordOf db p secret.deploymentSecretId source now) := by
  obtain ⟨bytes, signature, hbytes, hsign, hsignature⟩ := h.signed
  have hpins : pinsOther row (.str secret.deploymentSecretId : Json F) = false := by
    simp [pinsOther, h.pinned]
  have hlacks : db.lacks (some p.licenseId) = false := by
    rw [Database.lacks, h.license]
    rfl
  rw [Accepts, ingest, hparse, Proc.attempt_ok, hbytes, Proc.attempt_ok, h.credential, hsignature,
    exec_verifyOr401 h.named h.found hsign, validatePayloadOr422, h.valid, Proc.attempt_ok, persist,
    Session.exec_withLedger, h.license]
  simp only [hpins, Bool.false_eq_true, if_false, secretKey, Proc.attempt_ok, Session.exec_commitWith, applyWrites,
    applyWrite, telemetryRow, hlacks, recordOf, List.length_append, List.length_singleton]

omit [Unicode] in
/-- A signature that the credential named does not give, or a payload the schema refuses. -/
theorem rejects_of_forged [HexDigest] {db : Database F} {secret : DeploymentSecret} {signed : Bytes}
    {signature : Str} (hnamed : secret.deploymentSecretId ≠ [])
    (hfound : db.findSecret secret.deploymentSecretId = some secret) (hne : signature ≠ [])
    (hascii : isAscii signature = true) (hsign : signTelemetry secret.secret signed ≠ .ok signature)
    (k : Json F → Session F Accepted) :
    Session.Rejects db (verifyOr401 (.str secret.deploymentSecretId) signed (.str signature) k) := by
  rw [verifyOr401, if_neg]
  · rw [verifyTelemetryHmac, secretKey, Proc.attempt_ok]
    cases hexpected : signTelemetry secret.secret signed with
    | error e =>
      refine ⟨e, ?_⟩
      rw [Session.exec_withSecret, hfound]
      simp only [checkHmac, hexpected, Proc.attempt_error, Session.exec_ret]
    | ok expected =>
      have hdiffers : expected ≠ signature := by
        rintro rfl
        exact hsign hexpected
      have htruthy : (Json.str signature : Json F).truthy = true := truthy_str hne
      have hcheck : checkHmac secret signed (Json.str signature : Json F) = .ok false := by
        obtain ⟨hascii', -⟩ := signTelemetry_spec hexpected
        rw [checkHmac_signed htruthy hexpected]
        simp only [compareDigest, hascii, hascii', Bool.and_self, if_true, decide_eq_false hdiffers]
      refine ⟨httpException 401 (lit "invalid telemetry signature"), ?_⟩
      rw [Session.exec_withSecret, hfound]
      simp only [hcheck, Proc.attempt_ok, Bool.false_eq_true, if_false, Session.exec_ret]
  · rw [truthy_str hnamed, truthy_str hne]
    simp

end Calls

/-! ## Envelopes -/

section Envelopes
variable {F : Type} [PyFloat F] [Json.LawfulPyFloat F] [Unicode]

/-- Every rendering of an envelope is opened with the same payload, up to the order of members. -/
theorem parse_of_renders {payload : Members F} {sid signature : Str} {nesting : Nat} {raw : Bytes}
    (hwf : Json.WF (.obj (envelopeOf payload sid signature)))
    (hd : (Json.obj (envelopeOf payload sid signature)).depth ≤ nesting)
    (h : Json.Renders (.obj (envelopeOf payload sid signature)) raw) :
    ∃ payload', parseEnvelopeOr422 F nesting raw = .ok ⟨payload', .str sid, .str signature⟩ ∧
      (Json.obj payload').sorted = (Json.obj payload).sorted ∧ Json.WF (.obj payload') := by
  obtain ⟨m, text, hdecode, hloads, hs, hwfm⟩ := Json.loads_of_renders (by simp [envelopeOf]) hwf hd h
  have hget := Json.get_of_sorted_eq hwf.1 hs.symm
  have hstr : ∀ (k s : Str), Members.get (envelopeOf payload sid signature) k = some (.str s) →
      Members.get m k = some (.str s) := by
    intro k s hk
    rw [Members.get_eq_of_orderFree (fun j hj => ?_) (hget k).symm, hk]
    rw [Option.some.inj (hj.symm.trans hk)]
    trivial
  have hsid := hstr (lit "deployment_secret_id") sid rfl
  have hsignature := hstr (lit "signature") signature rfl
  obtain ⟨j, hj, hjs⟩ := Option.map_eq_some_iff.mp ((hget (lit "payload")).symm.trans rfl)
  obtain ⟨payload', rfl⟩ := Json.obj_of_sorted_eq hjs
  refine ⟨payload', ?_, hjs, ?_⟩
  · have hbytes : loadsBytes nesting raw = .ok (.obj m) := by
      rw [loadsBytes, hdecode]
      exact hloads
    rw [parseEnvelopeOr422, hbytes]
    simp only [openEnvelope, hj, hsid, hsignature]
  · exact Json.wf_of_sorted_eq hjs (Json.wfMembers_iff.mp hwf.2 (lit "payload", .obj payload) List.mem_cons_self).2

omit [Json.LawfulPyFloat F] [Unicode] in
/-- The canonical bytes do not show the order of members. -/
theorem canonicalPayloadBytes_reordered {payload payload' : Members F} (hwf : Json.WF (.obj payload))
    (hs : (Json.obj payload').sorted = (Json.obj payload).sorted) :
    canonicalPayloadBytes payload' = canonicalPayloadBytes payload := by
  have hfit := Json.intsFit_of_wf _ hwf
  have hfit' := Json.intsFit_of_wf _ (Json.wf_of_sorted_eq hs hwf)
  rw [canonicalPayloadBytes, canonicalPayloadBytes, Json.dumpsCanonical, Json.dumpsCanonical, if_pos hfit,
    if_pos hfit', Json.canonical, Json.canonical, hs]

omit [Unicode] in
theorem canonicalPayloadBytes_ok {payload : Members F} (h : Json.intsFit (.obj payload) = true) :
    canonicalPayloadBytes payload = .ok ((Json.canonical (.obj payload)).flatMap encodePoint) := by
  rw [canonicalPayloadBytes, Json.dumpsCanonical, if_pos h]
  exact utf8Encode_ascii (Json.ascii_of_printable (Json.printable_compact _))

omit [Unicode] in
/-- Payloads with the same canonical bytes differ in the order of members only. -/
theorem sorted_of_canonicalPayloadBytes {payload payload' : Members F} (hwf : Json.WF (.obj payload))
    (hwf' : Json.WF (.obj payload')) {bytes : Bytes} (h : canonicalPayloadBytes payload = .ok bytes)
    (h' : canonicalPayloadBytes payload' = .ok bytes) : (Json.obj payload').sorted = (Json.obj payload).sorted := by
  rw [canonicalPayloadBytes, Json.dumpsCanonical, if_pos (Json.intsFit_of_wf _ hwf)] at h
  rw [canonicalPayloadBytes, Json.dumpsCanonical, if_pos (Json.intsFit_of_wf _ hwf')] at h'
  exact (Json.sorted_of_canonical_eq hwf hwf' (utf8Encode_injective h h')).symm

omit [Json.LawfulPyFloat F] in
/-- The payload of an envelope is an object of the parsed document. -/
theorem dicts_of_parse {nesting : Nat} {raw : Bytes} {envelope : Envelope F}
    (h : parseEnvelopeOr422 F nesting raw = .ok envelope) : Json.Dicts (.obj envelope.payload) := by
  unfold parseEnvelopeOr422 at h
  split at h
  · split at h
    · cases h
    · cases h
  · rename_i m hbytes
    have hdicts : Json.Dicts (.obj m) := by
      unfold loadsBytes at hbytes
      split at hbytes
      · cases hbytes
      · exact Json.loads_dicts hbytes
    unfold openEnvelope at h
    split at h
    · rename_i hpayload _ _
      split at h
      · obtain rfl := Except.ok.inj h
        have hmem := (Members.get_eq_some_iff hdicts.1 _ _).mp hpayload
        exact Json.dictsMembers_iff.mp hdicts.2 _ hmem
      · cases h
    · cases h
  · cases h

end Envelopes

/-! ## Credentials have names -/

section Minted
variable {F : Type} [PyFloat F] [Cryptography] [Unicode]

/-- Every credential has an id. -/
def Named (db : Database F) : Prop := ∀ secret ∈ db.secrets, secret.deploymentSecretId ≠ []

theorem draft_named {ambient : Ambient} {priv : Option Cryptography.PrivateKey} {spec : Spec}
    {delivery : Option Str} {result : IssuanceResult F} (h : draft F ambient priv spec delivery = .ok result) :
    result.secretRow.deploymentSecretId ≠ [] := by
  simp only [draft] at h
  split at h
  · cases h
  · split at h
    · cases h
    · split at h
      · obtain rfl := Except.ok.inj h
        simp [IssuanceResult.secretRow, persistCredential, mintCredential, newSecretId, lit]
      · cases h
      · cases h

theorem prepare_named {c : LedgerCall} {read : Option IssuanceLedger} {plan : Plan}
    (h : c.prepare F read = .ok plan) {db : Database F} (hdb : Named db) : Named (plan.apply db) := by
  have hadd : ∀ {ambient priv spec delivery} {result : IssuanceResult F},
      draft F ambient priv spec delivery = .ok result →
      ∀ secret ∈ db.secrets ++ [result.secretRow], secret.deploymentSecretId ≠ [] := by
    intro _ _ _ _ result hd secret hs
    rcases List.mem_append.mp hs with hs | hs
    · exact hdb secret hs
    · rw [List.mem_singleton.mp hs]
      exact draft_named hd
  cases c with
  | issue ambient priv req =>
    simp only [LedgerCall.prepare] at h
    split at h
    · cases h
    · rename_i spec _
      obtain ⟨result, hd, rfl⟩ := exists_of_map_ok h
      exact hadd hd
  | renew ambient priv priorLicenseId req =>
    cases read with
    | none => cases h
    | some prior =>
      obtain ⟨result, hd, rfl⟩ := exists_of_map_ok h
      simp only [prepareRenewal] at hd
      split at hd
      · cases hd
      · split at hd
        · cases hd
        · split at hd
          · cases hd
          · exact hadd hd
  | revoke now licenseId reason =>
    cases read with
    | none => cases h
    | some row =>
      obtain ⟨_, -, rfl⟩ := exists_of_map_ok h
      exact hdb

variable [Hmac] [IntakeLibraries F]

theorem fleetStep_named {db : Database F} (h : Named db) (c : FleetCall) : Named (fleetStep db c) := by
  cases c with
  | ledger c =>
    rcases step_cases db c with heq | ⟨plan, hprep, -, heq⟩
    · rw [fleetStep, heq]
      exact h
    · rw [fleetStep, heq]
      exact prepare_named hprep h
  | ingest nesting now raw source =>
    rcases ingest_cases db nesting now raw source with hrejects | ⟨record, secret, row, -, haccepts⟩
    · rw [fleetStep, hrejects.unchanged]
      exact h
    · rw [fleetStep, haccepts.stored]
      exact h

theorem fleetAfter_named (history : List FleetCall) : Named (fleetAfter F history) :=
  run_invariant Named (fun _ c h => fleetStep_named h c) history (fun _ hs => nomatch hs)

end Minted

/-! ## Agreement -/

section Agreement
variable {F : Type} [PyFloat F] [Json.LawfulPyFloat F] [Cryptography] [Unicode] [Hmac] [LawfulHmac]
  [IntakeLibraries F] [Scalars F] [LawfulScalars F] [LawfulIntake F]

omit [Cryptography] in
theorem accepts_of_renders {db : Database F} {secret : DeploymentSecret} {row : IssuanceLedger}
    {payload : Members F} {p : TelemetryPayload F} {signed : Bytes} {signature : Str} {nesting : Nat} {raw : Bytes}
    (hnamed : secret.deploymentSecretId ≠ []) (hpins : Pins db row secret)
    (hrow : db.findLicense p.licenseId = some row) (hvalid : TelemetryPayload.ofMembers payload = some p)
    (hsigned : canonicalPayloadBytes payload = .ok signed)
    (hsign : signTelemetry secret.secret signed = .ok signature)
    (hwf : Json.WF (.obj (envelopeOf payload secret.deploymentSecretId signature))) (hdeep : 3 ≤ nesting)
    (h : Json.Renders (.obj (envelopeOf payload secret.deploymentSecretId signature)) raw) :
    ∃ p', SameMetadata p p' ∧ ∀ source now, Accepts db (ingest nesting now raw source)
      (recordOf db p' secret.deploymentSecretId source now) := by
  have hpayload : Json.WF (.obj payload) :=
    (Json.wfMembers_iff.mp hwf.2 (lit "payload", .obj payload) List.mem_cons_self).2
  have hv := ofMembers_iff.mp hvalid
  have hd : (Json.obj (envelopeOf payload secret.deploymentSecretId signature)).depth ≤ nesting := by
    have hshallow := (hv.bounded (Json.dicts_of_wf _ hpayload)).2
    simp only [envelopeOf, Json.depth, Json.depthMembers] at hshallow ⊢
    omega
  obtain ⟨payload', hparse, hs, hwf'⟩ := parse_of_renders hwf hd h
  obtain ⟨p', hv', hsame⟩ := hv.reordered hpayload.1 hs
  have hok : Acceptable db ⟨payload', .str secret.deploymentSecretId, .str signature⟩ secret row p' :=
    { credential := rfl
      named := hnamed
      found := hpins.found
      signed := ⟨signed, signature, (canonicalPayloadBytes_reordered hpayload hs).trans hsigned, hsign, rfl⟩
      valid := (LawfulIntake.modelValidate_iff payload' p').mpr hv'
      license := hsame.licenseId ▸ hrow
      pinned := hpins.credential }
  exact ⟨p', hsame, fun source now => ingest_of_acceptable hparse hok source now⟩

omit [Cryptography] in
/-- A signature taken to another payload. -/
theorem rejects_of_altered {db : Database F} {secret : DeploymentSecret} {payload : Members F} {signed : Bytes}
    {signature : Str} {nesting : Nat} {raw : Bytes} {envelope : Envelope F}
    (hnamed : secret.deploymentSecretId ≠ []) (hfound : db.findSecret secret.deploymentSecretId = some secret)
    (hwf : Json.WF (.obj payload)) (hsigned : canonicalPayloadBytes payload = .ok signed)
    (hsign : signTelemetry secret.secret signed = .ok signature)
    (hparse : parseEnvelopeOr422 F nesting raw = .ok envelope)
    (hsid : envelope.deploymentSecretId = .str secret.deploymentSecretId)
    (hsignature : envelope.signature = .str signature)
    (hne : (Json.obj envelope.payload).sorted ≠ (Json.obj payload).sorted) (source : Str) (now : Instant) :
    Session.Rejects db (ingest nesting now raw source) := by
  obtain ⟨hascii, hnil⟩ := signTelemetry_spec hsign
  rw [ingest, hparse, Proc.attempt_ok, hsid, hsignature]
  cases hsigned' : canonicalPayloadBytes envelope.payload with
  | error e => exact ⟨e, rfl⟩
  | ok signed' =>
    rw [Proc.attempt_ok]
    by_cases hsame : signTelemetry secret.secret signed' = .ok signature
    · -- the same message under the same key: only a payload that the schema refuses has it
      rw [Session.Rejects, exec_verifyOr401 hnamed hfound hsame]
      cases hvalid : (validatePayloadOr422 envelope.payload : Except PyError (TelemetryPayload F)) with
      | error e => exact ⟨e, rfl⟩
      | ok p =>
        exfalso
        have hv := (LawfulIntake.modelValidate_iff envelope.payload p).mp (validatePayloadOr422_ok.mp hvalid)
        have hwf' := (hv.bounded (dicts_of_parse hparse)).1
        obtain rfl := signTelemetry_injective hsign hsame
        exact hne (sorted_of_canonicalPayloadBytes hwf hwf' hsigned hsigned')
    · exact rejects_of_forged hnamed hfound hnil hascii hsame _

/-- What a producer signs is stored by both entrypoints in every rendering, and its
signature is good for no other payload. -/
theorem producer_intake_agree (history : List FleetCall) {row : IssuanceLedger} {secret : DeploymentSecret}
    {payload : Members F} {p : TelemetryPayload F} {signed : Bytes} {signature : Str} {nesting : Nat}
    (hrow : (fleetAfter F history).findLicense p.licenseId = some row)
    (hpins : Pins (fleetAfter F history) row secret) (hvalid : TelemetryPayload.ofMembers payload = some p)
    (hsigned : canonicalPayloadBytes payload = .ok signed)
    (hsign : signTelemetry secret.secret signed = .ok signature)
    (hwf : Json.WF (.obj (envelopeOf payload secret.deploymentSecretId signature))) (hdeep : 3 ≤ nesting) :
    (∀ raw raw' now now', Json.Renders (.obj (envelopeOf payload secret.deploymentSecretId signature)) raw →
      Json.Renders (.obj (envelopeOf payload secret.deploymentSecretId signature)) raw' →
      ∃ r r', Accepts (fleetAfter F history) (postTelemetry nesting now raw) r ∧
        Accepts (fleetAfter F history) (uploadTelemetry nesting now' raw') r' ∧ SameContent r r' ∧
        r.licenseId = row.licenseId ∧ r.deploymentSecretId = row.deploymentSecretId) ∧
    (∀ raw (envelope : Envelope F) now source, parseEnvelopeOr422 F nesting raw = .ok envelope →
      envelope.deploymentSecretId = .str secret.deploymentSecretId → envelope.signature = .str signature →
      (Json.obj envelope.payload).sorted ≠ (Json.obj payload).sorted →
      Session.Rejects (fleetAfter F history) (ingest nesting now raw source)) := by
  have hnamed := fleetAfter_named history secret (Table.mem_of_find hpins.found).1
  have hpayload : Json.WF (.obj payload) :=
    (Json.wfMembers_iff.mp hwf.2 (lit "payload", .obj payload) List.mem_cons_self).2
  constructor
  · intro raw raw' now now' hr hr'
    obtain ⟨p₁, hsame₁, haccept₁⟩ :=
      accepts_of_renders hnamed hpins hrow hvalid hsigned hsign hwf hdeep hr
    obtain ⟨p₂, hsame₂, haccept₂⟩ :=
      accepts_of_renders hnamed hpins hrow hvalid hsigned hsign hwf hdeep hr'
    refine ⟨_, _, haccept₁ (lit "realtime") now, haccept₂ (lit "offline-upload") now',
      sameContent_recordOf hsame₁ hsame₂ _ _ _ _ _ _ _, ?_, hpins.credential.symm⟩
    exact hsame₁.licenseId.trans (Table.mem_of_find hrow).2.symm
  · intro raw envelope now source hparse hsid hsignature hne
    exact rejects_of_altered hnamed hpins.found hpayload hsigned hsign hparse hsid hsignature hne source now

end Agreement

/-! ## One deployment -/

section Acme
attribute [local instance] asciiUnicode mirrorCryptography

/-- Two digits for each byte. -/
def spellBytes (message : Bytes) : Str := message.flatMap fun b => [digit (b.val / 16), digit (b.val % 16)]

theorem spellBytes_injective : Function.Injective spellBytes := by
  have hdigit : ∀ m < 16, ∀ n < 16, digit m = digit n → m = n := by decide
  intro message
  induction message with
  | nil =>
    intro message' h
    cases message' with
    | nil => rfl
    | cons b message' => cases h
  | cons a message ih =>
    intro message' h
    cases message' with
    | nil => cases h
    | cons b message' =>
      simp only [spellBytes, List.flatMap_cons, List.cons_append, List.nil_append, List.cons.injEq] at h
      have ha := a.isLt
      have hb := b.isLt
      have hhigh := hdigit _ (by omega) _ (by omega) h.1
      have hlow := hdigit _ (Nat.mod_lt _ (by decide)) _ (Nat.mod_lt _ (by decide)) h.2.1
      rw [ih h.2.2, Fin.ext (by omega : a.val = b.val)]

def acmeSigned : Bytes := (Json.canonical (.obj acmePayload)).flatMap encodePoint

def acmeDigest : Str := lit "0b16167202c605c084391480e9a399cd0bf30f6e5f57f766e1a3bee3ff5646ba"

/-- HMAC-SHA256 of the one message signed here, and some text of its own for every other one. -/
@[reducible] def distinctHmac : Hmac where
  hexdigest key message :=
    if key = (lit "s").flatMap encodePoint ∧ message = acmeSigned then acmeDigest
    else cp '#' :: spellBytes message

/-- Conversions that take each type from its own values, and a datetime from ISO-8601 text. -/
@[reducible] def plainScalars : Scalars Unit where
  int j :=
    match j with
    | .int n => some n
    | _ => none
  float j :=
    match j with
    | .float x => some x
    | _ => none
  bool j :=
    match j with
    | .bool b => some b
    | _ => none
  datetime j :=
    match j with
    | .str s =>
      if isText s then
        match parseTs (some (.text s)) with
        | .ok d => d
        | .error _ => none
      else none
    | _ => none

attribute [local instance] distinctHmac plainScalars

/-- Validation by the fields of the schema. -/
@[reducible] def schemaLibraries : IntakeLibraries Unit where
  modelValidate data :=
    match TelemetryPayload.ofMembers data with
    | some p => .ok p
    | none => .error (lit "validation error")
  ident _ := .error ⟨.typeError, lit "unsupported type"⟩

attribute [local instance] schemaLibraries

theorem distinctHmac_lawful : LawfulHmac where
  ascii key message := by
    have hdigits : ∀ d < 16, (digit d).val < 0x80 := by decide
    show isAscii (if _ then _ else _) = true
    split
    · decide
    · refine List.all_eq_true.mpr fun c hc => decide_eq_true ?_
      rcases List.mem_cons.mp hc with rfl | hc
      · decide
      · obtain ⟨b, -, hb⟩ := List.mem_flatMap.mp hc
        have := b.isLt
        simp only [List.mem_cons, List.not_mem_nil, or_false] at hb
        rcases hb with rfl | rfl
        · exact hdigits _ (by omega)
        · exact hdigits _ (Nat.mod_lt _ (by decide))
  ne_nil key message := by
    show (if _ then _ else _) ≠ []
    split
    · decide
    · simp
  injective key message message' h := by
    have hhead : ∀ m, acmeDigest ≠ cp '#' :: spellBytes m := by
      intro m he
      have : acmeDigest.head? = some (cp '#') := by rw [he]; rfl
      exact absurd this (by decide)
    dsimp only [Hmac.hexdigest] at h
    split at h
    · rename_i hm
      split at h
      · rename_i hm'
        exact hm.2.trans hm'.2.symm
      · exact absurd h (hhead message')
    · split at h
      · exact absurd h.symm (hhead message)
      · exact spellBytes_injective (List.cons.inj h).2

theorem plainScalars_lawful : LawfulScalars Unit where
  int_scalar j n h := by
    cases j with
    | int n => rfl
    | _ => cases h
  float_scalar j x h := by
    cases j with
    | float x => rfl
    | _ => cases h
  bool_scalar j b h := by
    cases j with
    | bool b => rfl
    | _ => cases h
  datetime_scalar j d h := by
    cases j with
    | str s =>
      dsimp only [Scalars.datetime] at h
      split at h
      · assumption
      · cases h
    | _ => cases h

theorem schemaLibraries_lawful : LawfulIntake Unit where
  modelValidate_iff data p := by
    rw [← ofMembers_iff]
    dsimp only [IntakeLibraries.modelValidate]
    cases TelemetryPayload.ofMembers data with
    | none => simp
    | some q => simp

attribute [local instance] distinctHmac_lawful plainScalars_lawful schemaLibraries_lawful

def acmeMembers : Members Unit := envelopeOf acmePayload (lit "dep-acme-0a") acmeDigest

/-- The report of one deployment is stored from the wire and from its file. -/
theorem acme_report_agrees : ∃ r r' : TelemetryRecord Unit,
    Accepts (fleetAfter Unit [.ledger acmeIssue])
      (postTelemetry 3 newYear ((Json.compact (.obj acmeMembers)).flatMap encodePoint)) r ∧
    Accepts (fleetAfter Unit [.ledger acmeIssue])
      (uploadTelemetry 3 newYear ((Json.indented 0 (.sorted (.obj acmeMembers))).flatMap encodePoint)) r' ∧
    SameContent r r' := by
  obtain ⟨p, hp⟩ := Option.isSome_iff_exists.mp
    (by decide : (TelemetryPayload.ofMembers acmePayload).isSome = true)
  have hlicense : p.licenseId = lit "acme-1" := (Option.some.inj (ofMembers_iff.mp hp).licenseId).symm
  obtain ⟨row, hrow⟩ := Option.isSome_iff_exists.mp
    (by decide : ((fleetAfter Unit [.ledger acmeIssue]).findLicense (lit "acme-1")).isSome = true)
  obtain ⟨secret, hpins⟩ := fleetAfter_credentialed [.ledger acmeIssue] row (Table.mem_of_find hrow).1
  have hsecrets : ∀ s ∈ (fleetAfter Unit [.ledger acmeIssue]).secrets,
      s.deploymentSecretId = lit "dep-acme-0a" ∧ s.secret = lit "s" := by
    decide
  obtain ⟨hid, hkey⟩ := hsecrets secret (Table.mem_of_find hpins.found).1
  have hsigned : canonicalPayloadBytes acmePayload = .ok acmeSigned := canonicalPayloadBytes_ok (by decide)
  have hsign : signTelemetry secret.secret acmeSigned = .ok acmeDigest := by
    have henc : utf8Encode (lit "s") = .ok ((lit "s").flatMap encodePoint) := rfl
    rw [hkey, signTelemetry, henc]
    dsimp only [Hmac.hexdigest]
    rw [if_pos ⟨rfl, rfl⟩]
  have hwf : Json.WF (.obj (envelopeOf acmePayload secret.deploymentSecretId acmeDigest)) := by
    have hstr : ∀ s, Json.splitFree s = true → Json.WF (.str s : Json Unit) := fun s h => h
    rw [hid]
    refine ⟨by decide, by decide, ⟨by decide, by decide, hstr _ (by decide), by decide, hstr _ (by decide), trivial⟩,
      by decide, hstr _ (by decide), by decide, hstr _ (by decide), trivial⟩
  have hagree := (producer_intake_agree [.ledger acmeIssue] (hlicense ▸ hrow) hpins hp hsigned hsign hwf
    (Nat.le_refl 3)).1
  rw [hid] at hagree
  obtain ⟨r, r', hr, hr', hsame, -⟩ := hagree _ _ newYear newYear (Json.renders_compact _) (Json.renders_indented _)
  exact ⟨r, r', hr, hr', hsame⟩

end Acme

end IsaCloud.Fleet
