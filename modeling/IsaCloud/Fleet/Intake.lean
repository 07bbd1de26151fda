import IsaCloud.Fleet.Credential

/-!
# Telemetry intake

`intake.py` and the verification of `telemetry_credential.py`. The body of a
request is parsed as an envelope, the signature in it is checked over the
canonical bytes of the payload, and only then is the payload validated and
tied to its ledger row. Validation by the schema and what a primary key that is
no text is looked up as lie outside this code: they are `IntakeLibraries`.
-/

namespace IsaCloud.Fleet

set_option autoImplicit false

open Support Support.Text Support.Python Support.DateTime Support.IsoTime Support.Encoding

structure TelemetryPayload (F : Type) where
  licenseId : Str
  lastSeen : PyDateTime
  activeEdition : Option Str
  activeModules : List Str
  moduleUsage : List (Str × Int)
  showbackTotals : List (Str × F)
  overLicense : Bool

class IntakeLibraries (F : Type) where
  /-- `TelemetryPayload.model_validate`; the error is the detail of the response. -/
  modelValidate : Members F → Except Str (TelemetryPayload F)
  /-- What `json.loads(e.json())` raises where that detail cannot be written as JSON. -/
  detailFault : Members F → Option PyError := fun _ => none
  /-- The text the database compares a key with that is no text, or the exception of the lookup. -/
  ident : Json F → Except PyError Str

def httpException (status : Nat) (detail : Str) : PyError := ⟨.httpException status, detail⟩

structure Envelope (F : Type) where
  payload : Members F
  deploymentSecretId : Json F
  signature : Json F

def envelopeKeys : List Str := [lit "payload", lit "deployment_secret_id", lit "signature"]

section Parse
variable {F : Type} [PyFloat F] [Unicode]

/-- `json.loads` of bytes. -/
def loadsBytes (nesting : Nat) (raw : Bytes) : Except PyError (Json F) :=
  match decodeBody raw with
  | .error e => .error e
  | .ok text => Json.loads nesting text

def missingKeys (envelope : Members F) : List Str :=
  envelopeKeys.filter fun k => (envelope.get k).isNone

/-- The checks on a parsed envelope. -/
def openEnvelope (envelope : Members F) : Except PyError (Envelope F) :=
  match envelope.get (lit "payload"), envelope.get (lit "deployment_secret_id"),
      envelope.get (lit "signature") with
  | some payload, some deploymentSecretId, some signature =>
    match payload with
    | .obj members => .ok ⟨members, deploymentSecretId, signature⟩
    | _ => .error (httpException 422 (lit "envelope.payload must be a JSON object"))
  | _, _, _ =>
    .error (httpException 422 (lit "envelope missing required key(s): " ++
      Json.pyRepr (.arr ((missingKeys envelope).map .str) : Json F)))

variable (F) in
def parseEnvelopeOr422 (nesting : Nat) (raw : Bytes) : Except PyError (Envelope F) :=
  match (loadsBytes nesting raw : Except PyError (Json F)) with
  | .error e =>
    if e.kind = .jsonDecodeError ∨ e.kind = .unicodeDecodeError then
      .error (httpException 422 (lit "invalid JSON envelope: " ++ e.message))
    else .error e
  | .ok (.obj envelope) => openEnvelope envelope
  | .ok _ => .error (httpException 422 (lit "envelope must be a JSON object"))

end Parse

section Verify
variable {F : Type} [PyFloat F]

def canonicalPayloadBytes (payload : Members F) : Except PyError Bytes :=
  match Json.dumpsCanonical (.obj payload) with
  | .error e => .error e
  | .ok text => utf8Encode text

def isAscii (s : Str) : Bool := s.all fun c => decide (c.val < 0x80)

/-- `hmac.compare_digest` of the expected text and what the envelope carries. -/
def compareDigest (expected : Str) (signature : Json F) : Except PyError Bool :=
  match signature with
  | .str s =>
    if isAscii expected && isAscii s then .ok (decide (expected = s))
    else .error ⟨.typeError,
      lit "comparing strings with non-ASCII characters is not supported"⟩
  | j => .error ⟨.typeError, lit "unsupported operand types(s) or combination of types: 'str' and '" ++
      j.typeName ++ lit "'"⟩

omit [PyFloat F] in
/-- Two ASCII texts are compared; anything else is a `TypeError`. -/
theorem compareDigest_cases (expected : Str) (signature : Json F) :
    (∃ s, signature = .str s ∧ isAscii expected = true ∧ isAscii s = true ∧
      compareDigest expected signature = .ok (decide (expected = s))) ∨
    (∀ s, signature = .str s → isAscii expected = true → isAscii s = false) ∧
      ∃ message, compareDigest expected signature = .error ⟨.typeError, message⟩ := by
  cases signature with
  | str s =>
    by_cases hascii : isAscii expected = true ∧ isAscii s = true
    · left
      refine ⟨s, rfl, hascii.1, hascii.2, ?_⟩
      rw [compareDigest, if_pos (Bool.and_eq_true_iff.mpr hascii)]
    · right
      refine ⟨?_, _, if_neg fun h => hascii (Bool.and_eq_true_iff.mp h)⟩
      rintro _ ⟨⟩ hexpected
      exact Bool.eq_false_iff.mpr fun hs => hascii ⟨hexpected, hs⟩
  | null => exact .inr ⟨fun s h => (nomatch h), _, rfl⟩
  | bool b => exact .inr ⟨fun s h => (nomatch h), _, rfl⟩
  | int n => exact .inr ⟨fun s h => (nomatch h), _, rfl⟩
  | float x => exact .inr ⟨fun s h => (nomatch h), _, rfl⟩
  | arr xs => exact .inr ⟨fun s h => (nomatch h), _, rfl⟩
  | obj m => exact .inr ⟨fun s h => (nomatch h), _, rfl⟩

variable [Hmac] [IntakeLibraries F]

/-- The primary key a lookup by `deployment_secret_id` uses. -/
def secretKey (deploymentSecretId : Json F) : Except PyError Str :=
  match deploymentSecretId with
  | .str s => .ok s
  | j => IntakeLibraries.ident j

/-- The comparison of `verify_telemetry_hmac` once the row is there. -/
def checkHmac (row : DeploymentSecret) (payloadBytes : Bytes) (signature : Json F) :
    Except PyError Bool :=
  match signTelemetry row.secret payloadBytes with
  | .error e => .error e
  | .ok expected => compareDigest expected (if signature.truthy then signature else .str [])

omit [IntakeLibraries F] in
/-- A signature that is there is compared as it stands. -/
theorem checkHmac_signed {row : DeploymentSecret} {payloadBytes : Bytes} {signature : Json F} {expected : Str}
    (hpresent : signature.truthy = true) (hsign : signTelemetry row.secret payloadBytes = .ok expected) :
    checkHmac row payloadBytes signature = compareDigest expected signature := by
  rw [checkHmac, hsign]
  simp only [hpresent, if_true]

def verifyTelemetryHmac {Out : Type} (deploymentSecretId : Json F) (payloadBytes : Bytes)
    (signature : Json F) (k : Bool → Session F Out) : Session F Out :=
  .attempt (secretKey deploymentSecretId) fun key =>
  Session.withSecret key fun row =>
    match row with
    | none => k false
    | some row => .attempt (checkHmac row payloadBytes signature) k

def verifyOr401 {Out : Type} (deploymentSecretId : Json F) (signed : Bytes) (signature : Json F)
    (k : Json F → Session F Out) : Session F Out :=
  if deploymentSecretId.truthy = false ∨ signature.truthy = false then
    .ret (.error (httpException 401 (lit "missing telemetry credential")))
  else
    verifyTelemetryHmac deploymentSecretId signed signature fun valid =>
      if valid then k deploymentSecretId
      else .ret (.error (httpException 401 (lit "invalid telemetry signature")))

end Verify

section Persist
variable {F : Type} [PyFloat F] [Unicode] [Hmac] [IntakeLibraries F]

def validatePayloadOr422 (data : Members F) : Except PyError (TelemetryPayload F) :=
  match IntakeLibraries.modelValidate data with
  | .ok payload => .ok payload
  | .error detail =>
    match IntakeLibraries.detailFault data with
    | some e => .error e
    | none => .error (httpException 422 detail)

omit [PyFloat F] [Unicode] [Hmac] in
theorem validatePayloadOr422_ok {data : Members F} {payload : TelemetryPayload F} :
    validatePayloadOr422 data = .ok payload ↔ IntakeLibraries.modelValidate data = .ok payload := by
  unfold validatePayloadOr422
  cases IntakeLibraries.modelValidate data with
  | ok p => simp
  | error detail => cases IntakeLibraries.detailFault data <;> simp

/-- The ledger row pins a credential other than the caller's. -/
def pinsOther (row : IssuanceLedger) (deploymentSecretId : Json F) : Bool :=
  match row.deploymentSecretId, deploymentSecretId with
  | none, _ => false
  | some pinned, .str s => decide (pinned ≠ s)
  | some _, _ => true

/-- What `_ingest` answers. -/
structure Accepted where
  id : Nat
  licenseId : Str
  lastSeen : PyDateTime
  source : Str

def telemetryRow (payload : TelemetryPayload F) (deploymentSecretId : Str) (source : Str)
    (now : Instant) : TelemetryRecord F where
  id := 0
  licenseId := payload.licenseId
  deploymentSecretId := some deploymentSecretId
  lastSeen := payload.lastSeen
  receivedAt := now
  source := source
  activeEdition := payload.activeEdition
  activeModules := payload.activeModules
  moduleUsage := payload.moduleUsage
  showbackTotals := payload.showbackTotals
  overLicense := payload.overLicense

/-- The record of a payload. -/
def recordOf (db : Database F) (p : TelemetryPayload F) (deploymentSecretId source : Str) (now : Instant) :
    TelemetryRecord F :=
  { telemetryRow p deploymentSecretId source now with id := db.telemetry.length + 1 }

def persist (payload : TelemetryPayload F) (deploymentSecretId : Json F) (source : Str)
    (now : Instant) : Session F Accepted :=
  Session.withLedger payload.licenseId fun row =>
    match row with
    | none =>
      .ret (.error (httpException 404 (lit "unknown license_id: " ++ strRepr payload.licenseId)))
    | some row =>
      if pinsOther row deploymentSecretId then
        .ret (.error (httpException 403
          (lit "deployment_secret_id does not match the ledger row for this license")))
      else
        .attempt (secretKey deploymentSecretId) fun key =>
        Session.commitWith [.insertTelemetry (telemetryRow payload key source now)] fun id =>
          ⟨id, payload.licenseId, payload.lastSeen, source⟩

/-- `_ingest`, at time `now` and with the stack `json.loads` has left. -/
def ingest (nesting : Nat) (now : Instant) (raw : Bytes) (source : Str) : Session F Accepted :=
  .attempt (parseEnvelopeOr422 F nesting raw) fun envelope =>
  .attempt (canonicalPayloadBytes envelope.payload) fun signed =>
  verifyOr401 envelope.deploymentSecretId signed envelope.signature fun sid =>
  .attempt (validatePayloadOr422 envelope.payload) fun payload =>
  persist payload sid source now

/-- `POST /telemetry`. -/
def postTelemetry (nesting : Nat) (now : Instant) (raw : Bytes) : Session F Accepted :=
  ingest nesting now raw (lit "realtime")

/-- `POST /telemetry/upload`. -/
def uploadTelemetry (nesting : Nat) (now : Instant) (raw : Bytes) : Session F Accepted :=
  ingest nesting now raw (lit "offline-upload")

end Persist

end IsaCloud.Fleet
