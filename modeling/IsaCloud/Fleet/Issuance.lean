import IsaCloud.Fleet.Credential
import IsaCloud.License.Sign

/-!
# Issuing, renewing and revoking licenses

`issuance.py`. A call reads at most one ledger row, does everything else in
memory, and commits once; the artifact is answered only after the commit. The
clock and the random tokens of a call are its `Ambient`. The type of a request
makes the check that `entitled_modules` is a list unnecessary.
-/

namespace IsaCloud.Fleet

set_option autoImplicit false

open Support Support.Text Support.Python Support.DateTime Support.IsoTime Support.Encoding License

structure Ambient where
  now : Instant
  tokens : Tokens
  deriving DecidableEq, Repr

/-- A timestamp of a request: a datetime or ISO-8601 text. -/
inductive TimeArg where
  | datetime (d : PyDateTime)
  | text (s : Str)
  deriving DecidableEq, Repr

/-- A naive datetime is taken to be UTC. -/
def aware (d : PyDateTime) : PyDateTime := { d with offset := some (d.offset.getD 0) }

def parseTs (value : Option TimeArg) : Except PyError (Option PyDateTime) :=
  match value with
  | none => .ok none
  | some (.datetime d) => .ok (some (aware d))
  | some (.text s) =>
    match fromisoformat (spellZulu (strip s)) with
    | .ok d => .ok (some (aware d))
    | .error e => .error e

def iso (d : PyDateTime) : Except PyError Str :=
  match toUtc d with
  | .ok t => .ok (isoText t)
  | .error e => .error e

structure IssuanceRequest where
  customerId : Str
  edition : Str
  entitledModules : List Str := []
  quotaTier : Option Str := none
  expiresAt : Option TimeArg := none
  notBefore : Option TimeArg := none
  graceDays : Int := 0
  seats : Int := -1
  licenseId : Option Str := none
  delivery : Option Str := none
  deriving DecidableEq, Repr

/-- The signable body. -/
structure Spec where
  licenseId : Str
  customerId : Str
  edition : Str
  issuedAt : Str
  notBefore : Str
  graceDays : Int
  entitledModules : List Str
  quotaTier : Option Str
  seats : Int
  expiresAt : Option Str
  deriving DecidableEq, Repr

/-- The members in the order the dict has them. -/
def Spec.toMembers {F : Type} (spec : Spec) : Members F :=
  [(lit "license_id", .str spec.licenseId), (lit "customer_id", .str spec.customerId),
    (lit "edition", .str spec.edition), (lit "issued_at", .str spec.issuedAt),
    (lit "not_before", .str spec.notBefore), (lit "grace_days", .int spec.graceDays),
    (lit "entitled_modules", .arr (spec.entitledModules.map .str))] ++
  (match spec.quotaTier with
    | some tier => [(lit "quota_tier", .str tier)]
    | none => []) ++
  [(lit "seats", .int spec.seats)] ++
  (match spec.expiresAt with
    | some text => [(lit "expires_at", .str text)]
    | none => [])

def valueError (message : Str) : PyError := ⟨.valueError, message⟩

/-- `value or default`. -/
def orElse (value : Option Str) (default : Str) : Str :=
  match value with
  | some s => if s = [] then default else s
  | none => default

def buildSpec (req : IssuanceRequest) (issuedAt : Instant) : Except PyError Spec :=
  if req.customerId = [] ∨ req.edition = [] then
    .error (valueError (lit "issuance request requires customer_id and edition"))
  else
    match parseTs req.notBefore with
    | .error e => .error e
    | .ok notBefore =>
      match parseTs req.expiresAt with
      | .error e => .error e
      | .ok expires =>
        match iso (notBefore.getD ⟨issuedAt, some 0⟩), expires.mapM iso with
        | .ok notBeforeText, .ok expiresText => .ok
          { licenseId := orElse req.licenseId
              (req.customerId ++ lit "-" ++ (isoText issuedAt).take 10)
            customerId := req.customerId
            edition := req.edition
            issuedAt := isoText issuedAt
            notBefore := notBeforeText
            graceDays := req.graceDays
            entitledModules := req.entitledModules
            quotaTier := req.quotaTier
            seats := req.seats
            expiresAt := expiresText }
        | .error e, _ => .error e
        | _, .error e => .error e

structure IssuanceResult (F : Type) where
  license : Members F
  ledgerRow : IssuanceLedger
  credential : TelemetryCredential

section Service
variable (F : Type) [PyFloat F] [Cryptography] [Unicode]

/-- A timestamp of the spec as the ledger stores it. -/
def specInstant (text : Str) : Except PyError Instant :=
  match parseTs (some (.text text)) with
  | .ok (some d) => toUtc d
  | .ok none => .error (valueError (lit "missing timestamp"))
  | .error e => .error e

def loadPrivateKey (keyPem : Bytes) : Except PyError Cryptography.PrivateKey :=
  match Cryptography.loadPemPrivateKey keyPem with
  | .ok (some key) => .ok key
  | .ok none => .error (valueError (lit "signing key is not an ed25519 private key"))
  | .error e => .error e

/-- The key an `IssuanceService` is made with: an absent or empty PEM is no key. -/
def serviceKey (signingKeyPem : Option Bytes) : Except PyError (Option Cryptography.PrivateKey) :=
  match signingKeyPem with
  | none => .ok none
  | some pem => if pem = [] then .ok none else (loadPrivateKey pem).map some

def requireKey (priv : Option Cryptography.PrivateKey) : Except PyError Cryptography.PrivateKey :=
  match priv with
  | some key => .ok key
  | none => .error (valueError (lit "IssuanceService requires a signing key to issue/renew"))

/-- What `issue` and `renew` do between the spec and the commit: sign, mint, fill in the row. -/
def draft (ambient : Ambient) (priv : Option Cryptography.PrivateKey) (spec : Spec)
    (delivery : Option Str) : Except PyError (IssuanceResult F) :=
  match requireKey priv with
  | .error e => .error e
  | .ok key =>
    match signLicense spec.toMembers key with
    | .error e => .error e
    | .ok signed =>
      let cred := mintCredential spec.customerId ambient.tokens
      match specInstant spec.notBefore, spec.expiresAt.mapM specInstant with
      | .ok notBefore, .ok expiresAt => .ok
        { license := signed
          ledgerRow :=
            { licenseId := spec.licenseId
              customerId := spec.customerId
              edition := spec.edition
              entitledModules := spec.entitledModules
              quotaTier := spec.quotaTier
              issuedAt := ambient.now
              notBefore := notBefore
              expiresAt := expiresAt
              supersededBy := none
              delivery := delivery
              deploymentSecretId := some cred.deploymentSecretId
              revokedAt := none
              revokedReason := none }
          credential := cred }
      | .error e, _ => .error e
      | _, .error e => .error e

variable {F}

omit [Unicode] in
theorem requireKey_ok {priv : Option Cryptography.PrivateKey} {key : Cryptography.PrivateKey}
    (h : requireKey priv = .ok key) : priv = some key := by
  cases priv with
  | none => cases h
  | some k => rw [Except.ok.inj h]

/-- A draft is signed, and its row is filled from the spec. -/
theorem draft_ok {ambient : Ambient} {priv : Option Cryptography.PrivateKey} {spec : Spec}
    {delivery : Option Str} {result : IssuanceResult F}
    (h : draft F ambient priv spec delivery = .ok result) :
    ∃ key signed notBefore expiresAt, priv = some key ∧
      signLicense spec.toMembers key = .ok signed ∧
      specInstant spec.notBefore = .ok notBefore ∧
      spec.expiresAt.mapM specInstant = .ok expiresAt ∧
      result =
        { license := signed
          ledgerRow :=
            { licenseId := spec.licenseId
              customerId := spec.customerId
              edition := spec.edition
              entitledModules := spec.entitledModules
              quotaTier := spec.quotaTier
              issuedAt := ambient.now
              notBefore := notBefore
              expiresAt := expiresAt
              supersededBy := none
              delivery := delivery
              deploymentSecretId :=
                some (mintCredential spec.customerId ambient.tokens).deploymentSecretId
              revokedAt := none
              revokedReason := none }
          credential := mintCredential spec.customerId ambient.tokens } := by
  simp only [draft] at h
  split at h
  · cases h
  · rename_i key hkey
    split at h
    · cases h
    · rename_i signed hsigned
      split at h
      · rename_i notBefore expiresAt hnotBefore hexpiresAt
        exact ⟨key, signed, notBefore, expiresAt, requireKey_ok hkey, hsigned, hnotBefore,
          hexpiresAt, (Except.ok.inj h).symm⟩
      · cases h
      · cases h

/-- The rows a drafted license adds. -/
def IssuanceResult.writes (result : IssuanceResult F) : List (Write F) :=
  [.insertLedger result.ledgerRow,
    .insertSecret (persistCredential result.credential result.ledgerRow.customerId
      (some result.ledgerRow.licenseId))]

variable (F)

def issue (ambient : Ambient) (priv : Option Cryptography.PrivateKey) (req : IssuanceRequest) :
    Session F (IssuanceResult F) :=
  .attempt (buildSpec req ambient.now) fun spec =>
  .attempt (draft F ambient priv spec req.delivery) fun result =>
  Session.commitThen result.writes result

/-- The request with customer and edition carried forward from the prior row. -/
def carryForward (req : IssuanceRequest) (prior : IssuanceLedger) : IssuanceRequest :=
  { req with
    customerId := if req.customerId = [] then prior.customerId else req.customerId
    edition := if req.edition = [] then prior.edition else req.edition }

def alreadySuperseded (licenseId successor : Str) (advice : String) : PyError :=
  valueError (lit "license " ++ strRepr licenseId ++ lit " is already superseded by " ++
    strRepr successor ++ lit advice)

/-- The in-memory part of a renewal: everything between the read and the commit. -/
def prepareRenewal (ambient : Ambient) (priv : Option Cryptography.PrivateKey)
    (priorLicenseId : Str) (req : IssuanceRequest) (prior : IssuanceLedger) :
    Except PyError (IssuanceResult F) :=
  match prior.supersededBy with
  | some successor =>
    .error (alreadySuperseded priorLicenseId successor "; renew its successor instead")
  | none =>
    match buildSpec (carryForward req prior) ambient.now with
    | .error e => .error e
    | .ok spec =>
      if spec.licenseId = priorLicenseId then
        .error (valueError (lit "renewal license_id must differ from the prior license_id (" ++
          strRepr priorLicenseId ++ lit "); pass a distinct license_id"))
      else draft F ambient priv spec req.delivery

def renew (ambient : Ambient) (priv : Option Cryptography.PrivateKey) (priorLicenseId : Str)
    (req : IssuanceRequest) : Session F (IssuanceResult F) :=
  Session.withLedger priorLicenseId fun row =>
    match row with
    | none => .ret (.error (valueError (lit "unknown prior license_id: " ++ strRepr priorLicenseId)))
    | some prior =>
      .attempt (prepareRenewal F ambient priv priorLicenseId req prior) fun result =>
      Session.commitThen (result.writes ++ [.setSuperseded priorLicenseId result.ledgerRow.licenseId]) result

def issueLicense (ambient : Ambient) (signingKeyPem : Option Bytes) (req : IssuanceRequest) :
    Session F (IssuanceResult F) :=
  .attempt (serviceKey signingKeyPem) fun priv => issue F ambient priv req

def renewLicense (ambient : Ambient) (signingKeyPem : Option Bytes) (priorLicenseId : Str)
    (req : IssuanceRequest) : Session F (IssuanceResult F) :=
  .attempt (serviceKey signingKeyPem) fun priv => renew F ambient priv priorLicenseId req

end Service

section Revoke
variable (F : Type) [Unicode]

/-- The checks of `revoke` on the row it read. -/
def prepareRevocation (licenseId : Str) (row : IssuanceLedger) : Except PyError Unit :=
  match row.supersededBy with
  | some successor =>
    .error (alreadySuperseded licenseId successor "; revoke its successor instead")
  | none =>
    match row.revokedAt with
    | some _ => .error (valueError (lit "license " ++ strRepr licenseId ++ lit " is already revoked"))
    | none => .ok ()

/-- A column set to the value it was read with is not written. -/
def changed (old new : Option Str) : Option (Option Str) := if new = old then none else some new

def revoke (now : Instant) (licenseId : Str) (reason : Option Str) : Session F IssuanceLedger :=
  Session.withLedger licenseId fun row =>
    match row with
    | none => .ret (.error (valueError (lit "unknown license_id: " ++ strRepr licenseId)))
    | some row =>
      .attempt (prepareRevocation licenseId row) fun _ =>
      Session.commitThen [.setRevoked licenseId now (changed row.revokedReason reason)]
        (row.revoke now (some reason))

end Revoke

end IsaCloud.Fleet
