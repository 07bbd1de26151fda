import IsaCloud.Support.Base64
import IsaCloud.Support.IsoTime
import IsaCloud.Support.JsonOrder
import IsaCloud.Support.PyJson
import IsaCloud.Support.Python

/-!
# Loading a license

`license.py`: the fields of a license file, the check of its signature over the
canonical body, the edition and time window, and the configuration a process
ends up with. The cryptography package is the parameter `Cryptography`. What
`from_env` lets escape (a timestamp that is not text, an infinite number of
seats, modules that cannot be iterated, a date out of range) is an exception of
the model too; log lines are left out. One limit bounds the nesting that the
JSON reader, the JSON writer and `repr` accept.
-/

/-! ## The running edition

`edition.py`: the three editions, the features each turns on, and how the
environment selects one. An unset, blank or unknown `ISA_EDITION` is
on-prem-lite; a feature flag that is not a recognised word keeps the edition's
default.
-/

namespace IsaCloud.License

set_option autoImplicit false

open Support.Text Support.Python

inductive EditionType where
  | saas
  | onPremFull
  | onPremLite
  deriving DecidableEq, Repr

namespace EditionType

def value : EditionType → Str
  | saas => lit "saas"
  | onPremFull => lit "on-prem-full"
  | onPremLite => lit "on-prem-lite"

def all : List EditionType := [saas, onPremFull, onPremLite]

/-- `EditionType(raw)`. -/
def ofValue (raw : Str) : Option EditionType := all.find? fun e => e.value == raw

end EditionType

structure EditionConfig where
  edition : EditionType
  bigdataEnabled : Bool
  meteringEnabled : Bool
  chargingEnabled : Bool
  multiTenant : Bool
  deriving DecidableEq, Repr

def editionDefaults : EditionType → EditionConfig
  | .saas => ⟨.saas, false, true, true, true⟩
  | .onPremFull => ⟨.onPremFull, true, true, false, false⟩
  | .onPremLite => ⟨.onPremLite, false, true, false, false⟩

def parseBool (value : Option Str) : Option Bool :=
  match value with
  | none => none
  | some v =>
    let token := lower (strip v)
    if token ∈ [lit "true", lit "1", lit "yes"] then some true
    else if token ∈ [lit "false", lit "0", lit "no"] then some false
    else none

namespace EditionConfig
variable (getenv : Str → Option Str)

def selected : EditionType :=
  (EditionType.ofValue (lower (strip ((getenv (lit "ISA_EDITION")).getD [])))).getD .onPremLite

def resolve (fallback : Bool) (envVar : Str) : Bool := (parseBool (getenv envVar)).getD fallback

def fromEnv : EditionConfig :=
  let defaults := editionDefaults (selected getenv)
  { edition := selected getenv
    bigdataEnabled := resolve getenv defaults.bigdataEnabled (lit "ISA_BIGDATA_ENABLED")
    meteringEnabled := resolve getenv defaults.meteringEnabled (lit "ISA_METERING_ENABLED")
    chargingEnabled := resolve getenv defaults.chargingEnabled (lit "ISA_CHARGING_ENABLED")
    multiTenant := resolve getenv defaults.multiTenant (lit "ISA_MULTI_TENANT") }

end EditionConfig

/-- Normalising the name of an edition leaves it alone. -/
theorem normalized_value (e : EditionType) : lower (strip e.value) = e.value := by
  cases e <;> decide

theorem ofValue_value (e : EditionType) : EditionType.ofValue e.value = some e := by
  cases e <;> decide

theorem selected_of_value {getenv : Str → Option Str} {e : EditionType}
    (h : getenv (lit "ISA_EDITION") = some e.value) : EditionConfig.selected getenv = e := by
  rw [EditionConfig.selected, h, Option.getD_some, normalized_value, ofValue_value, Option.getD_some]

end IsaCloud.License

namespace IsaCloud.License

set_option autoImplicit false

open Support Support.Text Support.Python Support.DateTime Support.IsoTime Support.Encoding
  Support.Base64

class Cryptography where
  PublicKey : Type
  PrivateKey : Type
  /-- `none` is a key of another kind than ed25519. -/
  loadPemPublicKey : Bytes → Except PyError (Option PublicKey)
  loadPemPrivateKey : Bytes → Except PyError (Option PrivateKey)
  publicKey : PrivateKey → PublicKey
  publicPem : PublicKey → Str
  sign : PrivateKey → Bytes → Bytes
  verify : PublicKey → Bytes → Bytes → Bool

/-- A scheme with one key, to evaluate on: a signature is the message behind a zero byte. -/
@[reducible] def mirrorCryptography : Cryptography where
  PublicKey := Unit
  PrivateKey := Unit
  loadPemPublicKey pem :=
    if pem = (lit "PEM").flatMap encodePoint then .ok (some ())
    else .error ⟨.valueError, lit "Unable to load PEM file."⟩
  loadPemPrivateKey pem :=
    if pem = (lit "KEY").flatMap encodePoint then .ok (some ())
    else .error ⟨.valueError, lit "Unable to load PEM file."⟩
  publicKey _ := ()
  publicPem _ := lit "PEM"
  sign _ message := 0 :: message
  verify _ signature message := signature == 0 :: message

inductive LicenseStatus where
  | valid
  | grace
  | expired
  | invalid
  | unlicensed
  deriving DecidableEq, Repr

def LicenseStatus.value : LicenseStatus → Str
  | valid => lit "valid"
  | grace => lit "grace"
  | expired => lit "expired"
  | invalid => lit "invalid"
  | unlicensed => lit "unlicensed"

/-- A trailing `Z` or `z` spelled as an offset. -/
def spellZulu (text : Str) : Str :=
  match text.reverse with
  | c :: rest => if c = cp 'Z' ∨ c = cp 'z' then rest.reverse ++ lit "+00:00" else text
  | [] => text

/-- A naive datetime is taken to be UTC, an aware one is moved there. -/
def toUtc (d : PyDateTime) : Except PyError Instant :=
  match d.offset with
  | none => .ok d.wall
  | some offset => astimezone d.wall offset

section Fields
variable {F : Type} [PyFloat F]

def parseTs (value : Option (Json F)) : Except PyError (Option Instant) :=
  match value with
  | none => .ok none
  | some j =>
    if j.truthy = false then .ok none
    else
      match j with
      | .str s =>
        match fromisoformat (spellZulu (strip s)) with
        | .error e => if e.kind.isValueError then .ok none else .error e
        | .ok d =>
          match toUtc d with
          | .ok t => .ok (some t)
          | .error e => .error e
      | _ => .error ⟨.attributeError, lit "'" ++ j.typeName ++ lit "' object has no attribute 'strip'"⟩

def signatureField : Str := lit "signature"

def canonicalBody (obj : Members F) : Except PyError Bytes :=
  match Json.dumpsCanonical (.obj (obj.without signatureField)) with
  | .ok text => utf8Encode text
  | .error e => .error e

def maxDeltaDays : Int := 999999999

/-- `expires_at + timedelta(days=max(grace_days, 0))`. -/
def graceEnd (expiresAt : Instant) (graceDays : Int) : Except PyError Instant :=
  if maxDeltaDays < max graceDays 0 then
    .error ⟨.overflowError, lit "days=" ++ intText (max graceDays 0) ++
      lit "; must have magnitude <= 999999999"⟩
  else checkInstant (expiresAt + max graceDays 0 * usPerDay)

def deriveTimeStatus (expiresAt : Option Instant) (graceDays : Int) (now : Instant) :
    Except PyError LicenseStatus :=
  match expiresAt with
  | none => .ok .valid
  | some e =>
    if now ≤ e then .ok .valid
    else
      match graceEnd e graceDays with
      | .error err => .error err
      | .ok g => .ok (if now ≤ g then .grace else .expired)

structure LicenseConfig where
  status : LicenseStatus
  customerId : Str
  edition : Str
  expiresAt : Option Instant
  graceDays : Int
  entitledModules : Finset Str
  quotaTier : Option Str
  seats : Int
  deriving DecidableEq

namespace LicenseConfig

def isEntitled (c : LicenseConfig) (moduleKey : Str) : Bool := decide (moduleKey ∈ c.entitledModules)

def isTerminal (s : LicenseStatus) : Bool := decide (s = .invalid ∨ s = .unlicensed)

def currentStatus (c : LicenseConfig) (now : Instant) : Except PyError LicenseStatus :=
  if isTerminal c.status then .ok c.status else deriveTimeStatus c.expiresAt c.graceDays now

def unlicensed : LicenseConfig := ⟨.unlicensed, [], [], none, 0, ∅, none, 0⟩

/-- The defaults of `invalid`: nothing is known of the file. -/
def invalid : LicenseConfig := ⟨.invalid, [], [], none, 0, ∅, none, 0⟩

end LicenseConfig

/-- What `from_env` takes from the object before it checks anything. -/
structure Fields where
  customerId : Str
  edition : Str
  expiresAt : Option Instant
  notBefore : Option Instant
  graceDays : Int
  seats : Int
  quotaTier : Option Str
  entitledModules : Finset Str
  deriving DecidableEq

variable [Unicode]

/-- `int(obj.get(key, 0))`, zero for a value that is no number. -/
def intField (obj : Members F) (key : String) : Except PyError Int :=
  match ((obj.get (lit key)).getD (.int 0)).pyInt with
  | .ok n => .ok n
  | .error e => if e.kind = .typeError ∨ e.kind.isValueError = true then .ok 0 else .error e

def strField (obj : Members F) (key : String) : Str :=
  ((obj.get (lit key)).getD (.str [])).pyStr

/-- `obj.get("entitled_modules") or []`. -/
def rawModules (obj : Members F) : Json F :=
  match obj.get (lit "entitled_modules") with
  | none => .arr []
  | some j => if j.truthy then j else .arr []

def quotaTierField (obj : Members F) : Option Str :=
  match obj.get (lit "quota_tier") with
  | none => none
  | some .null => none
  | some j => some j.pyStr

def extractFields (obj : Members F) : Except PyError Fields :=
  match parseTs (obj.get (lit "expires_at")) with
  | .error e => .error e
  | .ok expiresAt =>
    match parseTs (obj.get (lit "not_before")) with
    | .error e => .error e
    | .ok notBefore =>
      match intField obj "grace_days" with
      | .error e => .error e
      | .ok graceDays =>
        match intField obj "seats" with
        | .error e => .error e
        | .ok seats =>
          match (rawModules obj).strItems with
          | .error e => .error e
          | .ok modules => .ok
            { customerId := strField obj "customer_id"
              edition := strField obj "edition"
              expiresAt := expiresAt
              notBefore := notBefore
              graceDays := graceDays
              seats := seats
              quotaTier := quotaTierField obj
              entitledModules := modules.toFinset }

/-- `_invalid()`: the metadata of the file without its modules. -/
def Fields.invalid (f : Fields) : LicenseConfig :=
  ⟨.invalid, f.customerId, f.edition, f.expiresAt, f.graceDays, ∅, f.quotaTier, f.seats⟩

def Fields.accepted (f : Fields) (status : LicenseStatus) : LicenseConfig :=
  ⟨status, f.customerId, f.edition, f.expiresAt, f.graceDays, f.entitledModules, f.quotaTier,
    f.seats⟩

end Fields

/-- What a process sees: its environment, the files, the clock, the edition it
has resolved already, and how deep its stack lets it recurse. -/
structure Environment where
  getenv : Str → Option Str
  /-- `none` is no regular file, `some none` one that cannot be read. -/
  file : Str → Option (Option Bytes)
  now : Instant
  resolvedEdition : Option EditionConfig
  nesting : Nat
  nesting_pos : 2 ≤ nesting

namespace Environment

/-- The shallowest stack an environment may have. -/
theorem least_nesting : 2 ≤ 2 := Nat.le_refl 2

def getEdition (env : Environment) : EditionConfig :=
  env.resolvedEdition.getD (EditionConfig.fromEnv env.getenv)

/-- The content of the license file, if `ISA_LICENSE_FILE` names a file. -/
def licenseFile (env : Environment) : Option (Option Bytes) :=
  match env.getenv (lit "ISA_LICENSE_FILE") with
  | none => none
  | some path => if path = [] then none else env.file path

def publicPem (env : Environment) : Option Str := env.getenv (lit "ISA_LICENSE_PUBKEY")

end Environment

section Loader
variable (F : Type) [PyFloat F]

/-- Opening and parsing the license file. -/
def readLicense (nesting : Nat) (content : Option Bytes) : Except PyError (Members F) :=
  match content with
  | none => .error ⟨.osError, lit "cannot read license file"⟩
  | some bs =>
    match readText bs with
    | .error e => .error e
    | .ok text =>
      match Json.loads nesting text with
      | .error e => .error e
      | .ok (.obj obj) => .ok obj
      | .ok _ => .error ⟨.valueError, lit "license root is not a JSON object"⟩

variable {F} [Cryptography]

/-- The signature check as a whole: PEM, kind of key, base64, ed25519. -/
def signatureVerifies (pem : Str) (signature : Json F) (obj : Members F) : Bool :=
  match utf8Encode pem with
  | .error _ => false
  | .ok pemBytes =>
    match Cryptography.loadPemPublicKey pemBytes with
    | .error _ => false
    | .ok none => false
    | .ok (some key) =>
      match signature with
      | .str s =>
        match b64decode s, canonicalBody obj with
        | .ok sig, .ok body => Cryptography.verify key sig body
        | _, _ => false
      | _ => false

/-- The part of `from_env` after the fields are extracted. -/
def judge (env : Environment) (obj : Members F) (f : Fields) : Except PyError LicenseConfig :=
  match obj.get signatureField, env.publicPem with
  | some signature, some pem =>
    if signature.truthy = false ∨ pem = [] then .ok f.invalid
    else if signatureVerifies pem signature obj = false then .ok f.invalid
    else if f.edition ≠ env.getEdition.edition.value then .ok f.invalid
    else if ∃ nb, f.notBefore = some nb ∧ env.now < nb then .ok f.invalid
    else
      match deriveTimeStatus f.expiresAt f.graceDays env.now with
      | .ok status => .ok (f.accepted status)
      | .error e => .error e
  | _, _ => .ok f.invalid

variable [Unicode]

variable (F) in
/-- `LicenseConfig.from_env()`. -/
def fromEnv (env : Environment) : Except PyError LicenseConfig :=
  match env.licenseFile with
  | none => .ok .unlicensed
  | some content =>
    match readLicense F env.nesting content with
    | .error e => if e.kind = .osError ∨ e.kind.isValueError = true then .ok .invalid else .error e
    | .ok obj =>
      match extractFields obj with
      | .error e => .error e
      | .ok f => judge env obj f

end Loader

end IsaCloud.License

/-! ## License files

What a license file holds after it was read, and that an object written as
compact JSON is read back as it is. The canonical body depends only on the
sorted form of the object without its signature.
-/

namespace IsaCloud.License

set_option autoImplicit false

open Support Support.Text Support.Python Support.Encoding Support.Json

variable {F : Type} [PyFloat F]

/-- The object of a license file has distinct keys and bounded nesting. -/
theorem readLicense_bounded {nesting : Nat} {content : Option Bytes} {obj : Members F}
    (h : readLicense F nesting content = .ok obj) : Bounded nesting (.obj obj) := by
  unfold readLicense at h
  split at h
  · cases h
  · split at h
    · cases h
    · rename_i text htext
      split at h
      · cases h
      · rename_i obj' hload
        cases h
        exact loads_bounded hload (readText_plain htext)
      · cases h

theorem utf8Encode_printable {s : Str} (h : Printable s) :
    utf8Encode s = .ok (s.flatMap encodePoint) :=
  utf8Encode_ascii (ascii_of_printable h)

/-- The object as compact JSON, in bytes. -/
def writeJson (j : Json F) : Bytes := (compact j).flatMap encodePoint

theorem readLicense_writeJson [LawfulPyFloat F] {nesting : Nat} {obj : Members F}
    (h : Bounded nesting (.obj obj)) :
    readLicense F nesting (some (writeJson (.obj obj))) = .ok obj := by
  have hprint := printable_compact (Json.obj obj)
  have hcr : (13 : CodePoint) ∉ compact (Json.obj obj) := by
    intro hmem
    exact absurd (hprint _ hmem) (by decide)
  have htext := readText_of_encode (utf8Encode_printable hprint) hcr
  simp only [readLicense, writeJson, htext, loads_compact h.1 h.2]

theorem canonicalBody_of_wf {obj : Members F} (h : WF (.obj obj)) :
    canonicalBody obj = utf8Encode (canonical (.obj (obj.without signatureField))) := by
  have hfit := intsFit_of_wf _ (wf_without h signatureField)
  simp only [canonicalBody, dumpsCanonical, hfit, if_true]

theorem canonicalBody_ok [LawfulPyFloat F] {obj : Members F} (h : WF (.obj obj)) :
    ∃ body, canonicalBody obj = .ok body :=
  ⟨_, (canonicalBody_of_wf h).trans (utf8Encode_printable (printable_compact _))⟩

/-- Equal canonical bodies hold the same values up to the order of members. -/
theorem get_of_canonicalBody_eq [LawfulPyFloat F] {obj obj' : Members F} (hwf : WF (.obj obj))
    (hwf' : WF (.obj obj')) (h : canonicalBody obj' = canonicalBody obj) {k : Str}
    (hk : k ≠ signatureField) : (obj'.get k).map sorted = (obj.get k).map sorted := by
  obtain ⟨body, hbody⟩ := canonicalBody_ok hwf
  have hbody' := h.trans hbody
  rw [canonicalBody_of_wf hwf] at hbody
  rw [canonicalBody_of_wf hwf'] at hbody'
  have htext := utf8Encode_injective hbody' hbody
  have hw := wf_without hwf signatureField
  have hw' := wf_without hwf' signatureField
  have hsorted := sorted_of_canonical_eq hw' hw htext
  have := get_of_sorted_eq hw'.1 hsorted k
  rwa [Members.get_without hk, Members.get_without hk] at this

/-- Reordering inside one field leaves the canonical body alone. -/
theorem canonicalBody_set {obj : Members F} {k : Str} {j j' : Json F} (hwf : WF (.obj obj))
    (hwf' : WF (.obj (obj.set k j'))) (hk : k ≠ signatureField) (hget : obj.get k = some j)
    (h : j'.sorted = j.sorted) : canonicalBody (obj.set k j') = canonicalBody obj := by
  have hget' : (obj.without signatureField).get k = some j := by
    rw [Members.get_without hk, hget]
  have hm := Members.sortedMembers_set hget' h
  rw [canonicalBody_of_wf hwf, canonicalBody_of_wf hwf']
  simp only [canonical, sorted, Members.without_set hk, hm]

end IsaCloud.License
