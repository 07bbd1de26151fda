import IsaCloud.License.Config

/-!
# Signing a license

`license_sign.py`: the spec that the flags and an optional JSON file describe,
the signer's library call, and the text of the license file. The signer has a
canonical body of its own; the loader must reconstruct the same bytes. The
signature travels as base64 text.
-/

namespace IsaCloud.License

set_option autoImplicit false

open Support Support.Text Support.Python Support.DateTime Support.IsoTime Support.Encoding
  Support.Base64 Support.Json

section Sign
variable {F : Type} [PyFloat F] [Cryptography]

/-- `_canonical_body` of the signer. -/
def Signer.canonicalBody (obj : Members F) : Except PyError Bytes :=
  match Json.dumpsCanonical (.obj (obj.without signatureField)) with
  | .ok text => utf8Encode text
  | .error e => .error e

def signLicense (spec : Members F) (priv : Cryptography.PrivateKey) :
    Except PyError (Members F) :=
  let body := spec.without signatureField
  match Signer.canonicalBody body with
  | .error e => .error e
  | .ok bytes => .ok (body.set signatureField (.str (b64encode (Cryptography.sign priv bytes))))

/-- The text of the license file. -/
def renderLicense (signed : Members F) : Except PyError Str :=
  match Json.dumpsIndented (.obj signed) with
  | .ok text => .ok (text ++ [10])
  | .error e => .error e

end Sign

namespace Signer

/-- The flags of `sign` as argparse hands them over; its `type=int` converts no
more digits than the interpreter allows. -/
structure Args where
  spec : Option Str
  licenseId : Option Str
  customerId : Option Str
  edition : Option Str
  entitledModules : Option Str
  quotaTier : Option Str
  seats : Option Int
  notBefore : Option Str
  expiresAt : Option Str
  graceDays : Option Int
  seats_fits : ∀ n, seats = some n → (natText n.natAbs).length ≤ intMaxStrDigits
  graceDays_fits : ∀ n, graceDays = some n → (natText n.natAbs).length ≤ intMaxStrDigits

theorem unset_fits (n : Int) (h : none = some n) : (natText n.natAbs).length ≤ intMaxStrDigits := by
  cases h

/-- `_SIGNABLE_FIELDS`. -/
def signableFields : List Str :=
  [lit "license_id", lit "customer_id", lit "edition", lit "issued_at", lit "not_before",
    lit "expires_at", lit "grace_days", lit "entitled_modules", lit "quota_tier", lit "seats"]

def parseModules (value : Option Str) : Option (List Str) :=
  value.map fun v => ((v.splitOn comma).map strip).filter fun m => !m.isEmpty

section Build
variable {F : Type}

/-- `if val is not None: spec[key] = val`. -/
def overlay (spec : Members F) (key : String) (val : Option (Json F)) : Members F :=
  match val with
  | some v => spec.set (lit key) v
  | none => spec

/-- `spec.setdefault(key, default)`. -/
def setdefault (spec : Members F) (key : String) (default : Json F) : Members F :=
  match spec.get (lit key) with
  | some _ => spec
  | none => spec.set (lit key) default

/-- The flags over the values of the spec file. -/
def overlayFlags (args : Args) (spec : Members F) : Members F :=
  let spec := overlay spec "license_id" (args.licenseId.map .str)
  let spec := overlay spec "customer_id" (args.customerId.map .str)
  let spec := overlay spec "edition" (args.edition.map .str)
  let spec := overlay spec "not_before" (args.notBefore.map .str)
  let spec := overlay spec "expires_at" (args.expiresAt.map .str)
  let spec := overlay spec "quota_tier" (args.quotaTier.map .str)
  let spec := overlay spec "entitled_modules"
    ((parseModules args.entitledModules).map fun ms => .arr (ms.map .str))
  let spec := overlay spec "grace_days" (args.graceDays.map .int)
  overlay spec "seats" (args.seats.map .int)

variable [PyFloat F] [Unicode]

/-- `issued_at[:10]` as it appears in the default license id. -/
def issuedDay (issuedAt : Json F) : Except PyError Str :=
  match issuedAt with
  | .str s => .ok (s.take 10)
  | .arr xs => .ok (Json.arr (xs.take 10)).pyStr
  | .obj _ => .error ⟨.typeError, lit "unhashable type: 'slice'"⟩
  | j => .error ⟨.typeError, lit "'" ++ j.typeName ++ lit "' object is not subscriptable"⟩

def missingFields (spec : Members F) : List Str :=
  [lit "customer_id", lit "edition"].filter fun f =>
    match spec.get f with
    | some v => !v.truthy
    | none => true

def unknownFields (spec : Members F) : List Str :=
  spec.keys.filter fun k => !signableFields.contains k

def validateSpec (spec : Members F) : Except PyError Unit :=
  if missingFields spec ≠ [] then
    .error ⟨.valueError, lit "spec missing required field(s): " ++ joinComma (missingFields spec) ++
      lit " (provide via --spec or flags)"⟩
  else
    match (spec.get (lit "entitled_modules")).getD (.arr []) with
    | .arr _ =>
      if unknownFields spec ≠ [] then
        .error ⟨.valueError, lit "unknown spec field(s): " ++
          joinComma ((unknownFields spec).mergeSort strLe)⟩
      else .ok ()
    | _ => .error ⟨.valueError, lit "entitled_modules must be a JSON array"⟩

variable (F) in
/-- The object of the spec file, if one is named. -/
def loadSpec (file : Str → Option Bytes) (nesting : Nat) (path : Option Str) :
    Except PyError (Members F) :=
  match path with
  | none => .ok []
  | some path =>
    if path = [] then .ok []
    else
      match file path with
      | none => .error ⟨.osError, lit "cannot open spec file"⟩
      | some bytes =>
        match readText bytes with
        | .error e => .error e
        | .ok text =>
          match Json.loads nesting text with
          | .error e => .error e
          | .ok (.obj loaded) => .ok loaded
          | .ok _ => .error ⟨.valueError, lit "--spec must contain a JSON object"⟩

/-- The defaults for what neither the file nor a flag gives. The license id is
put together whether it is needed or not. -/
def fillDefaults (now : Instant) (spec : Members F) : Except PyError (Members F) :=
  let spec := setdefault spec "issued_at" (.str (isoText now))
  let issuedAt := (spec.get (lit "issued_at")).getD .null
  let spec := setdefault spec "not_before" issuedAt
  let spec := setdefault spec "grace_days" (.int 0)
  let spec := setdefault spec "seats" (.int (-1))
  let spec := setdefault spec "entitled_modules" (.arr [])
  match issuedDay issuedAt with
  | .error e => .error e
  | .ok day => .ok (setdefault spec "license_id"
      (.str (((spec.get (lit "customer_id")).getD (.str (lit "lic"))).pyStr ++ lit "-" ++ day)))

variable (F) in
def buildSpec (file : Str → Option Bytes) (now : Instant) (nesting : Nat) (args : Args) :
    Except PyError (Members F) :=
  match loadSpec F file nesting args.spec with
  | .error e => .error e
  | .ok loaded =>
    match fillDefaults now (overlayFlags args loaded) with
    | .error e => .error e
    | .ok filled =>
      let spec := filled.without signatureField
      match validateSpec spec with
      | .error e => .error e
      | .ok () => .ok spec

end Build

end Signer

end IsaCloud.License
