import IsaCloud.Fleet.Models
import IsaCloud.Support.Encoding
import IsaCloud.Support.PyJson

/-!
# Telemetry credentials

`telemetry_credential.py`: minting the id and the secret of a deployment, and
the HMAC that authenticates its telemetry. The hash is the parameter `Hmac`; the
random tokens are drawn by the caller of the model.
-/

namespace IsaCloud.Fleet

set_option autoImplicit false

open Support Support.Text Support.Python Support.Encoding

structure TelemetryCredential where
  deploymentSecretId : Str
  secret : Str
  deriving DecidableEq, Repr

/-- What one call draws from `secrets`. -/
structure Tokens where
  /-- `token_hex(4)`. -/
  hex : Str
  /-- `token_urlsafe(32)`. -/
  urlsafe : Str
  deriving DecidableEq, Repr

section Mint
variable [Unicode]

def stripDashes (s : Str) : Str :=
  ((s.dropWhile (· == cp '-')).reverse.dropWhile (· == cp '-')).reverse

def slug (customerId : Str) : Str :=
  let text := stripDashes (customerId.flatMap fun c => if isAlnum c then lowerChar c else [cp '-'])
  if text = [] then lit "cust" else text

def newSecretId (customerId : Str) (tokens : Tokens) : Str :=
  lit "dep-" ++ slug customerId ++ lit "-" ++ tokens.hex

def mintCredential (customerId : Str) (tokens : Tokens) : TelemetryCredential :=
  ⟨newSecretId customerId tokens, tokens.urlsafe⟩

end Mint

/-- The row `persist_credential` adds to the session. -/
def persistCredential (cred : TelemetryCredential) (customerId : Str) (licenseId : Option Str) :
    DeploymentSecret :=
  ⟨cred.deploymentSecretId, cred.secret, customerId, licenseId⟩

class Hmac where
  /-- HMAC-SHA256 in lower-case hexadecimal: key, message. -/
  hexdigest : Bytes → Bytes → Str

section Sign
variable [Hmac]

def signTelemetry (secret : Str) (payload : Bytes) : Except PyError Str :=
  match utf8Encode secret with
  | .ok key => .ok (Hmac.hexdigest key payload)
  | .error e => .error e

end Sign

end IsaCloud.Fleet
