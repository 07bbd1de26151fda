import IsaCloud.Quota.Scripts
import IsaCloud.Support.Runs

/-!
# The quota enforcer

The methods of `QuotaEnforcer` as processes against the Redis server: each
sends the commands the source sends, in its order, and treats an error reply as
the source treats the driver's exception. `now` is the client's clock, read once
per call.
-/

namespace IsaCloud.Quota

set_option autoImplicit false

open Support Support.Text Support.Python Support.DateTime

structure QuotaEnforcer where
  keyPrefix : Str
  failOpen : Bool

abbrev Client (α : Type) := Proc Cmd Reply (Except PyError α)

namespace QuotaEnforcer

/-- `__init__`: trailing colons of the prefix are dropped. -/
def init (keyPrefix : Str) (failOpen : Bool) : QuotaEnforcer :=
  ⟨(keyPrefix.reverse.dropWhile (· == cp ':')).reverse, failOpen⟩

def windowBucket (qt : QuotaType) (now : Instant) : Str :=
  match qt with
  | .tokensPerHour => hourStamp now
  | .gpuMinutesPerDay => dateStamp now
  | .mcpCallsPerDay => dateStamp now
  | .rayWorkers => lit "gauge"

def key (e : QuotaEnforcer) (organizationId : Str) (qt : QuotaType) (now : Instant) : Str :=
  e.keyPrefix ++ lit ":" ++ organizationId ++ lit ":" ++ qt.value ++ lit ":" ++ windowBucket qt now

def secondsUntilWindowReset (qt : QuotaType) (now : Instant) : Nat :=
  match qt with
  | .tokensPerHour => max 1 (3600 - (minuteOf now * 60 + secondOf now))
  | .gpuMinutesPerDay => max 1 (86400 - (hourOf now * 3600 + minuteOf now * 60 + secondOf now))
  | .mcpCallsPerDay => max 1 (86400 - (hourOf now * 3600 + minuteOf now * 60 + secondOf now))
  | .rayWorkers => 0

def validate (organizationId : Str) (amount : Int) : Except PyError Unit :=
  if organizationId = [] then
    .error ⟨.valueError, lit "organization_id must be a non-empty string"⟩
  else if amount < 0 then
    .error ⟨.valueError, lit "amount must be >= 0, got " ++ intText amount⟩
  else .ok ()

def upgradeHint (tier : Str) : Str :=
  if lower tier = lit "free" then lit " Upgrade to the Pro tier for a higher limit."
  else if lower tier = lit "pro" then lit " Upgrade to the Enterprise tier for a higher limit."
  else []

def blockedMessage (qt : QuotaType) (tier : Str) (limit used : Int) (retryAfter : Option Nat) :
    Str :=
  lit "Quota exceeded for '" ++ qt.value ++ lit "' on the " ++ tier ++ lit " tier (" ++
    intText used ++ lit "/" ++ intText limit ++ lit " used)." ++
    (if qt.isConcurrency then lit " The limit frees up when a worker slot is released."
     else lit " The quota resets at " ++ qt.resetLabel ++ lit " (in ~" ++
       natText (retryAfter.getD 0) ++ lit "s).") ++
    upgradeHint tier

def unlimitedDecision (qt : QuotaType) (tier : TierQuota) (amount : Int) : QuotaDecision where
  allowed := true
  quotaType := qt
  tier := tier.tier
  limit := unlimited
  used := 0
  requested := amount
  unlimited := true
  message := lit "Unlimited quota — enforcement disabled."

def degradedDecision (e : QuotaEnforcer) (qt : QuotaType) (tier : TierQuota) (limit amount : Int) :
    QuotaDecision where
  allowed := e.failOpen
  quotaType := qt
  tier := tier.tier
  limit := limit
  used := 0
  requested := amount
  degraded := true
  message := lit "Quota backend unavailable — " ++
    (if e.failOpen then lit "allowing request (fail-open)."
     else lit "blocking request (fail-closed).")

/-- The decision both gates build once Redis has answered. -/
def decision (now : Instant) (qt : QuotaType) (tier : TierQuota) (limit amount : Int)
    (allowed : Bool) (used : Int) : QuotaDecision :=
  let retryAfter := if allowed then none else some (secondsUntilWindowReset qt now)
  { allowed := allowed
    quotaType := qt
    tier := tier.tier
    limit := limit
    used := used
    requested := amount
    message := if allowed then [] else blockedMessage qt tier.tier limit used retryAfter
    retryAfterSeconds := retryAfter }

/-- `check` after the `GET`. -/
def afterGet (e : QuotaEnforcer) (now : Instant) (qt : QuotaType) (tier : TierQuota)
    (amount : Int) : Reply → Client QuotaDecision
  | .bulk raw =>
    let limit := tier.quota qt
    let used := raw.getD 0
    .ret (.ok (decision now qt tier limit amount (decide (used + amount ≤ limit)) used))
  | _ => .ret (.ok (e.degradedDecision qt tier (tier.quota qt) amount))

def check (e : QuotaEnforcer) (now : Instant) (tier : TierQuota) (organizationId : Str)
    (quotaType : QuotaKey) (amount : Int) : Client QuotaDecision :=
  .attempt (coerceQuotaType quotaType) fun qt =>
  .attempt (validate organizationId amount) fun _ =>
  if tier.quota qt = unlimited then .ret (.ok (unlimitedDecision qt tier amount))
  else .call (.get (e.key organizationId qt now)) (e.afterGet now qt tier amount)

def consumeScript (qt : QuotaType) : Script :=
  if qt.isConcurrency then .gaugeAcquire else .windowedConsume

/-- `check_and_consume` after the `EVAL`. -/
def afterConsume (e : QuotaEnforcer) (now : Instant) (qt : QuotaType) (tier : TierQuota)
    (amount : Int) : Reply → Client QuotaDecision
  | .array (allowed :: used :: _) =>
    .ret (.ok (decision now qt tier (tier.quota qt) amount (decide (allowed ≠ 0)) used))
  | _ => .ret (.ok (e.degradedDecision qt tier (tier.quota qt) amount))

def checkAndConsume (e : QuotaEnforcer) (now : Instant) (tier : TierQuota) (organizationId : Str)
    (quotaType : QuotaKey) (amount : Int) : Client QuotaDecision :=
  .attempt (coerceQuotaType quotaType) fun qt =>
  .attempt (validate organizationId amount) fun _ =>
  if tier.quota qt = unlimited then .ret (.ok (unlimitedDecision qt tier amount))
  else .call (.eval (consumeScript qt) (e.key organizationId qt now) amount (tier.quota qt)
    qt.windowSeconds) (e.afterConsume now qt tier amount)

/-- What `enforce` can raise: its own error, or one of the gate's. -/
inductive EnforceError where
  | quotaExceeded (decision : QuotaDecision)
  | raised (e : PyError)
  deriving DecidableEq, Repr

/-- `enforce` after the gate. -/
def afterGate : Except PyError QuotaDecision → Except EnforceError QuotaDecision
  | .ok decision =>
    if !decision.allowed && !decision.degraded then .error (.quotaExceeded decision) else .ok decision
  | .error e => .error (.raised e)

def enforce (e : QuotaEnforcer) (now : Instant) (tier : TierQuota) (organizationId : Str)
    (quotaType : QuotaKey) (amount : Int) : Proc Cmd Reply (Except EnforceError QuotaDecision) :=
  (e.checkAndConsume now tier organizationId quotaType amount).map afterGate

/-- The fallback of `qt.window_seconds or 86400`. -/
def partialTtl (qt : QuotaType) : Nat := if qt.windowSeconds = 0 then 86400 else qt.windowSeconds

/-- `consume_partial` after the `EVAL`. -/
def afterPartial (e : QuotaEnforcer) (qt : QuotaType) (tier : TierQuota) (amount : Int) :
    Reply → Client PartialConsumption
  | .array (_ :: granted :: used :: _) =>
    .ret (.ok ⟨qt, tier.tier, amount, granted, tier.quota qt, used, false⟩)
  | _ =>
    .ret (.ok ⟨qt, tier.tier, amount, if e.failOpen then amount else 0, tier.quota qt, 0, true⟩)

def consumePartial (e : QuotaEnforcer) (now : Instant) (tier : TierQuota) (organizationId : Str)
    (quotaType : QuotaKey) (amount : Int) : Client PartialConsumption :=
  .attempt (coerceQuotaType quotaType) fun qt =>
  .attempt (validate organizationId amount) fun _ =>
  if tier.quota qt = unlimited then .ret (.ok ⟨qt, tier.tier, amount, amount, unlimited, 0, false⟩)
  else .call (.eval .partialConsume (e.key organizationId qt now) amount (tier.quota qt)
    (partialTtl qt)) (e.afterPartial qt tier amount)

/-- `release` after the clamp. -/
def afterClamp : Reply → Client Bool
  | .ok => .ret (.ok true)
  | _ => .ret (.ok false)

/-- `release` after the `DECRBY`: below zero, a second command clamps the gauge. -/
def afterDecr (key : Str) : Reply → Client Bool
  | .int remaining =>
    if remaining < 0 then .call (.set key 0) afterClamp else .ret (.ok true)
  | _ => .ret (.ok false)

def release (e : QuotaEnforcer) (now : Instant) (tier : TierQuota) (organizationId : Str)
    (quotaType : QuotaKey) (amount : Int) : Client Bool :=
  .attempt (coerceQuotaType quotaType) fun qt =>
  .attempt (validate organizationId amount) fun _ =>
  if !qt.isConcurrency then .ret (.ok false)
  else if tier.isUnlimited qt then .ret (.ok true)
  else .call (.decrBy (e.key organizationId qt now) amount) (afterDecr (e.key organizationId qt now))

def usageDecision (tier : TierQuota) (qt : QuotaType) (raw : Option Int) : QuotaDecision :=
  let limit := tier.quota qt
  let used := raw.getD 0
  { allowed := decide (limit = unlimited) || decide (used ≤ limit)
    quotaType := qt
    tier := tier.tier
    limit := limit
    used := used
    requested := 0
    unlimited := decide (limit = unlimited) }

def getUsage (e : QuotaEnforcer) (now : Instant) (tier : TierQuota) (organizationId : Str) :
    Client (List QuotaDecision) :=
  .attempt (validate organizationId 0) fun _ =>
  .call (.mget (QuotaType.all.map fun qt => e.key organizationId qt now)) fun
    | .bulks raws => .ret (.ok (QuotaType.all.zipWith (usageDecision tier) raws))
    | _ => .ret (.ok (QuotaType.all.map fun qt => usageDecision tier qt none))

/-! ## A valid call is its first command -/

section Calls
variable {e : QuotaEnforcer} {now : Instant} {tier : TierQuota} {org : Str} {qt : QuotaType}
  {amount : Int}

theorem validate_ok (horg : org ≠ []) (ha : 0 ≤ amount) : validate org amount = .ok () := by
  simp [validate, horg, Int.not_lt.mpr ha]

theorem check_eq_call (horg : org ≠ []) (ha : 0 ≤ amount) (hfin : tier.quota qt ≠ unlimited) :
    e.check now tier org (.inl qt) amount =
      .call (.get (e.key org qt now)) (e.afterGet now qt tier amount) := by
  simp [check, coerceQuotaType, validate_ok horg ha, hfin]

theorem checkAndConsume_eq_call (horg : org ≠ []) (ha : 0 ≤ amount)
    (hfin : tier.quota qt ≠ unlimited) :
    e.checkAndConsume now tier org (.inl qt) amount =
      .call (.eval (consumeScript qt) (e.key org qt now) amount (tier.quota qt) qt.windowSeconds)
        (e.afterConsume now qt tier amount) := by
  simp [checkAndConsume, coerceQuotaType, validate_ok horg ha, hfin]

theorem consumePartial_eq_call (horg : org ≠ []) (ha : 0 ≤ amount)
    (hfin : tier.quota qt ≠ unlimited) :
    e.consumePartial now tier org (.inl qt) amount =
      .call (.eval .partialConsume (e.key org qt now) amount (tier.quota qt) (partialTtl qt))
        (e.afterPartial qt tier amount) := by
  simp [consumePartial, coerceQuotaType, validate_ok horg ha, hfin]

theorem release_eq_call (horg : org ≠ []) (ha : 0 ≤ amount)
    (hfin : tier.quota .rayWorkers ≠ unlimited) :
    e.release now tier org (.inl .rayWorkers) amount =
      .call (.decrBy (e.key org .rayWorkers now) amount) (afterDecr (e.key org .rayWorkers now)) := by
  simp [release, coerceQuotaType, validate_ok horg ha, hfin, QuotaType.isConcurrency,
    TierQuota.isUnlimited]

/-- A release that does not take the gauge below zero is one command. -/
theorem release_exec {redis redis' : Redis} {remaining : Int} (horg : org ≠ []) (ha : 0 ≤ amount)
    (hfin : tier.quota .rayWorkers ≠ unlimited)
    (hdecr : redis.decrBy (e.key org .rayWorkers now) amount = some (redis', remaining))
    (hnn : 0 ≤ remaining) :
    (e.release now tier org (.inl .rayWorkers) amount).exec serve redis = (redis', .ok true) := by
  rw [release_eq_call horg ha hfin, Proc.exec_call]
  simp only [serve, hdecr]
  rw [afterDecr, if_neg (Int.not_lt.mpr hnn), Proc.exec_ret]

end Calls

end QuotaEnforcer

end IsaCloud.Quota
