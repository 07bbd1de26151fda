import IsaCloud.Events.Billing
import IsaCloud.Support.SerdeText
import Mathlib.Algebra.Order.Field.Rat

/-!
# Billing events as JSON

`_serialize_event` writes a model with its `json_encoders`: an amount of the model
itself as a float, its timestamp by `isoformat()`. The components of a usage event
have no encoders, and write their amount as text. The constructors read each field
as pydantic does; what it makes of floats, decimals and dates enters as `Amounts`
and `Scalars`.
-/

namespace IsaCloud.Events

set_option autoImplicit false

open Support Support.Text Support.Python Support.Encoding Support.IsoTime Support.Json Support.Pydantic

class Amounts (F : Type) where
  /-- `float(v)`. -/
  ofDecimal : PyDecimal → F
  /-- The decimal of the shortest text of a float. -/
  toDecimal : F → PyDecimal
  /-- `str` of a decimal. -/
  decimalText : PyDecimal → Str
  /-- The decimal of a text. -/
  decimal : Str → Option PyDecimal
  /-- What pydantic writes for a datetime without an encoder. -/
  datetimeText : PyDateTime → Str

variable {F : Type} [SerdeFloat F] [Amounts F]

/-! ## Writing -/

/-- A float that is not finite is written as `null`. -/
def number (x : F) : Json F := if SerdeFloat.isFinite x then .float x else .null

mutual
/-- A value in JSON mode. -/
def jsonMode : PyValue F → Json F
  | .none => .null
  | .bool b => .bool b
  | .int n => .int n
  | .float x => number x
  | .str s => .str s
  | .member value => .str value
  | .decimal d => .str (Amounts.decimalText F d)
  | .datetime t => .str (Amounts.datetimeText F t)
  | .list xs => .arr (jsonElems xs)
  | .dict m => .obj (jsonMembers m)

def jsonElems : List (PyValue F) → List (Json F)
  | [] => []
  | x :: xs => jsonMode x :: jsonElems xs

def jsonMembers : List (Str × PyValue F) → Members F
  | [] => []
  | (k, v) :: m => (k, jsonMode v) :: jsonMembers m
end

/-- `json_encoders = {Decimal: lambda v: float(v), datetime: lambda v: v.isoformat()}`. -/
def jsonEncoded : PyValue F → Json F
  | .decimal d => number (Amounts.ofDecimal d)
  | .datetime t => .str t.isoformat
  | v => jsonMode v

def Event.json (e : Event F) : Members F := e.modelDump.map fun kv => (kv.1, jsonEncoded kv.2)

def Event.modelDumpJson (e : Event F) : Str := serdeText (.obj e.json)

def serializeEvent (e : Event F) : Except PyError Bytes := utf8Encode e.modelDumpJson

/-! ## Reading -/

section Fields

/-- A member of a `str` enumeration, by its value. -/
def oneOf {A : Type} (all : List A) (value : A → Str) : Reader F A
  | .str s => all.find? fun a => decide (value a = s)
  | _ => none

def unitType : Reader F UnitType :=
  oneOf [.token, .image, .minute, .hour, .character, .request, .url, .byte, .gb, .gbMonth, .execution, .operation,
    .unit, .second] UnitType.value

def billingAccountType : Reader F BillingAccountType := oneOf [.user, .organization] BillingAccountType.value

def billingSurface : Reader F BillingSurface := oneOf [.abstractService, .addOn] BillingSurface.value

def costComponentType : Reader F CostComponentType :=
  oneOf [.runtime, .tokenCompute, .storage, .network, .externalApi] CostComponentType.value

/-- A `Decimal` field. -/
def amount : Reader F PyDecimal
  | .float x => if SerdeFloat.isFinite x then some (Amounts.toDecimal x) else none
  | .int n => some ⟨decide (n < 0), n.natAbs, 0⟩
  | .str s => Amounts.decimal F s
  | _ => none

/-- `Dict[str, Any]`. -/
def details : Reader F (Members F)
  | .obj m => if (m.all fun kv => isText kv.1) then some m else none
  | _ => none

end Fields

section Models
variable [Scalars F]

def costComponent : Reader F CostComponent
  | .obj m => do
    let componentId ← required m "component_id" text
    let componentType ← required m "component_type" costComponentType
    let bundled ← fieldOr m "bundled" true Scalars.bool
    let customerVisible ← fieldOr m "customer_visible" false Scalars.bool
    let provider ← fieldOr m "provider" none (optional text)
    let meterType ← fieldOr m "meter_type" none (optional text)
    let unitKind ← fieldOr m "unit_type" none (optional unitType)
    let usageAmount ← fieldOr m "usage_amount" none (optional amount)
    let notes ← fieldOr m "notes" none (optional text)
    some ⟨componentId, componentType, bundled, customerVisible, provider, meterType, unitKind, usageAmount, notes⟩
  | _ => none

/-- What the default factories return. -/
structure Defaults where
  eventId : Str
  timestamp : PyDateTime

def usageEvent (now : Defaults) (m : Members F) : Option (UsageEvent F) := do
  let eventType ← fieldOr m "event_type" (lit "billing.usage.recorded") text
  let eventId ← fieldOr m "event_id" now.eventId text
  let schemaVersion ← fieldOr m "schema_version" (lit "1.0") text
  let userId ← required m "user_id" text
  let actorUserId ← fieldOr m "actor_user_id" none (optional text)
  let accountType ← fieldOr m "billing_account_type" none (optional billingAccountType)
  let billingAccountId ← fieldOr m "billing_account_id" none (optional text)
  let organizationId ← fieldOr m "organization_id" none (optional text)
  let agentId ← fieldOr m "agent_id" none (optional text)
  let subscriptionId ← fieldOr m "subscription_id" none (optional text)
  let productId ← required m "product_id" text
  let serviceType ← fieldOr m "service_type" none (optional text)
  let operationType ← fieldOr m "operation_type" none (optional text)
  let sourceService ← fieldOr m "source_service" none (optional text)
  let resourceName ← fieldOr m "resource_name" none (optional text)
  let meterType ← fieldOr m "meter_type" none (optional text)
  let usageAmount ← required m "usage_amount" amount
  let unitKind ← required m "unit_type" unitType
  let sessionId ← fieldOr m "session_id" none (optional text)
  let requestId ← fieldOr m "request_id" none (optional text)
  let usageDetails ← fieldOr m "usage_details" [] details
  let surface ← fieldOr m "billing_surface" .abstractService billingSurface
  let costComponents ← fieldOr m "cost_components" [] (listOf costComponent)
  let creditsUsed ← fieldOr m "credits_used" none (optional amount)
  let costUsd ← fieldOr m "cost_usd" none (optional amount)
  let creditConsumptionHandled ← fieldOr m "credit_consumption_handled" false Scalars.bool
  let timestamp ← fieldOr m "timestamp" now.timestamp Scalars.datetime
  some ⟨eventType, eventId, schemaVersion, userId, actorUserId, accountType, billingAccountId, organizationId,
    agentId, subscriptionId, productId, serviceType, operationType, sourceService, resourceName, meterType,
    usageAmount, unitKind, sessionId, requestId, usageDetails, surface, costComponents, creditsUsed, costUsd,
    creditConsumptionHandled, timestamp⟩

def billingCalculatedEvent (now : Defaults) (m : Members F) : Option BillingCalculatedEvent := do
  let eventType ← fieldOr m "event_type" (lit "billing.calculated") text
  let eventId ← fieldOr m "event_id" now.eventId text
  let userId ← required m "user_id" text
  let billingRecordId ← required m "billing_record_id" text
  let usageEventId ← required m "usage_event_id" text
  let productId ← required m "product_id" text
  let actualUsage ← required m "actual_usage" amount
  let unitKind ← required m "unit_type" unitType
  let tokenEquivalent ← required m "token_equivalent" amount
  let costUsd ← required m "cost_usd" amount
  let unitPrice ← required m "unit_price" amount
  let tokenConversionRate ← required m "token_conversion_rate" amount
  let isFreeTier ← fieldOr m "is_free_tier" false Scalars.bool
  let isIncluded ← fieldOr m "is_included_in_subscription" false Scalars.bool
  let timestamp ← fieldOr m "timestamp" now.timestamp Scalars.datetime
  some ⟨eventType, eventId, userId, billingRecordId, usageEventId, productId, actualUsage, unitKind, tokenEquivalent,
    costUsd, unitPrice, tokenConversionRate, isFreeTier, isIncluded, timestamp⟩

def tokensDeductedEvent (now : Defaults) (m : Members F) : Option (TokensDeductedEvent F) := do
  let eventType ← fieldOr m "event_type" (lit "wallet.tokens.deducted") text
  let eventId ← fieldOr m "event_id" now.eventId text
  let userId ← required m "user_id" text
  let billingRecordId ← required m "billing_record_id" text
  let transactionId ← required m "transaction_id" text
  let tokensDeducted ← required m "tokens_deducted" amount
  let balanceBefore ← required m "balance_before" amount
  let balanceAfter ← required m "balance_after" amount
  let monthlyQuota ← fieldOr m "monthly_quota" none (optional amount)
  let monthlyUsed ← fieldOr m "monthly_used" none (optional amount)
  let percentageUsed ← fieldOr m "percentage_used" none (optional Scalars.float)
  let timestamp ← fieldOr m "timestamp" now.timestamp Scalars.datetime
  some ⟨eventType, eventId, userId, billingRecordId, transactionId, tokensDeducted, balanceBefore, balanceAfter,
    monthlyQuota, monthlyUsed, percentageUsed, timestamp⟩

def tokensInsufficientEvent (now : Defaults) (m : Members F) : Option TokensInsufficientEvent := do
  let eventType ← fieldOr m "event_type" (lit "wallet.tokens.insufficient") text
  let eventId ← fieldOr m "event_id" now.eventId text
  let userId ← required m "user_id" text
  let billingRecordId ← required m "billing_record_id" text
  let tokensRequired ← required m "tokens_required" amount
  let tokensAvailable ← required m "tokens_available" amount
  let tokensDeficit ← required m "tokens_deficit" amount
  let suggestedAction ← fieldOr m "suggested_action" (lit "upgrade_plan") text
  let timestamp ← fieldOr m "timestamp" now.timestamp Scalars.datetime
  some ⟨eventType, eventId, userId, billingRecordId, tokensRequired, tokensAvailable, tokensDeficit, suggestedAction,
    timestamp⟩

def billingErrorEvent (now : Defaults) (m : Members F) : Option BillingErrorEvent := do
  let eventType ← fieldOr m "event_type" (lit "billing.failed") text
  let eventId ← fieldOr m "event_id" now.eventId text
  let userId ← required m "user_id" text
  let usageEventId ← required m "usage_event_id" text
  let productId ← required m "product_id" text
  let errorCode ← required m "error_code" text
  let errorMessage ← required m "error_message" text
  let retryCount ← fieldOr m "retry_count" 0 Scalars.int
  let timestamp ← fieldOr m "timestamp" now.timestamp Scalars.datetime
  some ⟨eventType, eventId, userId, usageEventId, productId, errorCode, errorMessage, retryCount, timestamp⟩

def validated {A : Type} : Option A → Except PyError A
  | some a => .ok a
  | none => .error (valueError "validation error")

/-- The constructors of the five models. -/
@[reducible] def eventModels (now : Defaults) : EventModels F where
  usageEvent m := validated (usageEvent now m)
  billingCalculatedEvent m := validated (billingCalculatedEvent now m)
  tokensDeductedEvent m := validated (tokensDeductedEvent now m)
  tokensInsufficientEvent m := validated (tokensInsufficientEvent now m)
  billingErrorEvent m := validated (billingErrorEvent now m)

end Models

end IsaCloud.Events
