import IsaCloud.Support.PyDump
import IsaCloud.Support.JsonSpelling
import IsaCloud.Support.Encoding
import IsaCloud.Support.Dict

/-!
# Billing events

The five event models of `billing_events.py` with all their fields, what
`model_dump()` makes of them, and `_deserialize_event`. The constructors of the
models validate their fields in pydantic; they enter as `EventModels`.
-/

namespace IsaCloud.Events

set_option autoImplicit false

open Support Support.Text Support.Python Support.Encoding Support.IsoTime

inductive UnitType where
  | token | image | minute | hour | character | request | url | byte | gb | gbMonth | execution
  | operation | unit | second
  deriving DecidableEq, Repr

def UnitType.value : UnitType → Str
  | token => lit "token"
  | image => lit "image"
  | minute => lit "minute"
  | hour => lit "hour"
  | character => lit "character"
  | request => lit "request"
  | url => lit "url"
  | byte => lit "byte"
  | gb => lit "gb"
  | gbMonth => lit "gb_month"
  | execution => lit "execution"
  | operation => lit "operation"
  | unit => lit "unit"
  | second => lit "second"

inductive BillingAccountType where
  | user | organization
  deriving DecidableEq, Repr

def BillingAccountType.value : BillingAccountType → Str
  | user => lit "user"
  | organization => lit "organization"

inductive BillingSurface where
  | abstractService | addOn
  deriving DecidableEq, Repr

def BillingSurface.value : BillingSurface → Str
  | abstractService => lit "abstract_service"
  | addOn => lit "add_on"

inductive CostComponentType where
  | runtime | tokenCompute | storage | network | externalApi
  deriving DecidableEq, Repr

def CostComponentType.value : CostComponentType → Str
  | runtime => lit "runtime"
  | tokenCompute => lit "token_compute"
  | storage => lit "storage"
  | network => lit "network"
  | externalApi => lit "external_api"

structure CostComponent where
  componentId : Str
  componentType : CostComponentType
  bundled : Bool
  customerVisible : Bool
  provider : Option Str
  meterType : Option Str
  unitType : Option UnitType
  usageAmount : Option PyDecimal
  notes : Option Str
  deriving DecidableEq, Repr

structure UsageEvent (F : Type) where
  eventType : Str
  eventId : Str
  schemaVersion : Str
  userId : Str
  actorUserId : Option Str
  billingAccountType : Option BillingAccountType
  billingAccountId : Option Str
  organizationId : Option Str
  agentId : Option Str
  subscriptionId : Option Str
  productId : Str
  serviceType : Option Str
  operationType : Option Str
  sourceService : Option Str
  resourceName : Option Str
  meterType : Option Str
  usageAmount : PyDecimal
  unitType : UnitType
  sessionId : Option Str
  requestId : Option Str
  usageDetails : Members F
  billingSurface : BillingSurface
  costComponents : List CostComponent
  creditsUsed : Option PyDecimal
  costUsd : Option PyDecimal
  creditConsumptionHandled : Bool
  timestamp : PyDateTime

structure BillingCalculatedEvent where
  eventType : Str
  eventId : Str
  userId : Str
  billingRecordId : Str
  usageEventId : Str
  productId : Str
  actualUsage : PyDecimal
  unitType : UnitType
  tokenEquivalent : PyDecimal
  costUsd : PyDecimal
  unitPrice : PyDecimal
  tokenConversionRate : PyDecimal
  isFreeTier : Bool
  isIncludedInSubscription : Bool
  timestamp : PyDateTime
  deriving DecidableEq, Repr

structure BillingErrorEvent where
  eventType : Str
  eventId : Str
  userId : Str
  usageEventId : Str
  productId : Str
  errorCode : Str
  errorMessage : Str
  retryCount : Int
  timestamp : PyDateTime
  deriving DecidableEq, Repr

structure TokensDeductedEvent (F : Type) where
  eventType : Str
  eventId : Str
  userId : Str
  billingRecordId : Str
  transactionId : Str
  tokensDeducted : PyDecimal
  balanceBefore : PyDecimal
  balanceAfter : PyDecimal
  monthlyQuota : Option PyDecimal
  monthlyUsed : Option PyDecimal
  percentageUsed : Option F
  timestamp : PyDateTime

structure TokensInsufficientEvent where
  eventType : Str
  eventId : Str
  userId : Str
  billingRecordId : Str
  tokensRequired : PyDecimal
  tokensAvailable : PyDecimal
  tokensDeficit : PyDecimal
  suggestedAction : Str
  timestamp : PyDateTime
  deriving DecidableEq, Repr

/-- What `_deserialize_event` can produce. -/
inductive Event (F : Type) where
  | usage (e : UsageEvent F)
  | billingCalculated (e : BillingCalculatedEvent)
  | tokensDeducted (e : TokensDeductedEvent F)
  | tokensInsufficient (e : TokensInsufficientEvent)
  | billingError (e : BillingErrorEvent)

variable {F : Type}

namespace Event

def eventId : Event F → Str
  | usage e => e.eventId
  | billingCalculated e => e.eventId
  | tokensDeducted e => e.eventId
  | tokensInsufficient e => e.eventId
  | billingError e => e.eventId

def eventType : Event F → Str
  | usage e => e.eventType
  | billingCalculated e => e.eventType
  | tokensDeducted e => e.eventType
  | tokensInsufficient e => e.eventType
  | billingError e => e.eventType

def timestamp : Event F → PyDateTime
  | usage e => e.timestamp
  | billingCalculated e => e.timestamp
  | tokensDeducted e => e.timestamp
  | tokensInsufficient e => e.timestamp
  | billingError e => e.timestamp

end Event

/-! ## `model_dump()` -/

open PyValue (optional)

def CostComponent.modelDump (c : CostComponent) : PyValue F :=
  .dict [
    (lit "component_id", .str c.componentId),
    (lit "component_type", .member c.componentType.value),
    (lit "bundled", .bool c.bundled),
    (lit "customer_visible", .bool c.customerVisible),
    (lit "provider", optional .str c.provider),
    (lit "meter_type", optional .str c.meterType),
    (lit "unit_type", optional (fun u => .member u.value) c.unitType),
    (lit "usage_amount", optional .decimal c.usageAmount),
    (lit "notes", optional .str c.notes)]

namespace Event

/-- The fields of the model, in order, as Python values. -/
def modelDump : Event F → List (Str × PyValue F)
  | usage e => [
    (lit "event_type", .str e.eventType),
    (lit "event_id", .str e.eventId),
    (lit "schema_version", .str e.schemaVersion),
    (lit "user_id", .str e.userId),
    (lit "actor_user_id", optional .str e.actorUserId),
    (lit "billing_account_type", optional (fun t => .member t.value) e.billingAccountType),
    (lit "billing_account_id", optional .str e.billingAccountId),
    (lit "organization_id", optional .str e.organizationId),
    (lit "agent_id", optional .str e.agentId),
    (lit "subscription_id", optional .str e.subscriptionId),
    (lit "product_id", .str e.productId),
    (lit "service_type", optional .str e.serviceType),
    (lit "operation_type", optional .str e.operationType),
    (lit "source_service", optional .str e.sourceService),
    (lit "resource_name", optional .str e.resourceName),
    (lit "meter_type", optional .str e.meterType),
    (lit "usage_amount", .decimal e.usageAmount),
    (lit "unit_type", .member e.unitType.value),
    (lit "session_id", optional .str e.sessionId),
    (lit "request_id", optional .str e.requestId),
    (lit "usage_details", .dict (PyValue.ofMembers e.usageDetails)),
    (lit "billing_surface", .member e.billingSurface.value),
    (lit "cost_components", .list (e.costComponents.map CostComponent.modelDump)),
    (lit "credits_used", optional .decimal e.creditsUsed),
    (lit "cost_usd", optional .decimal e.costUsd),
    (lit "credit_consumption_handled", .bool e.creditConsumptionHandled),
    (lit "timestamp", .datetime e.timestamp)]
  | billingCalculated e => [
    (lit "event_type", .str e.eventType),
    (lit "event_id", .str e.eventId),
    (lit "user_id", .str e.userId),
    (lit "billing_record_id", .str e.billingRecordId),
    (lit "usage_event_id", .str e.usageEventId),
    (lit "product_id", .str e.productId),
    (lit "actual_usage", .decimal e.actualUsage),
    (lit "unit_type", .member e.unitType.value),
    (lit "token_equivalent", .decimal e.tokenEquivalent),
    (lit "cost_usd", .decimal e.costUsd),
    (lit "unit_price", .decimal e.unitPrice),
    (lit "token_conversion_rate", .decimal e.tokenConversionRate),
    (lit "is_free_tier", .bool e.isFreeTier),
    (lit "is_included_in_subscription", .bool e.isIncludedInSubscription),
    (lit "timestamp", .datetime e.timestamp)]
  | tokensDeducted e => [
    (lit "event_type", .str e.eventType),
    (lit "event_id", .str e.eventId),
    (lit "user_id", .str e.userId),
    (lit "billing_record_id", .str e.billingRecordId),
    (lit "transaction_id", .str e.transactionId),
    (lit "tokens_deducted", .decimal e.tokensDeducted),
    (lit "balance_before", .decimal e.balanceBefore),
    (lit "balance_after", .decimal e.balanceAfter),
    (lit "monthly_quota", optional .decimal e.monthlyQuota),
    (lit "monthly_used", optional .decimal e.monthlyUsed),
    (lit "percentage_used", optional .float e.percentageUsed),
    (lit "timestamp", .datetime e.timestamp)]
  | tokensInsufficient e => [
    (lit "event_type", .str e.eventType),
    (lit "event_id", .str e.eventId),
    (lit "user_id", .str e.userId),
    (lit "billing_record_id", .str e.billingRecordId),
    (lit "tokens_required", .decimal e.tokensRequired),
    (lit "tokens_available", .decimal e.tokensAvailable),
    (lit "tokens_deficit", .decimal e.tokensDeficit),
    (lit "suggested_action", .str e.suggestedAction),
    (lit "timestamp", .datetime e.timestamp)]
  | billingError e => [
    (lit "event_type", .str e.eventType),
    (lit "event_id", .str e.eventId),
    (lit "user_id", .str e.userId),
    (lit "usage_event_id", .str e.usageEventId),
    (lit "product_id", .str e.productId),
    (lit "error_code", .str e.errorCode),
    (lit "error_message", .str e.errorMessage),
    (lit "retry_count", .int e.retryCount),
    (lit "timestamp", .datetime e.timestamp)]

/-- Every one of the models ends with its timestamp. -/
theorem timestamp_mem_modelDump (e : Event F) :
    (lit "timestamp", .datetime e.timestamp) ∈ e.modelDump := by
  cases e <;> exact List.mem_of_getLast? rfl

end Event

/-! ## `_deserialize_event` -/

/-- The constructors `EventClass(**data)`: coercion, defaults and validation. -/
class EventModels (F : Type) where
  usageEvent : Members F → Except PyError (UsageEvent F)
  billingCalculatedEvent : Members F → Except PyError BillingCalculatedEvent
  tokensDeductedEvent : Members F → Except PyError (TokensDeductedEvent F)
  tokensInsufficientEvent : Members F → Except PyError TokensInsufficientEvent
  billingErrorEvent : Members F → Except PyError BillingErrorEvent

section Deserialize
variable [PyFloat F] [EventModels F]

variable (F) in
/-- The `event_classes` dict, each class with its constructor. -/
def eventClasses : List (Str × (Members F → Except PyError (Event F))) := [
  (lit "billing.usage.recorded", fun d => (EventModels.usageEvent d).map .usage),
  (lit "usage.recorded", fun d => (EventModels.usageEvent d).map .usage),
  (lit "billing.calculated", fun d => (EventModels.billingCalculatedEvent d).map .billingCalculated),
  (lit "wallet.tokens.deducted", fun d => (EventModels.tokensDeductedEvent d).map .tokensDeducted),
  (lit "wallet.tokens.insufficient",
    fun d => (EventModels.tokensInsufficientEvent d).map .tokensInsufficient),
  (lit "billing.failed", fun d => (EventModels.billingErrorEvent d).map .billingError)]

/-- The model built from a decoded message. Only a string can be a key of
`event_classes`; looking any other value up finds nothing or raises. -/
def eventOf (data : Json F) : Option (Event F) :=
  match data with
  | .obj members =>
    match Members.get members (lit "event_type") with
    | some (.str eventType) =>
      match Dict.find (eventClasses F) eventType with
      | some construct => (construct members).toOption
      | none => none
    | _ => none
  | _ => none

/-- `_deserialize_event`, whose handler turns every exception into `None`. -/
def deserializeEvent (nesting : Nat) (eventData : Bytes) : Option (Event F) :=
  match utf8Decode false eventData with
  | .error _ => none
  | .ok text =>
    match Json.loads nesting text with
    | .error _ => none
    | .ok data => eventOf data

end Deserialize

/-! ## A message -/

/-- The text under a key, as a `str` field takes it. -/
def textField (data : Members F) (key : String) : Except PyError Str :=
  match Members.get data (lit key) with
  | some (.str s) => .ok s
  | _ => .error (valueError "validation error")

/-- The constructors on messages of `billing.failed` whose fields are all given
and of the declared types; any other message fails validation here. -/
@[reducible] def errorEventModels : EventModels F where
  usageEvent _ := .error (valueError "validation error")
  billingCalculatedEvent _ := .error (valueError "validation error")
  tokensDeductedEvent _ := .error (valueError "validation error")
  tokensInsufficientEvent _ := .error (valueError "validation error")
  billingErrorEvent data := do
    let eventType ← textField data "event_type"
    let eventId ← textField data "event_id"
    let userId ← textField data "user_id"
    let usageEventId ← textField data "usage_event_id"
    let productId ← textField data "product_id"
    let errorCode ← textField data "error_code"
    let errorMessage ← textField data "error_message"
    let timestamp ← fromisoformat (← textField data "timestamp")
    match Members.get data (lit "retry_count") with
    | some (.int retryCount) =>
      .ok ⟨eventType, eventId, userId, usageEventId, productId, errorCode, errorMessage, retryCount,
        timestamp⟩
    | _ => .error (valueError "validation error")

/-- A message of `pricingError`, its timestamp in the short form for UTC. -/
def failedMessage : Bytes :=
  (Json.compact (.obj [
    (lit "event_type", .str (lit "billing.failed")),
    (lit "event_id", .str (lit "evt_1")),
    (lit "user_id", .str (lit "u1")),
    (lit "usage_event_id", .str (lit "evt_0")),
    (lit "product_id", .str (lit "gpt-4")),
    (lit "error_code", .str (lit "PRICING_NOT_FOUND")),
    (lit "error_message", .str (lit "no price")),
    (lit "retry_count", .int 0),
    (lit "timestamp", .str (lit "2025-01-01T00:00:00Z"))] : Json Unit)).flatMap encodePoint

def pricingError : BillingErrorEvent :=
  ⟨lit "billing.failed", lit "evt_1", lit "u1", lit "evt_0", lit "gpt-4", lit "PRICING_NOT_FOUND",
    lit "no price", 0, ⟨63871286400000000, some 0⟩⟩

def failedEvent : Event F := .billingError pricingError

def Event.billingError? : Event F → Option BillingErrorEvent
  | billingError e => some e
  | _ => none

attribute [local instance] errorEventModels in
theorem deserialize_failedMessage :
    deserializeEvent (F := Unit) 10 failedMessage = some failedEvent := by
  have hread : (deserializeEvent (F := Unit) 10 failedMessage).bind Event.billingError? =
      some pricingError := by decide +kernel
  obtain ⟨e, he, hk⟩ := Option.bind_eq_some_iff.mp hread
  rw [he]
  cases e with
  | billingError e' =>
    cases hk
    rfl
  | _ => cases hk

end IsaCloud.Events
