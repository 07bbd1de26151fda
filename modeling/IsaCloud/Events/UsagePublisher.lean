import IsaCloud.Events.BillingRoundTrip
import IsaCloud.Events.UsageSubjects

/-!
# Who pays for published usage

`publish_usage` resolves the type of the payer and the payer's id by two fallback
chains of their own. An event that names an organization as its payer without
knowing one has no payer.
-/

namespace IsaCloud.Events

set_option autoImplicit false

open Support Support.Text Support.Python Support.Encoding Support.Json Support.Pydantic

/-- What the model of a usage event makes of a value in `usage_details`, whatever its type. -/
class UsageValue (V F : Type) where
  /-- The value as an `Optional[str]` field. -/
  text : V → Option (Option Str)
  /-- The value in the message. -/
  json : V → Option (Json F)
  component : Dict Str V → Option CostComponent

/-- What the constructor of the publisher keeps; its default user id is never used. -/
structure Publisher where
  defaultOrgId : Option Str

structure UsageArguments (V : Type) where
  userId : Str
  productId : Str
  usageAmount : PyDecimal
  unitType : Str
  organizationId : Option Str
  subscriptionId : Option Str
  sessionId : Option Str
  requestId : Option Str
  usageDetails : Option (Dict Str V)
  actorUserId : Option Str
  billingAccountType : Option Str
  billingAccountId : Option Str
  agentId : Option Str
  serviceType : Option Str
  operationType : Option Str
  sourceService : Option Str
  resourceName : Option Str
  meterType : Option Str
  schemaVersion : Str
  billingSurface : Str
  costComponents : Option (List (Dict Str V))
  creditsUsed : Option PyDecimal
  costUsd : Option PyDecimal
  creditConsumptionHandled : Bool

def truthyText (s : Option Str) : Bool := s.any fun s => !s.isEmpty

/-- `s or t` for a text `t`. -/
def orStr (s : Option Str) (t : Str) : Str :=
  match s with
  | none => t
  | some s => if s = [] then t else s

section Resolve
variable {V : Type} (p : Publisher) (a : UsageArguments V)

/-- `organization_id or self.default_org_id`. -/
def effectiveOrganization : Option Str := orText a.organizationId p.defaultOrgId

def resolvedActorUserId : Str := orStr a.actorUserId a.userId

def resolvedBillingAccountType : Str :=
  orStr a.billingAccountType (if truthyText (effectiveOrganization p a) then lit "organization" else lit "user")

def resolvedBillingAccountId : Option Str :=
  orText a.billingAccountId
    (if resolvedBillingAccountType p a = lit "organization" then effectiveOrganization p a
      else some (resolvedActorUserId a))

end Resolve

section Publish
variable {V F : Type} [PyObject V] [UsageValue V F]

def readText (s : Str) : Option Str := if isText s then some s else none

def readOptional : Option Str → Option (Option Str)
  | none => some none
  | some s => (readText s).map some

variable (F) in
/-- A text argument, or what the details have in its place. -/
def textOr (given : Option Str) (found : List (Option V)) : Option (Option Str) :=
  if truthyText given then readOptional given
  else do
    match ← orElse found with
    | none => some none
    | some v => UsageValue.text F v

/-- A message as it is handed to NATS. -/
structure Publication (F : Type) where
  event : UsageEvent F
  subject : Str
  data : Bytes
  headers : Dict Str Str

/-- The event that the arguments give, with its details as they are written. -/
def usageEventOf (now : Defaults) (p : Publisher) (a : UsageArguments V) : Option (UsageEvent F) := do
  let details := a.usageDetails.getD Dict.empty
  let schemaVersion ← readText a.schemaVersion
  let userId ← readText a.userId
  let actorUserId ← readText (resolvedActorUserId a)
  let accountType ← billingAccountType (.str (resolvedBillingAccountType p a) : Json F)
  let accountId ← readOptional (resolvedBillingAccountId p a)
  let organizationId ← readOptional (effectiveOrganization p a)
  let agentId ← readOptional a.agentId
  let subscriptionId ← readOptional a.subscriptionId
  let productId ← readText a.productId
  let serviceType ← textOr F a.serviceType [details.get (lit "service_type")]
  let operationType ← textOr F a.operationType [details.get (lit "operation_type"), details.get (lit "operation")]
  let sourceService ← textOr F a.sourceService [details.get (lit "source_service")]
  let resourceName ← textOr F a.resourceName
    [details.get (lit "resource_name"), details.get (lit "tool_name"), details.get (lit "model")]
  let meterType ← textOr F a.meterType [details.get (lit "meter_type")]
  let unitKind ← unitType (.str a.unitType : Json F)
  let sessionId ← readOptional a.sessionId
  let requestId ← readOptional a.requestId
  let written ← details.entries.mapM fun kv => do
    let key ← readText kv.1
    let value ← UsageValue.json kv.2
    some (key, value)
  let surface ← billingSurface (.str a.billingSurface : Json F)
  let costComponents ← (a.costComponents.getD []).mapM (UsageValue.component F)
  some ⟨lit "billing.usage.recorded", now.eventId, schemaVersion, userId, some actorUserId, some accountType, accountId,
    organizationId, agentId, subscriptionId, productId, serviceType, operationType, sourceService, resourceName,
    meterType, a.usageAmount, unitKind, sessionId, requestId, written, surface, costComponents, a.creditsUsed,
    a.costUsd, a.creditConsumptionHandled, now.timestamp⟩

variable [LowerCase] [SerdeFloat F] [Amounts F]

/-- What `publish_usage` hands to NATS; `none` where it raises before that. -/
def publication (now : Defaults) (p : Publisher) (a : UsageArguments V) : Option (Publication F) := do
  let event ← usageEventOf now p a
  let subject ← usageSubject
    ({ sourceService := event.sourceService
       serviceType := event.serviceType
       productId := some event.productId
       resourceName := event.resourceName
       usageDetails := (a.usageDetails.getD Dict.empty).get } : SubjectFields V)
  let data ← (serializeEvent (.usage event)).toOption
  some ⟨event, subject, data, Dict.empty.set (lit "event_type") (lit "billing.usage.recorded")⟩

/-- `publish_usage`; `publish` says whether NATS took the message. -/
def publishUsage (publish : Publication F → Bool) (now : Defaults) (p : Publisher) (a : UsageArguments V) : Bool :=
  match publication now p a with
  | some m => publish m
  | none => false

end Publish

/-! ## The payer -/

/-- The payer of a published event, as the arguments name it. -/
def HasPayer {V F : Type} (p : Publisher) (a : UsageArguments V) (e : UsageEvent F) : Prop :=
  (∃ id, e.billingAccountId = some id ∧ id ≠ []) ∧
    (a.billingAccountId = none →
      (e.billingAccountType = some .organization → e.billingAccountId = effectiveOrganization p a) ∧
        (e.billingAccountType = some .user → e.billingAccountId = some (resolvedActorUserId a)))

/-- An organization is charged by default only where one is known. -/
def PayerKnown {V : Type} (p : Publisher) (a : UsageArguments V) : Prop :=
  truthyText a.billingAccountId = true ∨ a.billingAccountType ≠ some (lit "organization") ∨
    truthyText (effectiveOrganization p a) = true

theorem truthyText_iff {s : Option Str} : truthyText s = true ↔ ∃ t, s = some t ∧ t ≠ [] := by
  cases s <;> simp [truthyText]

theorem orText_of_truthy {s t : Option Str} (h : truthyText s = true) : orText s t = s := by
  obtain ⟨u, rfl, hu⟩ := truthyText_iff.mp h
  exact if_neg hu

theorem orText_of_not_truthy {s t : Option Str} (h : truthyText s ≠ true) : orText s t = t := by
  cases s with
  | none => rfl
  | some s =>
    apply if_pos
    by_contra hs
    exact h (truthyText_iff.mpr ⟨s, rfl, hs⟩)

theorem orStr_of_truthy {s : Option Str} {t : Str} (h : truthyText s = true) : s = some (orStr s t) ∧ orStr s t ≠ [] := by
  obtain ⟨u, rfl, hu⟩ := truthyText_iff.mp h
  rw [orStr, if_neg hu]
  exact ⟨rfl, hu⟩

theorem orStr_of_not_truthy {s : Option Str} {t : Str} (h : truthyText s ≠ true) : orStr s t = t := by
  cases s with
  | none => rfl
  | some s =>
    apply if_pos
    by_contra hs
    exact h (truthyText_iff.mpr ⟨s, rfl, hs⟩)

theorem readText_some {s t : Str} (h : readText s = some t) : t = s := by
  unfold readText at h
  split at h
  · exact (Option.some.inj h).symm
  · cases h

theorem readOptional_some {s t : Option Str} (h : readOptional s = some t) : t = s := by
  cases s with
  | none => exact (Option.some.inj h).symm
  | some s =>
    obtain ⟨u, hu, rfl⟩ := Option.map_eq_some_iff.mp h
    rw [readText_some hu]

theorem billingAccountType_value {F : Type} {s : Str} {t : BillingAccountType}
    (h : billingAccountType (.str s : Json F) = some t) : t.value = s :=
  of_decide_eq_true (List.find?_some (p := fun a => decide (BillingAccountType.value a = s)) h)

section Payer
variable {V F : Type} [PyObject V] [UsageValue V F] {now : Defaults} {p : Publisher} {a : UsageArguments V}

/-- The payer is read before anything that the details have a say in. -/
theorem payer_of_usageEvent {e : UsageEvent F} (h : usageEventOf now p a = some e) :
    e.billingAccountId = resolvedBillingAccountId p a ∧
      e.billingAccountType.map BillingAccountType.value = some (resolvedBillingAccountType p a) := by
  unfold usageEventOf at h
  obtain ⟨schemaVersion, -, h⟩ := Option.bind_eq_some_iff.mp h
  obtain ⟨userId, -, h⟩ := Option.bind_eq_some_iff.mp h
  obtain ⟨actorUserId, -, h⟩ := Option.bind_eq_some_iff.mp h
  obtain ⟨accountType, htype, h⟩ := Option.bind_eq_some_iff.mp h
  obtain ⟨accountId, hid, h⟩ := Option.bind_eq_some_iff.mp h
  obtain ⟨organizationId, -, h⟩ := Option.bind_eq_some_iff.mp h
  obtain ⟨agentId, -, h⟩ := Option.bind_eq_some_iff.mp h
  obtain ⟨subscriptionId, -, h⟩ := Option.bind_eq_some_iff.mp h
  obtain ⟨productId, -, h⟩ := Option.bind_eq_some_iff.mp h
  obtain ⟨serviceType, -, h⟩ := Option.bind_eq_some_iff.mp h
  obtain ⟨operationType, -, h⟩ := Option.bind_eq_some_iff.mp h
  obtain ⟨sourceService, -, h⟩ := Option.bind_eq_some_iff.mp h
  obtain ⟨resourceName, -, h⟩ := Option.bind_eq_some_iff.mp h
  obtain ⟨meterType, -, h⟩ := Option.bind_eq_some_iff.mp h
  obtain ⟨unitKind, -, h⟩ := Option.bind_eq_some_iff.mp h
  obtain ⟨sessionId, -, h⟩ := Option.bind_eq_some_iff.mp h
  obtain ⟨requestId, -, h⟩ := Option.bind_eq_some_iff.mp h
  obtain ⟨written, -, h⟩ := Option.bind_eq_some_iff.mp h
  obtain ⟨surface, -, h⟩ := Option.bind_eq_some_iff.mp h
  obtain ⟨costComponents, -, h⟩ := Option.bind_eq_some_iff.mp h
  cases h
  exact ⟨readOptional_some hid, congrArg some (billingAccountType_value htype)⟩

omit [PyObject V] in
theorem actor_ne_nil (h : a.userId ≠ []) : resolvedActorUserId a ≠ [] := by
  unfold resolvedActorUserId
  by_cases hactor : truthyText a.actorUserId = true
  · exact (orStr_of_truthy hactor).2
  · rw [orStr_of_not_truthy hactor]
    exact h

omit [PyObject V] in
/-- The resolved payer is an organization, or a user with the id of the actor. -/
theorem resolved_cases (hnone : truthyText a.billingAccountId ≠ true) :
    (resolvedBillingAccountType p a = lit "organization" ∧ resolvedBillingAccountId p a = effectiveOrganization p a) ∨
      (resolvedBillingAccountType p a ≠ lit "organization" ∧
        resolvedBillingAccountId p a = some (resolvedActorUserId a)) := by
  unfold resolvedBillingAccountId
  rw [orText_of_not_truthy hnone]
  by_cases htype : resolvedBillingAccountType p a = lit "organization"
  · exact Or.inl ⟨htype, if_pos htype⟩
  · exact Or.inr ⟨htype, if_neg htype⟩

omit [PyObject V] in
theorem resolved_organization_iff :
    resolvedBillingAccountType p a = lit "organization" ↔
      a.billingAccountType = some (lit "organization") ∨
        truthyText a.billingAccountType ≠ true ∧ truthyText (effectiveOrganization p a) = true := by
  have hdistinct : lit "user" ≠ lit "organization" := by decide
  have hne : lit "organization" ≠ [] := by decide
  unfold resolvedBillingAccountType
  by_cases hgiven : truthyText a.billingAccountType = true
  · obtain ⟨t, ht, hnonempty⟩ := truthyText_iff.mp hgiven
    simp [ht, orStr, hnonempty, truthyText]
  · have hother : a.billingAccountType ≠ some (lit "organization") :=
      fun h => hgiven (truthyText_iff.mpr ⟨_, h, hne⟩)
    rw [orStr_of_not_truthy hgiven]
    by_cases horg : truthyText (effectiveOrganization p a) = true
    · simp [hgiven, horg]
    · simp [horg, hother, hdistinct]

theorem hasPayer_iff {e : UsageEvent F} (huser : a.userId ≠ []) (h : usageEventOf now p a = some e) :
    HasPayer p a e ↔ PayerKnown p a := by
  obtain ⟨hid, htype⟩ := payer_of_usageEvent h
  unfold HasPayer PayerKnown
  rw [hid]
  by_cases hgiven : truthyText a.billingAccountId = true
  · have hpayer : resolvedBillingAccountId p a = a.billingAccountId := orText_of_truthy hgiven
    refine iff_of_true ⟨?_, ?_⟩ (Or.inl hgiven)
    · rw [hpayer]
      exact truthyText_iff.mp hgiven
    · intro hnone
      rw [hnone] at hgiven
      cases hgiven
  rcases resolved_cases (p := p) hgiven with ⟨horg, hpayer⟩ | ⟨huserType, hpayer⟩
  · -- The payer is an organization: the one that is known, if one is.
    have hnotUser : e.billingAccountType ≠ some .user := by
      intro huserType
      rw [huserType, horg] at htype
      exact absurd (Option.some.inj htype) (by decide)
    rw [hpayer, ← truthyText_iff]
    constructor
    · intro hhas
      exact Or.inr (Or.inr hhas.1)
    · intro hknown
      refine ⟨?_, fun _ => ⟨fun _ => rfl, fun huserType => absurd huserType hnotUser⟩⟩
      rcases hknown with hno | hother | heff
      · exact absurd hno hgiven
      · exact ((resolved_organization_iff.mp horg).resolve_left hother).2
      · exact heff
  · have hnotOrg : e.billingAccountType ≠ some .organization := by
      intro horg
      rw [horg] at htype
      exact huserType (Option.some.inj htype).symm
    refine iff_of_true ⟨?_, fun _ => ⟨fun horg => absurd horg hnotOrg, fun _ => hpayer⟩⟩ (Or.inr (Or.inl ?_))
    · exact ⟨_, hpayer, actor_ne_nil huser⟩
    · intro hother
      exact huserType (resolved_organization_iff.mpr (Or.inl hother))

end Payer

theorem published_usage_has_payer_iff {V F : Type} [PyObject V] [UsageValue V F] [LowerCase] [SerdeFloat F] [Amounts F]
    (publish : Publication F → Bool) (now : Defaults) (p : Publisher) (a : UsageArguments V) (huser : a.userId ≠ [])
    (h : publishUsage publish now p a = true) :
    ∃ m : Publication F, publication now p a = some m ∧ publish m = true ∧
      (HasPayer p a m.event ↔ PayerKnown p a) := by
  unfold publishUsage at h
  cases hm : (publication now p a : Option (Publication F)) with
  | none =>
    rw [hm] at h
    cases h
  | some m =>
    rw [hm] at h
    refine ⟨m, rfl, h, ?_⟩
    obtain ⟨event, hevent, hrest⟩ := Option.bind_eq_some_iff.mp hm
    obtain ⟨subject, -, hrest⟩ := Option.bind_eq_some_iff.mp hrest
    obtain ⟨data, -, hmessage⟩ := Option.bind_eq_some_iff.mp hrest
    cases hmessage
    exact hasPayer_iff huser hevent

/-! ## One request -/

section Example

attribute [local instance] asciiUnicode asciiLowerCase wholeSerde wholeAmounts wholeScalars

/-- The values of a JSON document. -/
@[reducible] def wholeObject : PyObject (Json WholeFloat) := jsonObject WholeFloat 1000

@[reducible] def jsonValue : UsageValue (Json WholeFloat) WholeFloat where
  text := Pydantic.optional Pydantic.text
  json := some
  component fields := costComponent (.obj fields.entries)

attribute [local instance] wholeObject jsonValue

def oneRequest (billingAccountType : Option Str) : UsageArguments (Json WholeFloat) where
  userId := lit "u1"
  productId := lit "gpt-4"
  usageAmount := ⟨false, 1, 0⟩
  unitType := lit "request"
  organizationId := none
  subscriptionId := none
  sessionId := none
  requestId := none
  usageDetails := none
  actorUserId := none
  billingAccountType := billingAccountType
  billingAccountId := none
  agentId := none
  serviceType := none
  operationType := none
  sourceService := none
  resourceName := none
  meterType := none
  schemaVersion := lit "1.0"
  billingSurface := lit "abstract_service"
  costComponents := none
  creditsUsed := none
  costUsd := none
  creditConsumptionHandled := false

theorem user_pays :
    (oneRequest none).userId ≠ [] ∧
      ∃ m : Publication WholeFloat, publication clock ⟨none⟩ (oneRequest none) = some m ∧
        HasPayer ⟨none⟩ (oneRequest none) m.event := by
  have huser : (oneRequest none).userId ≠ [] := by decide
  have htrue : publishUsage (fun _ : Publication WholeFloat => true) clock ⟨none⟩ (oneRequest none) = true := by
    decide +kernel
  obtain ⟨m, hm, -, hpayer⟩ := published_usage_has_payer_iff _ clock ⟨none⟩ (oneRequest none) huser htrue
  exact ⟨huser, m, hm, hpayer.mpr (Or.inr (Or.inl (by decide)))⟩

/-- An organization is to pay, and none is known. -/
theorem nobody_pays :
    publishUsage (fun _ : Publication WholeFloat => true) clock ⟨none⟩
        (oneRequest (some (lit "organization"))) = true ∧
      ∃ m : Publication WholeFloat, publication clock ⟨none⟩ (oneRequest (some (lit "organization"))) = some m ∧
        m.event.billingAccountId = none := by
  have hid : ((publication clock ⟨none⟩ (oneRequest (some (lit "organization")))).map
      fun m : Publication WholeFloat => m.event.billingAccountId) = some none := by decide +kernel
  obtain ⟨m, hm, hnone⟩ := Option.map_eq_some_iff.mp hid
  refine ⟨by decide +kernel, m, hm, hnone⟩

end Example

end IsaCloud.Events
