import IsaCloud.Events.BillingFields
import IsaCloud.Support.Binary64
import IsaCloud.Support.JsonDigits

/-!
# Billing events on the wire

What `_deserialize_event` makes of the bytes that `_serialize_event` wrote: the
same event, exactly when its type is one of its class, its amounts are floats and
its offset has no seconds.
-/

namespace IsaCloud.Events

set_option autoImplicit false

open Support Support.Text Support.Python Support.Encoding Support.IsoTime Support.Json Support.Pydantic

variable {F : Type} [SerdeFloat F] [Amounts F]

/-! ## What is written can be read -/

/-- The details of a usage event are JSON values. -/
def Event.NativeDetails : Event F → Prop
  | .usage e => Native (.obj e.usageDetails)
  | _ => True

/-- `json.loads` reads integers of up to 4300 digits. -/
def Event.IntsFit : Event F → Prop
  | .billingError e => (natText e.retryCount.natAbs).length ≤ intMaxStrDigits
  | _ => True

theorem native_json {e : Event F} (hnative : e.NativeDetails) (hfit : e.IntsFit) : Native (.obj e.json) := by
  have hall : ∀ kv ∈ e.modelDump, Native (jsonEncoded kv.2) := by
    cases e with
    | usage e =>
      have hdetails := native_details hnative
      have hcomponents := native_costComponents (F := F) e.costComponents
      simp [Event.modelDump, hdetails, hcomponents]
    | billingCalculated e => simp [Event.modelDump]
    | tokensDeducted e => simp [Event.modelDump]
    | tokensInsufficient e => simp [Event.modelDump]
    | billingError e =>
      have hint : Native (jsonEncoded (.int e.retryCount) : Json F) := ⟨hfit, trivial⟩
      simp [Event.modelDump, hint]
  apply native_obj (nodup_json e)
  intro kv hkv
  obtain ⟨x, hx, rfl⟩ := List.mem_map.mp hkv
  exact hall x hx

/-! ## Equality of events -/

/-- The number a decimal stands for; decimals are equal when their numbers are. -/
def decimalValue (d : PyDecimal) : ℚ := (if d.negative then -1 else 1) * d.digits * (10 : ℚ) ^ d.exponent

/-- Equal in every field. -/
def Event.Same : Event F → Event F → Prop
  | .usage e, .usage e' =>
    e' = { e with usageAmount := e'.usageAmount, creditsUsed := e'.creditsUsed, costUsd := e'.costUsd } ∧
      decimalValue e'.usageAmount = decimalValue e.usageAmount ∧
      e'.creditsUsed.map decimalValue = e.creditsUsed.map decimalValue ∧
      e'.costUsd.map decimalValue = e.costUsd.map decimalValue
  | .billingCalculated e, .billingCalculated e' =>
    e' = { e with actualUsage := e'.actualUsage, tokenEquivalent := e'.tokenEquivalent, costUsd := e'.costUsd,
                  unitPrice := e'.unitPrice, tokenConversionRate := e'.tokenConversionRate } ∧
      decimalValue e'.actualUsage = decimalValue e.actualUsage ∧
      decimalValue e'.tokenEquivalent = decimalValue e.tokenEquivalent ∧
      decimalValue e'.costUsd = decimalValue e.costUsd ∧
      decimalValue e'.unitPrice = decimalValue e.unitPrice ∧
      decimalValue e'.tokenConversionRate = decimalValue e.tokenConversionRate
  | .tokensDeducted e, .tokensDeducted e' =>
    e' = { e with tokensDeducted := e'.tokensDeducted, balanceBefore := e'.balanceBefore,
                  balanceAfter := e'.balanceAfter, monthlyQuota := e'.monthlyQuota, monthlyUsed := e'.monthlyUsed } ∧
      decimalValue e'.tokensDeducted = decimalValue e.tokensDeducted ∧
      decimalValue e'.balanceBefore = decimalValue e.balanceBefore ∧
      decimalValue e'.balanceAfter = decimalValue e.balanceAfter ∧
      e'.monthlyQuota.map decimalValue = e.monthlyQuota.map decimalValue ∧
      e'.monthlyUsed.map decimalValue = e.monthlyUsed.map decimalValue
  | .tokensInsufficient e, .tokensInsufficient e' =>
    e' = { e with tokensRequired := e'.tokensRequired, tokensAvailable := e'.tokensAvailable,
                  tokensDeficit := e'.tokensDeficit } ∧
      decimalValue e'.tokensRequired = decimalValue e.tokensRequired ∧
      decimalValue e'.tokensAvailable = decimalValue e.tokensAvailable ∧
      decimalValue e'.tokensDeficit = decimalValue e.tokensDeficit
  | .billingError e, .billingError e' => e' = e
  | _, _ => False

/-! ## The condition -/

/-- The amount is the decimal of its float. -/
def Exact (F : Type) [SerdeFloat F] [Amounts F] (d : PyDecimal) : Prop :=
  ∃ d', amountRead F d = some d' ∧ decimalValue d' = decimalValue d

def Event.AmountsExact : Event F → Prop
  | .usage e => Exact F e.usageAmount ∧ (∀ d, e.creditsUsed = some d → Exact F d) ∧
      ∀ d, e.costUsd = some d → Exact F d
  | .billingCalculated e => Exact F e.actualUsage ∧ Exact F e.tokenEquivalent ∧ Exact F e.costUsd ∧
      Exact F e.unitPrice ∧ Exact F e.tokenConversionRate
  | .tokensDeducted e => Exact F e.tokensDeducted ∧ Exact F e.balanceBefore ∧ Exact F e.balanceAfter ∧
      (∀ d, e.monthlyQuota = some d → Exact F d) ∧ (∀ d, e.monthlyUsed = some d → Exact F d) ∧
      ∀ x, e.percentageUsed = some x → SerdeFloat.isFinite x = true
  | .tokensInsufficient e => Exact F e.tokensRequired ∧ Exact F e.tokensAvailable ∧ Exact F e.tokensDeficit
  | .billingError _ => True

/-- The event types that lead to the class. -/
def Event.classTypes : Event F → List Str
  | .usage _ => [lit "billing.usage.recorded", lit "usage.recorded"]
  | .billingCalculated _ => [lit "billing.calculated"]
  | .tokensDeducted _ => [lit "wallet.tokens.deducted"]
  | .tokensInsufficient _ => [lit "wallet.tokens.insufficient"]
  | .billingError _ => [lit "billing.failed"]

structure Event.Survives (e : Event F) : Prop where
  eventType : e.eventType ∈ e.classTypes
  amounts : e.AmountsExact
  offset : wholeMinutes e.timestamp = true
  fits : e.IntsFit

/-! ## Finding the class -/

variable [Scalars F] (now : Defaults)

/-- The constructor of the event's own class. -/
def Event.construct : Event F → Members F → Option (Event F)
  | .usage _, m => (usageEvent now m).map .usage
  | .billingCalculated _, m => (billingCalculatedEvent now m).map .billingCalculated
  | .tokensDeducted _, m => (tokensDeductedEvent now m).map .tokensDeducted
  | .tokensInsufficient _, m => (tokensInsufficientEvent now m).map .tokensInsufficient
  | .billingError _, m => (billingErrorEvent now m).map .billingError

omit [SerdeFloat F] [Amounts F] [Scalars F] in
theorem toOption_validated {A : Type} (o : Option A) (f : A → Event F) :
    ((validated o).map f).toOption = o.map f := by
  cases o with
  | none => rfl
  | some a => rfl

theorem eventOf_eq [PyFloat F] {m : Members F} {t : Str} (ht : m.get (lit "event_type") = some (.str t)) :
    @eventOf F (eventModels now) (.obj m) =
      if t = lit "billing.usage.recorded" ∨ t = lit "usage.recorded" then (usageEvent now m).map .usage
      else if t = lit "billing.calculated" then (billingCalculatedEvent now m).map .billingCalculated
      else if t = lit "wallet.tokens.deducted" then (tokensDeductedEvent now m).map .tokensDeducted
      else if t = lit "wallet.tokens.insufficient" then (tokensInsufficientEvent now m).map .tokensInsufficient
      else if t = lit "billing.failed" then (billingErrorEvent now m).map .billingError
      else none := by
  have hfind : @eventOf F (eventModels now) (.obj m) =
      (Dict.find (@eventClasses F (eventModels now)) t).bind fun construct => (construct m).toOption := by
    unfold eventOf
    dsimp only
    generalize m.get (lit "event_type") = found at ht
    subst ht
    dsimp only
    cases Dict.find (@eventClasses F (eventModels now)) t <;> rfl
  rw [hfind]
  by_cases h₁ : t = lit "billing.usage.recorded"
  · subst h₁
    exact (toOption_validated _ Event.usage).trans (if_pos (Or.inl rfl)).symm
  by_cases h₂ : t = lit "usage.recorded"
  · subst h₂
    exact (toOption_validated _ Event.usage).trans (if_pos (Or.inr rfl)).symm
  rw [if_neg (not_or.mpr ⟨h₁, h₂⟩)]
  by_cases h₃ : t = lit "billing.calculated"
  · subst h₃
    exact (toOption_validated _ Event.billingCalculated).trans (if_pos rfl).symm
  rw [if_neg h₃]
  by_cases h₄ : t = lit "wallet.tokens.deducted"
  · subst h₄
    exact (toOption_validated _ Event.tokensDeducted).trans (if_pos rfl).symm
  rw [if_neg h₄]
  by_cases h₅ : t = lit "wallet.tokens.insufficient"
  · subst h₅
    exact (toOption_validated _ Event.tokensInsufficient).trans (if_pos rfl).symm
  rw [if_neg h₅]
  by_cases h₆ : t = lit "billing.failed"
  · subst h₆
    exact (toOption_validated _ Event.billingError).trans (if_pos rfl).symm
  rw [if_neg h₆]
  have hnone : Dict.find (@eventClasses F (eventModels now)) t = none := by
    unfold eventClasses
    simp only [Dict.find, Ne.symm h₁, Ne.symm h₂, Ne.symm h₃, Ne.symm h₄, Ne.symm h₅, Ne.symm h₆, if_false]
  rw [hnone]
  rfl

omit [Scalars F] in
theorem get_eventType (e : Event F) : Members.get e.json (lit "event_type") = some (.str e.eventType) := by
  cases e <;> exact get_at (nodup_json _) 0 rfl

/-- The class is found by the event type. -/
theorem eventOf_own [PyFloat F] {e : Event F} (h : e.eventType ∈ e.classTypes) :
    @eventOf F (eventModels now) (.obj e.json) = e.construct now e.json := by
  rw [eventOf_eq now (get_eventType e)]
  cases e with
  | usage e =>
    rcases List.mem_cons.mp h with h | h
    · rw [h]
      rfl
    · rw [List.mem_singleton.mp h]
      rfl
  | billingCalculated e =>
    rw [List.mem_singleton.mp h]
    rfl
  | tokensDeducted e =>
    rw [List.mem_singleton.mp h]
    rfl
  | tokensInsufficient e =>
    rw [List.mem_singleton.mp h]
    rfl
  | billingError e =>
    rw [List.mem_singleton.mp h]
    rfl

omit [SerdeFloat F] [Amounts F] [Scalars F] in
theorem not_same_of_class {e : Event F} {A : Type} {o : Option A} {f : A → Event F} (h : ∀ a, ¬ e.Same (f a)) :
    ¬ ∃ e', o.map f = some e' ∧ e.Same e' := by
  rintro ⟨e', he', hs⟩
  obtain ⟨a, -, rfl⟩ := Option.map_eq_some_iff.mp he'
  exact h a hs

/-- With a type of no class, or of another one, no copy of the event comes out. -/
theorem eventOf_other [PyFloat F] {e : Event F} (h : e.eventType ∉ e.classTypes) :
    ¬ ∃ e', @eventOf F (eventModels now) (.obj e.json) = some e' ∧ e.Same e' := by
  rw [eventOf_eq now (get_eventType e)]
  have hnone : ¬ ∃ e' : Event F, False ∧ e.Same e' := fun ⟨_, hfalse, _⟩ => hfalse
  cases e with
  | usage e =>
    split_ifs with h₁
    · exact absurd (List.mem_cons.mpr (h₁.imp_right List.mem_singleton.mpr)) h
    · exact not_same_of_class fun _ => id
    · exact not_same_of_class fun _ => id
    · exact not_same_of_class fun _ => id
    · exact not_same_of_class fun _ => id
    · exact hnone
  | billingCalculated e =>
    split_ifs with _ h₁
    · exact not_same_of_class fun _ => id
    · exact absurd (List.mem_singleton.mpr h₁) h
    · exact not_same_of_class fun _ => id
    · exact not_same_of_class fun _ => id
    · exact not_same_of_class fun _ => id
    · exact hnone
  | tokensDeducted e =>
    split_ifs with _ _ h₁
    · exact not_same_of_class fun _ => id
    · exact not_same_of_class fun _ => id
    · exact absurd (List.mem_singleton.mpr h₁) h
    · exact not_same_of_class fun _ => id
    · exact not_same_of_class fun _ => id
    · exact hnone
  | tokensInsufficient e =>
    split_ifs with _ _ _ h₁
    · exact not_same_of_class fun _ => id
    · exact not_same_of_class fun _ => id
    · exact not_same_of_class fun _ => id
    · exact absurd (List.mem_singleton.mpr h₁) h
    · exact not_same_of_class fun _ => id
    · exact hnone
  | billingError e =>
    split_ifs with _ _ _ _ h₁
    · exact not_same_of_class fun _ => id
    · exact not_same_of_class fun _ => id
    · exact not_same_of_class fun _ => id
    · exact not_same_of_class fun _ => id
    · exact absurd (List.mem_singleton.mpr h₁) h
    · exact hnone

/-! ## What the own class returns -/

omit [Scalars F] in
theorem optional_exact_iff (o : Option PyDecimal) :
    (o.bind (amountRead F)).map decimalValue = o.map decimalValue ↔ ∀ d, o = some d → Exact F d := by
  cases o with
  | none => exact iff_of_true rfl fun d hd => nomatch hd
  | some d =>
    rw [Option.bind_some, Option.map_some, Option.map_eq_some_iff]
    constructor
    · rintro h d' hd
      obtain rfl := Option.some.inj hd
      exact h
    · exact fun h => h d rfl

omit [Amounts F] [Scalars F] in
theorem finite_filter_iff (o : Option F) :
    o.filter SerdeFloat.isFinite = o ↔ ∀ x, o = some x → SerdeFloat.isFinite x = true := by
  cases o with
  | none => exact iff_of_true rfl fun x hx => nomatch hx
  | some x =>
    rw [Option.filter_eq_some_iff]
    constructor
    · rintro ⟨-, h⟩ y hy
      obtain rfl := Option.some.inj hy
      exact h
    · exact fun h => ⟨rfl, h x rfl⟩

variable [LawfulAmounts F]

theorem usage_same_iff {e : UsageEvent F} (hnative : (Event.usage e).NativeDetails)
    (ht : Texts (.obj (Event.usage e).json))
    (hdate : ReadsDate F (Event.usage e).timestamp) :
    (∃ e', (Event.usage e).construct now (Event.usage e).json = some e' ∧ (Event.usage e).Same e') ↔
      (Event.usage e).AmountsExact ∧ wholeMinutes (Event.usage e).timestamp = true := by
  rw [Event.construct, usageEvent_json now hnative ht hdate]
  constructor
  · rintro ⟨e', he', hs⟩
    obtain ⟨x, hx, rfl⟩ := Option.map_eq_some_iff.mp he'
    obtain ⟨usage, husage, hx⟩ := Option.bind_eq_some_iff.mp hx
    obtain ⟨timestamp, hstamp, hx⟩ := Option.bind_eq_some_iff.mp hx
    obtain rfl := Option.some.inj hx
    obtain ⟨-, hvalue, hcredits, hcost⟩ := hs
    exact ⟨⟨⟨usage, husage, hvalue⟩, (optional_exact_iff _).mp hcredits, (optional_exact_iff _).mp hcost⟩,
      (Option.ite_none_right_eq_some.mp hstamp).1⟩
  · rintro ⟨⟨⟨usage, husage, hvalue⟩, hcredits, hcost⟩, hwhole⟩
    have hwhole : wholeMinutes e.timestamp = true := hwhole
    refine ⟨_, by rw [husage, if_pos hwhole]; rfl, ?_⟩
    exact ⟨rfl, hvalue, (optional_exact_iff _).mpr hcredits, (optional_exact_iff _).mpr hcost⟩

theorem billingCalculated_same_iff {e : BillingCalculatedEvent} (ht : Texts (.obj (Event.billingCalculated e : Event F).json))
    (hdate : ReadsDate F (Event.billingCalculated e : Event F).timestamp) :
    (∃ e', (Event.billingCalculated e : Event F).construct now (Event.billingCalculated e : Event F).json = some e' ∧
      (Event.billingCalculated e : Event F).Same e') ↔
      (Event.billingCalculated e : Event F).AmountsExact ∧ wholeMinutes (Event.billingCalculated e : Event F).timestamp = true := by
  rw [Event.construct, billingCalculatedEvent_json now ht hdate]
  constructor
  · rintro ⟨e', he', hs⟩
    obtain ⟨x, hx, rfl⟩ := Option.map_eq_some_iff.mp he'
    obtain ⟨usage, husage, hx⟩ := Option.bind_eq_some_iff.mp hx
    obtain ⟨equivalent, hequivalent, hx⟩ := Option.bind_eq_some_iff.mp hx
    obtain ⟨cost, hcost, hx⟩ := Option.bind_eq_some_iff.mp hx
    obtain ⟨price, hprice, hx⟩ := Option.bind_eq_some_iff.mp hx
    obtain ⟨rate, hrate, hx⟩ := Option.bind_eq_some_iff.mp hx
    obtain ⟨timestamp, hstamp, hx⟩ := Option.bind_eq_some_iff.mp hx
    obtain rfl := Option.some.inj hx
    obtain ⟨-, hs₁, hs₂, hs₃, hs₄, hs₅⟩ := hs
    exact ⟨⟨⟨usage, husage, hs₁⟩, ⟨equivalent, hequivalent, hs₂⟩, ⟨cost, hcost, hs₃⟩, ⟨price, hprice, hs₄⟩,
      ⟨rate, hrate, hs₅⟩⟩, (Option.ite_none_right_eq_some.mp hstamp).1⟩
  · rintro ⟨⟨⟨usage, husage, hs₁⟩, ⟨equivalent, hequivalent, hs₂⟩, ⟨cost, hcost, hs₃⟩, ⟨price, hprice, hs₄⟩,
      ⟨rate, hrate, hs₅⟩⟩, hwhole⟩
    have hwhole : wholeMinutes e.timestamp = true := hwhole
    refine ⟨_, by rw [husage, hequivalent, hcost, hprice, hrate, if_pos hwhole]; rfl, ?_⟩
    exact ⟨rfl, hs₁, hs₂, hs₃, hs₄, hs₅⟩

theorem tokensDeducted_same_iff {e : TokensDeductedEvent F} (ht : Texts (.obj (Event.tokensDeducted e).json))
    (hdate : ReadsDate F (Event.tokensDeducted e).timestamp) :
    (∃ e', (Event.tokensDeducted e).construct now (Event.tokensDeducted e).json = some e' ∧ (Event.tokensDeducted e).Same e') ↔
      (Event.tokensDeducted e).AmountsExact ∧ wholeMinutes (Event.tokensDeducted e).timestamp = true := by
  rw [Event.construct, tokensDeductedEvent_json now ht hdate]
  constructor
  · rintro ⟨e', he', hs⟩
    obtain ⟨x, hx, rfl⟩ := Option.map_eq_some_iff.mp he'
    obtain ⟨deducted, hdeducted, hx⟩ := Option.bind_eq_some_iff.mp hx
    obtain ⟨before, hbefore, hx⟩ := Option.bind_eq_some_iff.mp hx
    obtain ⟨after, hafter, hx⟩ := Option.bind_eq_some_iff.mp hx
    obtain ⟨timestamp, hstamp, hx⟩ := Option.bind_eq_some_iff.mp hx
    obtain rfl := Option.some.inj hx
    obtain ⟨hrest, hs₁, hs₂, hs₃, hquota, hused⟩ := hs
    have hpercentage := congrArg TokensDeductedEvent.percentageUsed hrest
    exact ⟨⟨⟨deducted, hdeducted, hs₁⟩, ⟨before, hbefore, hs₂⟩, ⟨after, hafter, hs₃⟩,
      (optional_exact_iff _).mp hquota, (optional_exact_iff _).mp hused, (finite_filter_iff _).mp hpercentage⟩,
      (Option.ite_none_right_eq_some.mp hstamp).1⟩
  · rintro ⟨⟨⟨deducted, hdeducted, hs₁⟩, ⟨before, hbefore, hs₂⟩, ⟨after, hafter, hs₃⟩, hquota, hused, hpercentage⟩,
      hwhole⟩
    have hwhole : wholeMinutes e.timestamp = true := hwhole
    refine ⟨_, by rw [hdeducted, hbefore, hafter, if_pos hwhole, (finite_filter_iff _).mpr hpercentage]; rfl, ?_⟩
    exact ⟨rfl, hs₁, hs₂, hs₃, (optional_exact_iff _).mpr hquota, (optional_exact_iff _).mpr hused⟩

omit [LawfulAmounts F] in
theorem tokensInsufficient_same_iff {e : TokensInsufficientEvent} (ht : Texts (.obj (Event.tokensInsufficient e : Event F).json))
    (hdate : ReadsDate F (Event.tokensInsufficient e : Event F).timestamp) :
    (∃ e', (Event.tokensInsufficient e : Event F).construct now (Event.tokensInsufficient e : Event F).json = some e' ∧
      (Event.tokensInsufficient e : Event F).Same e') ↔
      (Event.tokensInsufficient e : Event F).AmountsExact ∧ wholeMinutes (Event.tokensInsufficient e : Event F).timestamp = true := by
  rw [Event.construct, tokensInsufficientEvent_json now ht hdate]
  constructor
  · rintro ⟨e', he', hs⟩
    obtain ⟨x, hx, rfl⟩ := Option.map_eq_some_iff.mp he'
    obtain ⟨required, hrequired, hx⟩ := Option.bind_eq_some_iff.mp hx
    obtain ⟨available, havailable, hx⟩ := Option.bind_eq_some_iff.mp hx
    obtain ⟨deficit, hdeficit, hx⟩ := Option.bind_eq_some_iff.mp hx
    obtain ⟨timestamp, hstamp, hx⟩ := Option.bind_eq_some_iff.mp hx
    obtain rfl := Option.some.inj hx
    obtain ⟨-, hs₁, hs₂, hs₃⟩ := hs
    exact ⟨⟨⟨required, hrequired, hs₁⟩, ⟨available, havailable, hs₂⟩, ⟨deficit, hdeficit, hs₃⟩⟩,
      (Option.ite_none_right_eq_some.mp hstamp).1⟩
  · rintro ⟨⟨⟨required, hrequired, hs₁⟩, ⟨available, havailable, hs₂⟩, ⟨deficit, hdeficit, hs₃⟩⟩, hwhole⟩
    have hwhole : wholeMinutes e.timestamp = true := hwhole
    refine ⟨_, by rw [hrequired, havailable, hdeficit, if_pos hwhole]; rfl, ?_⟩
    exact ⟨rfl, hs₁, hs₂, hs₃⟩

theorem billingError_same_iff {e : BillingErrorEvent} (ht : Texts (.obj (Event.billingError e : Event F).json))
    (hdate : ReadsDate F (Event.billingError e : Event F).timestamp) :
    (∃ e', (Event.billingError e : Event F).construct now (Event.billingError e : Event F).json = some e' ∧
      (Event.billingError e : Event F).Same e') ↔
      (Event.billingError e : Event F).AmountsExact ∧ wholeMinutes (Event.billingError e : Event F).timestamp = true := by
  rw [Event.construct, billingErrorEvent_json now ht hdate]
  constructor
  · rintro ⟨e', he', -⟩
    obtain ⟨x, hx, rfl⟩ := Option.map_eq_some_iff.mp he'
    obtain ⟨timestamp, hstamp, -⟩ := Option.bind_eq_some_iff.mp hx
    exact ⟨trivial, (Option.ite_none_right_eq_some.mp hstamp).1⟩
  · rintro ⟨-, hwhole⟩
    have hwhole : wholeMinutes e.timestamp = true := hwhole
    exact ⟨.billingError e, by rw [if_pos hwhole]; rfl, rfl⟩

/-- The own class returns the event when amounts and offset are right. -/
theorem construct_same_iff {e : Event F} (hnative : e.NativeDetails) (ht : Texts (.obj e.json))
    (hdate : ReadsDate F e.timestamp) :
    (∃ e', e.construct now e.json = some e' ∧ e.Same e') ↔ e.AmountsExact ∧ wholeMinutes e.timestamp = true := by
  cases e with
  | usage e => exact usage_same_iff now hnative ht hdate
  | billingCalculated e => exact billingCalculated_same_iff now ht hdate
  | tokensDeducted e => exact tokensDeducted_same_iff now ht hdate
  | tokensInsufficient e => exact tokensInsufficient_same_iff now ht hdate
  | billingError e => exact billingError_same_iff now ht hdate

/-! ## The trip -/

section Trip
variable [PyFloat F] [LawfulPyFloat F] [LawfulSerdeFloat F]

/-- `_deserialize_event`, the default factories returning `now`. -/
def deserializeAt (now : Defaults) (nesting : Nat) (eventData : Bytes) : Option (Event F) :=
  @deserializeEvent F _ (eventModels now) nesting eventData

omit [LawfulAmounts F] in
/-- The object that was written is read. -/
theorem deserialize_json {e : Event F} (hnative : e.NativeDetails) (hfit : e.IntsFit) {nesting : Nat}
    (hdepth : depth (.obj e.json) ≤ nesting) {bytes : Bytes} (hser : serializeEvent e = .ok bytes) :
    deserializeAt now nesting bytes = @eventOf F (eventModels now) (.obj e.json) := by
  have htexts : Texts (.obj e.json) := texts_of_scalar _ (scalar_of_encode hser)
  obtain ⟨hdicts, hfinite⟩ := native_json hnative hfit
  have hload := loads_serdeText (wf_of_texts _ hdicts htexts) hfinite hdepth
  unfold deserializeAt deserializeEvent
  rw [utf8Decode_of_encode hser]
  dsimp only
  rw [Event.modelDumpJson, hload]

omit [LawfulAmounts F] in
/-- An integer that is too long is written, but not read. -/
theorem deserialize_too_long {e : BillingErrorEvent} (hlong : ¬ (Event.billingError e : Event F).IntsFit) {nesting : Nat}
    (hdepth : depth (.obj (Event.billingError e : Event F).json) ≤ nesting) {bytes : Bytes}
    (hser : serializeEvent (.billingError e : Event F) = .ok bytes) :
    deserializeAt now nesting bytes = (none : Option (Event F)) := by
  have htexts : Texts (.obj (Event.billingError e : Event F).json) := texts_of_scalar _ (scalar_of_encode hser)
  have hlong : intMaxStrDigits < (natText e.retryCount.natAbs).length := Nat.lt_of_not_le hlong
  have hkinds : ∀ x ∈ (Event.billingError e : Event F).modelDump,
      Native (jsonEncoded x.2) ∨ x.2 = .int e.retryCount := by
    simp [Event.modelDump]
  have hmembers : ∀ kv ∈ (Event.billingError e : Event F).json, Native kv.2 ∨ kv.2 = .int e.retryCount := by
    intro kv hkv
    obtain ⟨x, hx, rfl⟩ := List.mem_map.mp hkv
    exact (hkinds x hx).imp_right fun h => by rw [h]; rfl
  have hfinite : Finite (.obj (Event.billingError e : Event F).json) := by
    refine finiteMembers_iff.mpr fun kv hkv => ?_
    rcases hmembers kv hkv with h | h
    · exact h.2
    · rw [h]
      trivial
  have hreadable : ∀ kv ∈ (Event.billingError e : Event F).json, splitFree kv.1 = true ∧
      (WF kv.2 ∧ depth kv.2 < nesting ∨ ∃ n, kv.2 = .int n ∧ intMaxStrDigits < (natText n.natAbs).length) := by
    intro kv hkv
    obtain ⟨hk, hv⟩ := textsMembers_iff.mp htexts kv hkv
    refine ⟨splitFree_of_plain (plain_of_isText hk), ?_⟩
    rcases hmembers kv hkv with h | h
    · exact Or.inl ⟨wf_of_texts _ h.1 hv, Nat.lt_of_le_of_lt (depthMembers_le_iff.mp (Nat.le_refl _) kv hkv) hdepth⟩
    · exact Or.inr ⟨_, h, hlong⟩
  have hbad : ∃ kv ∈ (Event.billingError e : Event F).json, ∃ n, kv.2 = .int n ∧
      intMaxStrDigits < (natText n.natAbs).length :=
    ⟨(lit "retry_count", .int e.retryCount), List.mem_of_getElem? (i := 7) rfl, e.retryCount, rfl, hlong⟩
  have hlawful : @LawfulPyFloat F serdeFloats := serdeFloats_lawful
  obtain ⟨error, herror⟩ := @loads_fails F serdeFloats hlawful _ nesting hreadable hbad _ (spells_serdeText _ hfinite)
  rw [loads_serdeFloats] at herror
  unfold deserializeAt deserializeEvent
  rw [utf8Decode_of_encode hser]
  dsimp only
  rw [Event.modelDumpJson, herror]

/-- The trip of an event with JSON details whose text can be encoded. -/
theorem event_survives_iff {e : Event F} (hnative : e.NativeDetails) (hdate : ReadsDate F e.timestamp) {nesting : Nat}
    (hdepth : depth (.obj e.json) ≤ nesting) {bytes : Bytes} (hser : serializeEvent e = .ok bytes) :
    (∃ e', deserializeAt now nesting bytes = some e' ∧ e.Same e') ↔ e.Survives := by
  have htexts : Texts (.obj e.json) := texts_of_scalar _ (scalar_of_encode hser)
  by_cases hfit : e.IntsFit
  · rw [deserialize_json now hnative hfit hdepth hser]
    by_cases htype : e.eventType ∈ e.classTypes
    · rw [eventOf_own now htype, construct_same_iff now hnative htexts hdate]
      constructor
      · rintro ⟨hamounts, hwhole⟩
        exact ⟨htype, hamounts, hwhole, hfit⟩
      · intro h
        exact ⟨h.amounts, h.offset⟩
    · exact iff_of_false (eventOf_other now htype) fun h => htype h.eventType
  · refine iff_of_false ?_ fun h => hfit h.fits
    cases e with
    | billingError e =>
      rw [deserialize_too_long now hfit hdepth hser]
      rintro ⟨e', he', -⟩
      cases he'
    | _ => exact absurd trivial hfit

end Trip

/-! ## Whole amounts -/

section Whole

@[reducible] def wholeSerde : SerdeFloat WholeFloat where
  text
    | .whole n => WholeFloat.wholeText n
    | _ => lit "null"
  isFinite
    | .whole _ => true
    | _ => false

/-- The whole part of a decimal. -/
def wholePart (d : PyDecimal) : Int :=
  (if d.negative then -1 else 1) * (d.digits * 10 ^ d.exponent.toNat / 10 ^ (-d.exponent).toNat : Nat)

def exponentMark : CodePoint := cp 'E'

def scientificText (d : PyDecimal) : Str :=
  (if d.negative then [minus] else []) ++ (natText d.digits ++ exponentMark :: intText d.exponent)

def ofScientific (s : Str) : PyDecimal :=
  let negative := s.head? = some minus
  let unsigned := if negative then s.drop 1 else s
  ⟨negative, digitsValue (unsigned.takeWhile isDigit), intValue ((unsigned.dropWhile isDigit).drop 1)⟩

/-- Doubles without a fraction, below `10 ^ 16`. -/
@[reducible] def wholeAmounts : Amounts WholeFloat where
  ofDecimal d := .whole (Binary64.ofInt (wholePart d))
  toDecimal
    | .whole n => ⟨decide (n < 0), 10 * n.natAbs, -1⟩
    | _ => ⟨false, 0, 0⟩
  decimalText := scientificText
  decimal s := some (ofScientific s)
  datetimeText t := t.isoformat

@[reducible] def wholeScalars : Scalars WholeFloat where
  int
    | .int n => some n
    | _ => none
  float
    | .float x => some x
    | _ => none
  bool
    | .bool b => some b
    | _ => none
  datetime
    | .str s => (fromisoformat s).toOption
    | _ => none

attribute [local instance] wholeSerde wholeAmounts wholeScalars

theorem ofScientific_scientificText (d : PyDecimal) : ofScientific (scientificText d) = d := by
  obtain ⟨negative, digits, exponent⟩ := d
  have hhead := (intPart_natText digits).2
  have hne : natText digits ≠ [] := by
    obtain ⟨c, rest, hc, -⟩ := intPart_head (intPart_natText digits).1
    rw [hc]
    exact List.cons_ne_nil c rest
  have hmark : isDigit exponentMark = false := by decide
  have hdigits : ∀ c ∈ natText digits, isDigit c = true := fun c hc => isDigit_of_mem_natText hc
  obtain ⟨htake, hdrop⟩ := takeWhile_digits (r := exponentMark :: intText exponent) hdigits (by
    intro c rest hc
    rw [← (List.cons.inj hc).1]
    exact hmark)
  cases negative with
  | false =>
    have hsign : ¬ (natText digits ++ exponentMark :: intText exponent).head? = some minus := by
      rw [List.head?_append_of_ne_nil _ hne]
      exact hhead
    simp only [ofScientific, scientificText, Bool.false_eq_true, if_false, List.nil_append, hsign, htake, hdrop,
      List.drop_succ_cons, List.drop_zero, digitsValue_natText, intValue_intText, decide_false]
  | true =>
    simp only [ofScientific, scientificText, if_true, List.cons_append, List.nil_append, List.head?_cons,
      List.drop_succ_cons, List.drop_zero, htake, hdrop, digitsValue_natText, intValue_intText, decide_true]

theorem wholeSerde_lawful : LawfulSerdeFloat WholeFloat where
  text_spec x hx := by
    cases x with
    | whole n =>
      have hzero : FractionPart (cp '.' :: digit 0 :: []) := .digits (by decide) (by simp)
      exact ⟨intText n, lit ".0", [], intPart_intText n, hzero, .none, Or.inl (by decide), (List.append_nil _).symm,
        WholeFloat.parse_wholeText n⟩
    | _ => cases hx

theorem wholeAmounts_lawful : LawfulAmounts WholeFloat where
  decimal_text d := congrArg some (ofScientific_scientificText d)
  int _ := rfl
  bool _ := rfl
  float _ _ := rfl

attribute [local instance] wholeSerde_lawful wholeAmounts_lawful

def insufficient (required : Nat) : TokensInsufficientEvent :=
  ⟨lit "wallet.tokens.insufficient", lit "evt_1", lit "u1", lit "b1", ⟨false, required, 0⟩, ⟨false, 40, 0⟩,
    ⟨false, required - 40, 0⟩, lit "upgrade_plan", ⟨63871286400000000, some 0⟩⟩

def insufficientEvent (required : Nat) : Event WholeFloat := .tokensInsufficient (insufficient required)

def clock : Defaults := ⟨lit "evt_0", ⟨0, none⟩⟩

def published (e : Event WholeFloat) : Bytes := e.modelDumpJson.flatMap encodePoint

theorem serialize_published {e : Event WholeFloat} (h : (e.modelDumpJson.any fun c => isSurrogate c.val) = false) :
    serializeEvent e = .ok (published e) := by
  unfold serializeEvent utf8Encode
  rw [h]
  rfl

theorem hundred_survives : ∃ e', deserializeAt clock 10 (published (insufficientEvent 100)) = some e' ∧
    (insufficientEvent 100).Same e' := by
  have hser := serialize_published (e := insufficientEvent 100) (by decide +kernel)
  have hdate : ReadsDate WholeFloat (insufficientEvent 100).timestamp := by
    unfold ReadsDate
    decide
  refine (event_survives_iff clock (e := insufficientEvent 100) trivial hdate (by decide) hser).mpr
    ⟨List.mem_singleton.mpr rfl, ?_, rfl, trivial⟩
  refine ⟨⟨⟨false, 1000, -1⟩, by decide +kernel, ?_⟩, ⟨⟨false, 400, -1⟩, by decide, ?_⟩,
    ⟨⟨false, 600, -1⟩, by decide, ?_⟩⟩
  · norm_num [decimalValue, insufficient]
  · norm_num [decimalValue, insufficient]
  · norm_num [decimalValue, insufficient]

def Event.tokensInsufficient? : Event F → Option TokensInsufficientEvent
  | tokensInsufficient e => some e
  | _ => none

/-- `2 ^ 53 + 1` tokens are no float: one of them is lost on the way. -/
theorem one_token_lost :
    (∃ e' : Event WholeFloat, deserializeAt clock 10 (published (insufficientEvent 9007199254740993)) = some e') ∧
      ¬ ∃ e', deserializeAt clock 10 (published (insufficientEvent 9007199254740993)) = some e' ∧
        (insufficientEvent 9007199254740993).Same e' := by
  have hread : (deserializeAt (F := WholeFloat) clock 10 (published (insufficientEvent 9007199254740993))).bind
      Event.tokensInsufficient? =
        some { insufficient 9007199254740993 with
          tokensRequired := ⟨false, 90071992547409920, -1⟩
          tokensAvailable := ⟨false, 400, -1⟩
          tokensDeficit := ⟨false, 90071992547409530, -1⟩ } := by
    decide +kernel
  obtain ⟨e, he, hk⟩ := Option.bind_eq_some_iff.mp hread
  refine ⟨⟨e, he⟩, ?_⟩
  rintro ⟨e', he', hs⟩
  obtain rfl := Option.some.inj (he.symm.trans he')
  cases e with
  | tokensInsufficient e =>
    obtain rfl := Option.some.inj hk
    obtain ⟨-, hvalue, -⟩ := hs
    norm_num [decimalValue, insufficient] at hvalue
  | _ => cases hk

end Whole

end IsaCloud.Events
