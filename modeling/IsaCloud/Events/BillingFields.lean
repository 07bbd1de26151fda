import IsaCloud.Events.BillingJson

/-!
# Fields of a written event

What the five constructors make of an object that was written from an event: each
field is read by the place it was written at. Texts, enumerations, flags and
components come back; an amount comes back as the decimal of its float, and a
timestamp if its offset has no seconds.
-/

namespace IsaCloud.Events

set_option autoImplicit false

open Support Support.Text Support.Python Support.Encoding Support.IsoTime Support.DateTime Support.Json Support.Pydantic

variable {F : Type}

/-! ## The written object -/

section Fields

theorem nodup_modelDump (e : Event F) : (e.modelDump.map Prod.fst).Nodup := by
  cases e with
  | usage e =>
    simp only [Event.modelDump, List.map_cons, List.map_nil]
    decide +kernel
  | billingCalculated e =>
    simp only [Event.modelDump, List.map_cons, List.map_nil]
    decide +kernel
  | tokensDeducted e =>
    simp only [Event.modelDump, List.map_cons, List.map_nil]
    decide
  | tokensInsufficient e =>
    simp only [Event.modelDump, List.map_cons, List.map_nil]
    decide +kernel
  | billingError e =>
    simp only [Event.modelDump, List.map_cons, List.map_nil]
    decide +kernel

theorem unitType_member (u : UnitType) : unitType (.str u.value : Json F) = some u := by
  cases u <;> rfl

theorem billingAccountType_member (a : BillingAccountType) :
    billingAccountType (.str a.value : Json F) = some a := by
  cases a <;> rfl

theorem billingSurface_member (s : BillingSurface) : billingSurface (.str s.value : Json F) = some s := by
  cases s <;> rfl

theorem costComponentType_member (c : CostComponentType) :
    costComponentType (.str c.value : Json F) = some c := by
  cases c <;> rfl

variable {m : Members F} {key : String}

theorem texts_at (ht : Texts (.obj m)) (i : Nat) {k : Str} {j : Json F} (h : m[i]? = some (k, j)) : Texts j :=
  (textsMembers_iff.mp ht _ (List.mem_of_getElem? h)).2

theorem isText_at (ht : Texts (.obj m)) (i : Nat) {s : Str} (h : m[i]? = some (lit key, .str s)) : isText s = true :=
  texts_at ht i h

theorem text_required (hm : m.keys.Nodup) (ht : Texts (.obj m)) (i : Nat) {s : Str}
    (h : m[i]? = some (lit key, .str s)) : required m key text = some s :=
  (required_at hm i h).trans (if_pos (isText_at ht i h))

theorem text_field (hm : m.keys.Nodup) (ht : Texts (.obj m)) {default : Str} (i : Nat) {s : Str}
    (h : m[i]? = some (lit key, .str s)) : fieldOr m key default text = some s :=
  (fieldOr_at hm i h).trans (if_pos (isText_at ht i h))

theorem optional_text_field (hm : m.keys.Nodup) (ht : Texts (.obj m)) (i : Nat) {o : Option Str} {j : Json F}
    (h : m[i]? = some (lit key, j)) (hj : j = jsonOption .str o) : fieldOr m key none (optional text) = some o := by
  subst hj
  refine (fieldOr_at hm i h).trans (optional_jsonOption Json.str (fun _ hs => nomatch hs) fun s ho => ?_)
  subst ho
  exact if_pos (isText_at ht i h)

end Fields

variable [SerdeFloat F] [Amounts F]

theorem jsonMode_optional {A : Type} (f : A → PyValue F) (o : Option A) :
    jsonMode (PyValue.optional f o) = jsonOption (fun a => jsonMode (f a)) o := by
  cases o with
  | none => rfl
  | some a => rfl

theorem jsonEncoded_optional {A : Type} (f : A → PyValue F) (o : Option A) :
    jsonEncoded (PyValue.optional f o) = jsonOption (fun a => jsonEncoded (f a)) o := by
  cases o with
  | none => rfl
  | some a => rfl

theorem nodup_json (e : Event F) : Members.keys e.json |>.Nodup := by
  rw [Members.keys, Event.json, List.map_map]
  exact nodup_modelDump e

/-! ## What can be written and read at all -/

section Native

omit [Amounts F] in
theorem native_number (x : F) : Native (number x) := by
  unfold number
  split
  · rename_i hx
    exact ⟨trivial, hx⟩
  · exact ⟨trivial, trivial⟩

omit [Amounts F] in
theorem native_option {A : Type} {f : A → Json F} (h : ∀ a, Native (f a)) (o : Option A) : Native (jsonOption f o) := by
  cases o with
  | none => exact ⟨trivial, trivial⟩
  | some a => exact h a

@[simp] theorem native_str (s : Str) : Native (jsonEncoded (.str s) : Json F) := ⟨trivial, trivial⟩

@[simp] theorem native_member (s : Str) : Native (jsonEncoded (.member s) : Json F) := ⟨trivial, trivial⟩

@[simp] theorem native_bool (b : Bool) : Native (jsonEncoded (.bool b) : Json F) := ⟨trivial, trivial⟩

@[simp] theorem native_decimal (d : PyDecimal) : Native (jsonEncoded (.decimal d) : Json F) := native_number _

@[simp] theorem native_datetime (t : PyDateTime) : Native (jsonEncoded (.datetime t) : Json F) := ⟨trivial, trivial⟩

@[simp] theorem native_float (x : F) : Native (jsonEncoded (.float x)) := native_number x

@[simp] theorem native_optional {A : Type} {f : A → PyValue F} (h : ∀ a, Native (jsonEncoded (f a))) (o : Option A) :
    Native (jsonEncoded (PyValue.optional f o)) := by
  rw [jsonEncoded_optional]
  exact native_option h o

end Native

/-! ## Values that are written and read -/

/-- What the libraries read back of what was written. -/
class LawfulAmounts (F : Type) [SerdeFloat F] [Amounts F] [Scalars F] : Prop where
  decimal_text : ∀ d, Amounts.decimal F (Amounts.decimalText F d) = some d
  int : ∀ n, Scalars.int (.int n : Json F) = some n
  bool : ∀ b, Scalars.bool (.bool b : Json F) = some b
  float : ∀ x : F, SerdeFloat.isFinite x = true → Scalars.float (.float x) = some x

section Values

theorem jsonMode_ofJson (j : Json F) (hf : Finite j) : jsonMode (PyValue.ofJson j) = j := by
  induction j using inside_induction with
  | null | bool | int | str => rfl
  | float x => exact if_pos hf
  | arr xs ih =>
    have hfinite := finiteElems_iff.mp hf
    have helems : ∀ ys : List (Json F), (∀ y ∈ ys, y ∈ xs) → jsonElems (PyValue.ofElems ys) = ys := by
      intro ys
      induction ys with
      | nil => exact fun _ => rfl
      | cons y ys ihs =>
        intro hsub
        have hy := hsub y List.mem_cons_self
        rw [PyValue.ofElems, jsonElems, ih y hy (hfinite y hy), ihs fun z hz => hsub z (List.mem_cons_of_mem y hz)]
    exact congrArg Json.arr (helems xs fun _ hy => hy)
  | obj m ih =>
    have hfinite := finiteMembers_iff.mp hf
    have hmembers : ∀ n : Members F, (∀ kv ∈ n, kv ∈ m) → jsonMembers (PyValue.ofMembers n) = n := by
      intro n
      induction n with
      | nil => exact fun _ => rfl
      | cons kv n ihs =>
        intro hsub
        have hkv := hsub kv List.mem_cons_self
        rw [PyValue.ofMembers, jsonMembers, ih kv hkv (hfinite kv hkv),
          ihs fun x hx => hsub x (List.mem_cons_of_mem kv hx)]
    exact congrArg Json.obj (hmembers m fun _ hkv => hkv)

theorem details_json {m : Members F} (hf : Finite (.obj m)) (ht : Texts (.obj m)) :
    details (jsonMode (.dict (PyValue.ofMembers m))) = some m := by
  have hmode : jsonMode (.dict (PyValue.ofMembers m)) = .obj m := jsonMode_ofJson (.obj m) hf
  rw [hmode]
  exact if_pos (List.all_eq_true.mpr fun kv hkv => (textsMembers_iff.mp ht kv hkv).1)

theorem jsonElems_map {A : Type} (f : A → PyValue F) (as : List A) :
    jsonElems (as.map f) = as.map fun a => jsonMode (f a) := by
  induction as with
  | nil => rfl
  | cons a as ih => rw [List.map_cons, jsonElems, ih, List.map_cons]

theorem native_costComponent (c : CostComponent) : Native (jsonMode c.modelDump : Json F) := by
  apply native_obj (m := jsonMembers _)
  · simp only [jsonMembers, Members.keys, List.map_cons, List.map_nil]
    decide +kernel
  · have hscalar : ∀ s : Str, Native (.str s : Json F) := fun s => ⟨trivial, trivial⟩
    have hbool : ∀ b : Bool, Native (.bool b : Json F) := fun b => ⟨trivial, trivial⟩
    have hoption : ∀ {A : Type} (f : A → PyValue F) (o : Option A), (∀ a, Native (jsonMode (f a))) →
        Native (jsonMode (PyValue.optional f o)) := by
      intro A f o h
      rw [jsonMode_optional]
      exact native_option h o
    simp only [jsonMembers, List.forall_mem_cons]
    exact ⟨hscalar _, hscalar _, hbool _, hbool _, hoption _ _ hscalar, hoption _ _ hscalar,
      hoption _ _ fun u => hscalar u.value, hoption _ _ fun d => hscalar _, hoption _ _ hscalar, fun x hx => absurd hx List.not_mem_nil⟩

theorem native_costComponents (cs : List CostComponent) :
    Native (jsonEncoded (.list (cs.map CostComponent.modelDump)) : Json F) := by
  change Native (.arr (jsonElems (cs.map CostComponent.modelDump)) : Json F)
  rw [jsonElems_map]
  apply native_arr
  intro j hj
  obtain ⟨c, -, rfl⟩ := List.mem_map.mp hj
  exact native_costComponent c

theorem native_details {m : Members F} (h : Native (.obj m)) :
    Native (jsonEncoded (.dict (PyValue.ofMembers m)) : Json F) := by
  have hmode : jsonEncoded (.dict (PyValue.ofMembers m)) = .obj m := jsonMode_ofJson (.obj m) h.2
  rw [hmode]
  exact h

variable [Scalars F]

theorem costComponent_json [LawfulAmounts F] {c : CostComponent} (ht : Texts (jsonMode c.modelDump : Json F)) :
    costComponent (jsonMode c.modelDump : Json F) = some c := by
  have hmode : (jsonMode c.modelDump : Json F) = .obj (jsonMembers [
      (lit "component_id", .str c.componentId),
      (lit "component_type", .member c.componentType.value),
      (lit "bundled", .bool c.bundled),
      (lit "customer_visible", .bool c.customerVisible),
      (lit "provider", PyValue.optional .str c.provider),
      (lit "meter_type", PyValue.optional .str c.meterType),
      (lit "unit_type", PyValue.optional (fun u => .member u.value) c.unitType),
      (lit "usage_amount", PyValue.optional .decimal c.usageAmount),
      (lit "notes", PyValue.optional .str c.notes)]) := rfl
  rw [hmode] at ht ⊢
  generalize hm : (jsonMembers _ : Members F) = m at ht ⊢
  have hnodup : m.keys.Nodup := by
    subst hm
    simp only [jsonMembers, Members.keys, List.map_cons, List.map_nil]
    decide +kernel
  have hid : required m "component_id" text = some c.componentId := text_required hnodup ht 0 (by rw [← hm]; rfl)
  have htype : required m "component_type" costComponentType = some c.componentType :=
    (required_at hnodup 1 (by rw [← hm]; rfl)).trans (costComponentType_member _)
  have hbundled : fieldOr m "bundled" true Scalars.bool = some c.bundled :=
    (fieldOr_at hnodup 2 (by rw [← hm]; rfl)).trans (LawfulAmounts.bool _)
  have hvisible : fieldOr m "customer_visible" false Scalars.bool = some c.customerVisible :=
    (fieldOr_at hnodup 3 (by rw [← hm]; rfl)).trans (LawfulAmounts.bool _)
  have hprovider : fieldOr m "provider" none (optional text) = some c.provider :=
    optional_text_field hnodup ht 4 (by rw [← hm]; rfl) (jsonMode_optional _ _)
  have hmeter : fieldOr m "meter_type" none (optional text) = some c.meterType :=
    optional_text_field hnodup ht 5 (by rw [← hm]; rfl) (jsonMode_optional _ _)
  have hunit : fieldOr m "unit_type" none (optional unitType) = some c.unitType := by
    refine (fieldOr_at hnodup 6 (by rw [← hm]; rfl)).trans ?_
    rw [jsonMode_optional]
    exact optional_jsonOption (fun u => .str (UnitType.value u)) (fun _ hs => by cases hs) fun u _ => unitType_member u
  have husage : fieldOr m "usage_amount" none (optional amount) = some c.usageAmount := by
    refine (fieldOr_at hnodup 7 (by rw [← hm]; rfl)).trans ?_
    rw [jsonMode_optional]
    exact optional_jsonOption (fun d => .str (Amounts.decimalText F d)) (fun _ hs => by cases hs) fun d _ =>
      LawfulAmounts.decimal_text d
  have hnotes : fieldOr m "notes" none (optional text) = some c.notes :=
    optional_text_field hnodup ht 8 (by rw [← hm]; rfl) (jsonMode_optional _ _)
  unfold costComponent
  dsimp only
  rw [hid, htype, hbundled, hvisible, hprovider, hmeter, hunit, husage, hnotes]
  rfl

theorem costComponents_json [LawfulAmounts F] (cs : List CostComponent)
    (ht : Texts (jsonMode (.list (cs.map CostComponent.modelDump)) : Json F)) :
    listOf costComponent (jsonMode (.list (cs.map CostComponent.modelDump)) : Json F) = some cs := by
  have hmode : (jsonMode (.list (cs.map CostComponent.modelDump)) : Json F) =
      .arr (cs.map fun c => jsonMode c.modelDump) := congrArg Json.arr (jsonElems_map _ cs)
  rw [hmode] at ht ⊢
  have hread := textsElems_iff.mp ht
  change (cs.map fun c => jsonMode c.modelDump).mapM costComponent = some cs
  clear ht hmode
  induction cs with
  | nil => rfl
  | cons c cs ih =>
    rw [List.map_cons, List.mapM_cons, costComponent_json (hread _ List.mem_cons_self),
      ih fun x hx => hread x (List.mem_cons_of_mem _ hx)]
    rfl

end Values

/-! ## Amounts and dates -/

/-- What an amount comes back as. -/
def amountRead (F : Type) [SerdeFloat F] [Amounts F] (d : PyDecimal) : Option PyDecimal :=
  if SerdeFloat.isFinite (Amounts.ofDecimal d : F) then some (Amounts.toDecimal (Amounts.ofDecimal d : F)) else none

theorem amount_json (d : PyDecimal) : amount (jsonEncoded (.decimal d) : Json F) = amountRead F d := by
  change amount (number (Amounts.ofDecimal d : F)) = _
  unfold number amountRead
  cases hf : SerdeFloat.isFinite (Amounts.ofDecimal d : F) with
  | false => rfl
  | true => exact if_pos hf

theorem optional_amount_json (o : Option PyDecimal) :
    optional amount (jsonEncoded (PyValue.optional .decimal o) : Json F) = some (o.bind (amountRead F)) := by
  cases o with
  | none => rfl
  | some d =>
    change optional amount (number (Amounts.ofDecimal d : F)) = some (amountRead F d)
    unfold number amountRead
    cases hf : SerdeFloat.isFinite (Amounts.ofDecimal d : F) with
    | false => rfl
    | true => exact congrArg (Option.map some) (if_pos hf)

variable [Scalars F]

theorem optional_float_json [LawfulAmounts F] (o : Option F) :
    optional Scalars.float (jsonEncoded (PyValue.optional .float o) : Json F) =
      some (o.filter SerdeFloat.isFinite) := by
  cases o with
  | none => rfl
  | some x =>
    change optional Scalars.float (number x) = _
    unfold number
    rw [Option.filter_some]
    cases hf : SerdeFloat.isFinite x with
    | false => rfl
    | true => exact congrArg (Option.map some) (LawfulAmounts.float x hf)

def wholeMinutes (t : PyDateTime) : Bool :=
  match t.offset with
  | none => true
  | some offset => offset % usPerMinute == 0

/-- Dates are read with an offset of hours and minutes, and no other. -/
def ReadsDate (F : Type) [Scalars F] (t : PyDateTime) : Prop :=
  Scalars.datetime (.str t.isoformat : Json F) = if wholeMinutes t then some t else none

/-! ## The constructors on what was written -/

section Constructors
variable (now : Defaults)

theorem tokensInsufficientEvent_json {e : TokensInsufficientEvent}
    (ht : Texts (.obj (Event.tokensInsufficient e : Event F).json)) (hdate : ReadsDate F e.timestamp) :
    tokensInsufficientEvent now (Event.tokensInsufficient e : Event F).json =
      (amountRead F e.tokensRequired).bind fun required =>
      (amountRead F e.tokensAvailable).bind fun available =>
      (amountRead F e.tokensDeficit).bind fun deficit =>
      (if wholeMinutes e.timestamp then some e.timestamp else none).bind fun timestamp =>
        some { e with tokensRequired := required, tokensAvailable := available, tokensDeficit := deficit, timestamp } := by
  have hn := nodup_json (Event.tokensInsufficient e : Event F)
  unfold tokensInsufficientEvent
  rw [text_field hn ht 0 rfl, text_field hn ht 1 rfl, text_required hn ht 2 rfl, text_required hn ht 3 rfl,
    (required_at hn 4 rfl).trans (amount_json e.tokensRequired),
    (required_at hn 5 rfl).trans (amount_json e.tokensAvailable),
    (required_at hn 6 rfl).trans (amount_json e.tokensDeficit), text_field hn ht 7 rfl,
    (fieldOr_at hn 8 rfl).trans hdate]
  rfl

theorem billingErrorEvent_json [LawfulAmounts F] {e : BillingErrorEvent}
    (ht : Texts (.obj (Event.billingError e : Event F).json)) (hdate : ReadsDate F e.timestamp) :
    billingErrorEvent now (Event.billingError e : Event F).json =
      (if wholeMinutes e.timestamp then some e.timestamp else none).bind fun timestamp =>
        some { e with timestamp } := by
  have hn := nodup_json (Event.billingError e : Event F)
  unfold billingErrorEvent
  rw [text_field hn ht 0 rfl, text_field hn ht 1 rfl, text_required hn ht 2 rfl, text_required hn ht 3 rfl,
    text_required hn ht 4 rfl, text_required hn ht 5 rfl, text_required hn ht 6 rfl,
    (fieldOr_at hn 7 rfl).trans (LawfulAmounts.int e.retryCount), (fieldOr_at hn 8 rfl).trans hdate]
  rfl

theorem tokensDeductedEvent_json [LawfulAmounts F] {e : TokensDeductedEvent F}
    (ht : Texts (.obj (Event.tokensDeducted e).json)) (hdate : ReadsDate F e.timestamp) :
    tokensDeductedEvent now (Event.tokensDeducted e).json =
      (amountRead F e.tokensDeducted).bind fun deducted =>
      (amountRead F e.balanceBefore).bind fun before =>
      (amountRead F e.balanceAfter).bind fun after =>
      (if wholeMinutes e.timestamp then some e.timestamp else none).bind fun timestamp =>
        some { e with tokensDeducted := deducted, balanceBefore := before, balanceAfter := after,
                      monthlyQuota := e.monthlyQuota.bind (amountRead F),
                      monthlyUsed := e.monthlyUsed.bind (amountRead F),
                      percentageUsed := e.percentageUsed.filter SerdeFloat.isFinite, timestamp } := by
  have hn := nodup_json (Event.tokensDeducted e)
  unfold tokensDeductedEvent
  rw [text_field hn ht 0 rfl, text_field hn ht 1 rfl, text_required hn ht 2 rfl, text_required hn ht 3 rfl,
    text_required hn ht 4 rfl,
    (required_at hn 5 rfl).trans (amount_json e.tokensDeducted),
    (required_at hn 6 rfl).trans (amount_json e.balanceBefore),
    (required_at hn 7 rfl).trans (amount_json e.balanceAfter),
    (fieldOr_at hn 8 rfl).trans (optional_amount_json e.monthlyQuota),
    (fieldOr_at hn 9 rfl).trans (optional_amount_json e.monthlyUsed),
    (fieldOr_at hn 10 rfl).trans (optional_float_json e.percentageUsed), (fieldOr_at hn 11 rfl).trans hdate]
  rfl

theorem billingCalculatedEvent_json [LawfulAmounts F] {e : BillingCalculatedEvent}
    (ht : Texts (.obj (Event.billingCalculated e : Event F).json)) (hdate : ReadsDate F e.timestamp) :
    billingCalculatedEvent now (Event.billingCalculated e : Event F).json =
      (amountRead F e.actualUsage).bind fun usage =>
      (amountRead F e.tokenEquivalent).bind fun equivalent =>
      (amountRead F e.costUsd).bind fun cost =>
      (amountRead F e.unitPrice).bind fun price =>
      (amountRead F e.tokenConversionRate).bind fun rate =>
      (if wholeMinutes e.timestamp then some e.timestamp else none).bind fun timestamp =>
        some { e with actualUsage := usage, tokenEquivalent := equivalent, costUsd := cost, unitPrice := price,
                      tokenConversionRate := rate, timestamp } := by
  have hn := nodup_json (Event.billingCalculated e : Event F)
  unfold billingCalculatedEvent
  rw [text_field hn ht 0 rfl, text_field hn ht 1 rfl, text_required hn ht 2 rfl, text_required hn ht 3 rfl,
    text_required hn ht 4 rfl, text_required hn ht 5 rfl,
    (required_at hn 6 rfl).trans (amount_json e.actualUsage),
    (required_at hn 7 rfl).trans (unitType_member e.unitType),
    (required_at hn 8 rfl).trans (amount_json e.tokenEquivalent),
    (required_at hn 9 rfl).trans (amount_json e.costUsd),
    (required_at hn 10 rfl).trans (amount_json e.unitPrice),
    (required_at hn 11 rfl).trans (amount_json e.tokenConversionRate),
    (fieldOr_at hn 12 rfl).trans (LawfulAmounts.bool e.isFreeTier),
    (fieldOr_at hn 13 rfl).trans (LawfulAmounts.bool e.isIncludedInSubscription), (fieldOr_at hn 14 rfl).trans hdate]
  rfl

theorem usageEvent_json [LawfulAmounts F] {e : UsageEvent F} (hnative : Native (.obj e.usageDetails))
    (ht : Texts (.obj (Event.usage e).json)) (hdate : ReadsDate F e.timestamp) :
    usageEvent now (Event.usage e).json =
      (amountRead F e.usageAmount).bind fun usage =>
      (if wholeMinutes e.timestamp then some e.timestamp else none).bind fun timestamp =>
        some { e with usageAmount := usage, creditsUsed := e.creditsUsed.bind (amountRead F),
                      costUsd := e.costUsd.bind (amountRead F), timestamp } := by
  have hn := nodup_json (Event.usage e)
  have haccount : optional billingAccountType
      (jsonEncoded (PyValue.optional (fun t => .member t.value) e.billingAccountType) : Json F) =
        some e.billingAccountType := by
    rw [jsonEncoded_optional]
    exact optional_jsonOption (fun t => .str (BillingAccountType.value t)) (fun _ hs => nomatch hs) fun t _ =>
      billingAccountType_member t
  have htexts : Texts (.obj e.usageDetails) := by
    rw [← jsonMode_ofJson (.obj e.usageDetails) hnative.2]
    exact texts_at ht 20 rfl
  unfold usageEvent
  rw [text_field hn ht 0 rfl, text_field hn ht 1 rfl, text_field hn ht 2 rfl, text_required hn ht 3 rfl,
    optional_text_field hn ht 4 rfl (jsonEncoded_optional _ _), (fieldOr_at hn 5 rfl).trans haccount,
    optional_text_field hn ht 6 rfl (jsonEncoded_optional _ _),
    optional_text_field hn ht 7 rfl (jsonEncoded_optional _ _),
    optional_text_field hn ht 8 rfl (jsonEncoded_optional _ _),
    optional_text_field hn ht 9 rfl (jsonEncoded_optional _ _), text_required hn ht 10 rfl,
    optional_text_field hn ht 11 rfl (jsonEncoded_optional _ _),
    optional_text_field hn ht 12 rfl (jsonEncoded_optional _ _),
    optional_text_field hn ht 13 rfl (jsonEncoded_optional _ _),
    optional_text_field hn ht 14 rfl (jsonEncoded_optional _ _),
    optional_text_field hn ht 15 rfl (jsonEncoded_optional _ _),
    (required_at hn 16 rfl).trans (amount_json e.usageAmount),
    (required_at hn 17 rfl).trans (unitType_member e.unitType),
    optional_text_field hn ht 18 rfl (jsonEncoded_optional _ _),
    optional_text_field hn ht 19 rfl (jsonEncoded_optional _ _),
    (fieldOr_at hn 20 rfl).trans (details_json hnative.2 htexts),
    (fieldOr_at hn 21 rfl).trans (billingSurface_member e.billingSurface),
    (fieldOr_at hn 22 rfl).trans (costComponents_json e.costComponents (texts_at ht 22 rfl)),
    (fieldOr_at hn 23 rfl).trans (optional_amount_json e.creditsUsed),
    (fieldOr_at hn 24 rfl).trans (optional_amount_json e.costUsd),
    (fieldOr_at hn 25 rfl).trans (LawfulAmounts.bool e.creditConsumptionHandled), (fieldOr_at hn 26 rfl).trans hdate]
  rfl

end Constructors

end IsaCloud.Events
