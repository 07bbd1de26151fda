import IsaCloud.Events.BillingRoundTrip

/-!
# Events that are passed on

A service that receives a billing event may publish it again. The first trip turns
every amount into a float; from then on nothing changes: what is received is written
byte for byte as it came, and every receiver reads the same event from it.
-/

namespace IsaCloud.Events

set_option autoImplicit false

open Support Support.Text Support.Python Support.Encoding Support.IsoTime Support.Json Support.Pydantic

variable {F : Type} [SerdeFloat F] [Amounts F]

/-- The shortest text of a float is read as that float. -/
class ShortestText (F : Type) [SerdeFloat F] [Amounts F] : Prop where
  ofDecimal_toDecimal : ∀ d, SerdeFloat.isFinite (Amounts.ofDecimal d : F) = true →
    (Amounts.ofDecimal (Amounts.toDecimal (Amounts.ofDecimal d : F)) : F) = Amounts.ofDecimal d

/-! ## Fields that are written again -/

section Fields
variable [ShortestText F]

theorem jsonEncoded_amountRead {d d' : PyDecimal} (h : amountRead F d = some d') :
    (jsonEncoded (.decimal d') : Json F) = jsonEncoded (.decimal d) := by
  unfold amountRead at h
  split at h
  · rename_i hfinite
    obtain rfl := Option.some.inj h
    exact congrArg number (ShortestText.ofDecimal_toDecimal _ hfinite)
  · cases h

theorem jsonEncoded_optional_amountRead (o : Option PyDecimal) :
    (jsonEncoded (PyValue.optional .decimal (o.bind (amountRead F))) : Json F) =
      jsonEncoded (PyValue.optional .decimal o) := by
  cases o with
  | none => rfl
  | some d =>
    cases hread : amountRead F d with
    | some d' =>
      rw [Option.bind_some, hread]
      exact jsonEncoded_amountRead hread
    | none =>
      rw [Option.bind_some, hread]
      unfold amountRead at hread
      split at hread
      · cases hread
      · rename_i hinfinite
        exact (if_neg hinfinite).symm

omit [ShortestText F] in
theorem jsonEncoded_optional_finite (o : Option F) :
    (jsonEncoded (PyValue.optional .float (o.filter SerdeFloat.isFinite)) : Json F) =
      jsonEncoded (PyValue.optional .float o) := by
  cases o with
  | none => rfl
  | some x =>
    rw [Option.filter_some]
    cases hfinite : SerdeFloat.isFinite x with
    | true => rfl
    | false =>
      have hnull : number x = .null := if_neg (Bool.eq_false_iff.mp hfinite)
      exact hnull.symm

end Fields

/-! ## An object that lacks a field of its class -/

section Missing
variable [Scalars F] (now : Defaults)

omit [SerdeFloat F] [Amounts F] [Scalars F] in
theorem bind_eq_none {A B : Type} {x : Option A} {f : A → Option B} (h : ∀ a, f a = none) : (x >>= f) = none := by
  cases x with
  | none => rfl
  | some a => exact h a

omit [SerdeFloat F] [Amounts F] [Scalars F] in
theorem required_missing {A : Type} {m : Members F} {key : String} (read : Reader F A) (h : m.get (lit key) = none) :
    required m key read = none := by
  rw [required, h]
  rfl

theorem usageEvent_missing {m : Members F} (h : m.get (lit "usage_amount") = none) : usageEvent now m = none := by
  unfold usageEvent
  iterate 16 refine bind_eq_none fun _ => ?_
  rw [required_missing amount h]
  rfl

theorem billingCalculatedEvent_missing {m : Members F} (h : m.get (lit "actual_usage") = none) :
    billingCalculatedEvent now m = none := by
  unfold billingCalculatedEvent
  iterate 6 refine bind_eq_none fun _ => ?_
  rw [required_missing amount h]
  rfl

theorem tokensDeductedEvent_missing {m : Members F} (h : m.get (lit "tokens_deducted") = none) :
    tokensDeductedEvent now m = none := by
  unfold tokensDeductedEvent
  iterate 5 refine bind_eq_none fun _ => ?_
  rw [required_missing amount h]
  rfl

theorem tokensInsufficientEvent_missing {m : Members F} (h : m.get (lit "tokens_required") = none) :
    tokensInsufficientEvent now m = none := by
  unfold tokensInsufficientEvent
  iterate 4 refine bind_eq_none fun _ => ?_
  rw [required_missing amount h]
  rfl

omit [SerdeFloat F] [Amounts F] in
theorem billingErrorEvent_missing {m : Members F} (h : m.get (lit "error_code") = none) :
    billingErrorEvent now m = none := by
  unfold billingErrorEvent
  iterate 5 refine bind_eq_none fun _ => ?_
  rw [required_missing text h]
  rfl

end Missing

/-! ## The class of a received event -/

section Class
variable [Scalars F] (now : Defaults)

omit [Scalars F] in
theorem get_json_missing {e : Event F} {k : Str} (h : k ∉ e.modelDump.map Prod.fst) : Members.get e.json k = none := by
  have hkeys : Members.keys e.json = e.modelDump.map Prod.fst := by
    rw [Members.keys, Event.json, List.map_map]
    rfl
  cases hget : Members.get e.json k with
  | none => rfl
  | some j => exact absurd (hkeys ▸ List.mem_map_of_mem ((Members.get_eq_some_iff (nodup_json e) k j).mp hget)) h

inductive EventKind where
  | usage | billingCalculated | tokensDeducted | tokensInsufficient | billingError
  deriving DecidableEq, Repr

def Event.kind : Event F → EventKind
  | .usage _ => .usage
  | .billingCalculated _ => .billingCalculated
  | .tokensDeducted _ => .tokensDeducted
  | .tokensInsufficient _ => .tokensInsufficient
  | .billingError _ => .billingError

/-- A field that no other class has. -/
def Event.ownField : Event F → Str
  | .usage _ => lit "usage_amount"
  | .billingCalculated _ => lit "actual_usage"
  | .tokensDeducted _ => lit "tokens_deducted"
  | .tokensInsufficient _ => lit "tokens_required"
  | .billingError _ => lit "error_code"

theorem construct_missing {e : Event F} {m : Members F} (h : m.get e.ownField = none) : e.construct now m = none := by
  cases e with
  | usage e => exact congrArg (Option.map Event.usage) (usageEvent_missing now h)
  | billingCalculated e => exact congrArg (Option.map Event.billingCalculated) (billingCalculatedEvent_missing now h)
  | tokensDeducted e => exact congrArg (Option.map Event.tokensDeducted) (tokensDeductedEvent_missing now h)
  | tokensInsufficient e => exact congrArg (Option.map Event.tokensInsufficient) (tokensInsufficientEvent_missing now h)
  | billingError e => exact congrArg (Option.map Event.billingError) (billingErrorEvent_missing now h)

omit [SerdeFloat F] [Amounts F] [Scalars F] in
theorem ownField_not_mem {e e' : Event F} (h : e'.kind ≠ e.kind) : e'.ownField ∉ e.modelDump.map Prod.fst := by
  cases e <;> cases e' <;> first
    | exact absurd rfl h
    | simp only [Event.modelDump, List.map_cons, List.map_nil, Event.ownField]; decide +kernel

theorem construct_congr {e e' : Event F} (h : e'.kind = e.kind) (m : Members F) :
    e'.construct now m = e.construct now m := by
  cases e <;> cases e' <;> first
    | cases h; rfl
    | cases h

omit [SerdeFloat F] [Amounts F] [Scalars F] in
theorem classTypes_congr {e e' : Event F} (h : e'.kind = e.kind) : e'.classTypes = e.classTypes := by
  cases e <;> cases e' <;> first
    | cases h; rfl
    | cases h

/-- What was built, was built by the constructor of its class, which the type names. -/
theorem construct_of_eventOf [PyFloat F] {m : Members F} {t : Str} (ht : m.get (lit "event_type") = some (.str t))
    {e : Event F} (h : @eventOf F (eventModels now) (.obj m) = some e) :
    t ∈ e.classTypes ∧ e.construct now m = some e := by
  have hclass : ∀ {A : Type} {o : Option A} {f : A → Event F}, o.map f = some e →
      (∀ a, t ∈ (f a).classTypes ∧ (f a).construct now m = o.map f) → t ∈ e.classTypes ∧ e.construct now m = some e := by
    intro A o f hbuilt hsame
    obtain ⟨a, -, rfl⟩ := Option.map_eq_some_iff.mp hbuilt
    exact ⟨(hsame a).1, (hsame a).2.trans hbuilt⟩
  rw [eventOf_eq now ht] at h
  split_ifs at h with h₁ h₂ h₃ h₄ h₅
  · exact hclass h fun _ => ⟨List.mem_cons.mpr (h₁.imp_right List.mem_singleton.mpr), rfl⟩
  · exact hclass h fun _ => ⟨List.mem_singleton.mpr h₂, rfl⟩
  · exact hclass h fun _ => ⟨List.mem_singleton.mpr h₃, rfl⟩
  · exact hclass h fun _ => ⟨List.mem_singleton.mpr h₄, rfl⟩
  · exact hclass h fun _ => ⟨List.mem_singleton.mpr h₅, rfl⟩

/-- What an event writes is only ever read as an event of its class. -/
theorem construct_of_received [PyFloat F] {e e' : Event F} (h : @eventOf F (eventModels now) (.obj e.json) = some e') :
    e.eventType ∈ e.classTypes ∧ e.construct now e.json = some e' := by
  obtain ⟨htype, hbuilt⟩ := construct_of_eventOf now (get_eventType e) h
  by_cases hclass : e'.kind = e.kind
  · rw [construct_congr now hclass] at hbuilt
    rw [classTypes_congr hclass] at htype
    exact ⟨htype, hbuilt⟩
  · rw [construct_missing now (get_json_missing (ownField_not_mem hclass))] at hbuilt
    cases hbuilt

end Class

/-! ## What a received event writes -/

section Again
variable [Scalars F] [LawfulAmounts F] [ShortestText F] (now : Defaults)

/-- A received event writes the object it was read from. -/
theorem json_of_construct {e e' : Event F} (hnative : e.NativeDetails) (ht : Texts (.obj e.json))
    (hdate : ReadsDate F e.timestamp) (h : e.construct now e.json = some e') : e'.json = e.json := by
  cases e with
  | usage e =>
    rw [Event.construct, usageEvent_json now hnative ht hdate] at h
    obtain ⟨x, hx, rfl⟩ := Option.map_eq_some_iff.mp h
    obtain ⟨usage, husage, hx⟩ := Option.bind_eq_some_iff.mp hx
    obtain ⟨timestamp, hstamp, hx⟩ := Option.bind_eq_some_iff.mp hx
    obtain rfl := Option.some.inj hx
    obtain rfl := Option.some.inj (Option.ite_none_right_eq_some.mp hstamp).2
    simp only [Event.json, Event.modelDump, List.map_cons, List.map_nil, jsonEncoded_amountRead husage,
      jsonEncoded_optional_amountRead]
  | billingCalculated e =>
    rw [Event.construct, billingCalculatedEvent_json now ht hdate] at h
    obtain ⟨x, hx, rfl⟩ := Option.map_eq_some_iff.mp h
    obtain ⟨usage, husage, hx⟩ := Option.bind_eq_some_iff.mp hx
    obtain ⟨equivalent, hequivalent, hx⟩ := Option.bind_eq_some_iff.mp hx
    obtain ⟨cost, hcost, hx⟩ := Option.bind_eq_some_iff.mp hx
    obtain ⟨price, hprice, hx⟩ := Option.bind_eq_some_iff.mp hx
    obtain ⟨rate, hrate, hx⟩ := Option.bind_eq_some_iff.mp hx
    obtain ⟨timestamp, hstamp, hx⟩ := Option.bind_eq_some_iff.mp hx
    obtain rfl := Option.some.inj hx
    obtain rfl := Option.some.inj (Option.ite_none_right_eq_some.mp hstamp).2
    simp only [Event.json, Event.modelDump, List.map_cons, List.map_nil, jsonEncoded_amountRead husage,
      jsonEncoded_amountRead hequivalent, jsonEncoded_amountRead hcost, jsonEncoded_amountRead hprice,
      jsonEncoded_amountRead hrate]
  | tokensDeducted e =>
    rw [Event.construct, tokensDeductedEvent_json now ht hdate] at h
    obtain ⟨x, hx, rfl⟩ := Option.map_eq_some_iff.mp h
    obtain ⟨deducted, hdeducted, hx⟩ := Option.bind_eq_some_iff.mp hx
    obtain ⟨before, hbefore, hx⟩ := Option.bind_eq_some_iff.mp hx
    obtain ⟨after, hafter, hx⟩ := Option.bind_eq_some_iff.mp hx
    obtain ⟨timestamp, hstamp, hx⟩ := Option.bind_eq_some_iff.mp hx
    obtain rfl := Option.some.inj hx
    obtain rfl := Option.some.inj (Option.ite_none_right_eq_some.mp hstamp).2
    simp only [Event.json, Event.modelDump, List.map_cons, List.map_nil, jsonEncoded_amountRead hdeducted,
      jsonEncoded_amountRead hbefore, jsonEncoded_amountRead hafter, jsonEncoded_optional_amountRead,
      jsonEncoded_optional_finite]
  | tokensInsufficient e =>
    rw [Event.construct, tokensInsufficientEvent_json now ht hdate] at h
    obtain ⟨x, hx, rfl⟩ := Option.map_eq_some_iff.mp h
    obtain ⟨required, hrequired, hx⟩ := Option.bind_eq_some_iff.mp hx
    obtain ⟨available, havailable, hx⟩ := Option.bind_eq_some_iff.mp hx
    obtain ⟨deficit, hdeficit, hx⟩ := Option.bind_eq_some_iff.mp hx
    obtain ⟨timestamp, hstamp, hx⟩ := Option.bind_eq_some_iff.mp hx
    obtain rfl := Option.some.inj hx
    obtain rfl := Option.some.inj (Option.ite_none_right_eq_some.mp hstamp).2
    simp only [Event.json, Event.modelDump, List.map_cons, List.map_nil, jsonEncoded_amountRead hrequired,
      jsonEncoded_amountRead havailable, jsonEncoded_amountRead hdeficit]
  | billingError e =>
    rw [Event.construct, billingErrorEvent_json now ht hdate] at h
    obtain ⟨x, hx, rfl⟩ := Option.map_eq_some_iff.mp h
    obtain ⟨timestamp, hstamp, hx⟩ := Option.bind_eq_some_iff.mp hx
    obtain rfl := Option.some.inj hx
    obtain rfl := Option.some.inj (Option.ite_none_right_eq_some.mp hstamp).2
    rfl

omit [ShortestText F] in
/-- What the constructor returns does not depend on the receiver's defaults. -/
theorem construct_defaults {e : Event F} (hnative : e.NativeDetails) (ht : Texts (.obj e.json))
    (hdate : ReadsDate F e.timestamp) (now' : Defaults) : e.construct now e.json = e.construct now' e.json := by
  cases e with
  | usage e => rw [Event.construct, Event.construct, usageEvent_json now hnative ht hdate, usageEvent_json now' hnative ht hdate]
  | billingCalculated e =>
    rw [Event.construct, Event.construct, billingCalculatedEvent_json now ht hdate,
      billingCalculatedEvent_json now' ht hdate]
  | tokensDeducted e =>
    rw [Event.construct, Event.construct, tokensDeductedEvent_json now ht hdate, tokensDeductedEvent_json now' ht hdate]
  | tokensInsufficient e =>
    rw [Event.construct, Event.construct, tokensInsufficientEvent_json now ht hdate,
      tokensInsufficientEvent_json now' ht hdate]
  | billingError e =>
    rw [Event.construct, Event.construct, billingErrorEvent_json now ht hdate, billingErrorEvent_json now' ht hdate]

end Again

/-! ## Any number of hops -/

section Relay
variable [Scalars F] [PyFloat F] [LawfulPyFloat F] [LawfulSerdeFloat F]

/-- Services that each receive the event and publish it again, with their defaults and the stack they have left:
what each of them receives, and what the last one publishes. -/
def relay (bytes : Bytes) : List (Defaults × Nat) → Option (List (Event F) × Bytes)
  | [] => some ([], bytes)
  | (now, nesting) :: hops =>
    match deserializeAt (F := F) now nesting bytes with
    | none => none
    | some e =>
      match serializeEvent e with
      | .error _ => none
      | .ok bytes => (relay bytes hops).map fun r => (e :: r.1, r.2)

variable [LawfulAmounts F] [ShortestText F]

/-- Once an event has been received, what it is written as is what it was read from, for every receiver. -/
theorem received_again {now : Defaults} {e e' : Event F} (hnative : e.NativeDetails) (hdate : ReadsDate F e.timestamp)
    {nesting : Nat} (hdepth : depth (.obj e.json) ≤ nesting) {bytes : Bytes} (hser : serializeEvent e = .ok bytes)
    (hread : deserializeAt now nesting bytes = some e') :
    serializeEvent e' = .ok bytes ∧
      ∀ now' nesting', depth (.obj e.json) ≤ nesting' → deserializeAt now' nesting' bytes = some e' := by
  have htexts : Texts (.obj e.json) := texts_of_scalar _ (scalar_of_encode hser)
  have hfit : e.IntsFit := by
    cases e with
    | billingError e =>
      by_contra hlong
      rw [deserialize_too_long now hlong hdepth hser] at hread
      cases hread
    | _ => trivial
  rw [deserialize_json now hnative hfit hdepth hser] at hread
  obtain ⟨htype, hbuilt⟩ := construct_of_received now hread
  have hjson : e'.json = e.json := json_of_construct now hnative htexts hdate hbuilt
  refine ⟨?_, ?_⟩
  · rw [serializeEvent, Event.modelDumpJson, hjson]
    exact hser
  · intro now' nesting' hdepth'
    rw [deserialize_json now' hnative hfit hdepth' hser, eventOf_own now' htype,
      construct_defaults now' hnative htexts hdate now, hbuilt]

/-- However often an event is passed on, every receiver reads the event the first one read, and the bytes stay
as they were. -/
theorem relay_unchanged {now : Defaults} {e e' : Event F} (hnative : e.NativeDetails) (hdate : ReadsDate F e.timestamp)
    {nesting : Nat} (hdepth : depth (.obj e.json) ≤ nesting) {bytes : Bytes} (hser : serializeEvent e = .ok bytes)
    (hread : deserializeAt now nesting bytes = some e') (hops : List (Defaults × Nat))
    (hstack : ∀ hop ∈ hops, depth (.obj e.json) ≤ hop.2) :
    relay bytes hops = some (hops.map fun _ => e', bytes) := by
  obtain ⟨hwrite, hsame⟩ := received_again hnative hdate hdepth hser hread
  induction hops with
  | nil => rfl
  | cons hop hops ih =>
    have hfirst : deserializeAt hop.1 hop.2 bytes = some e' := hsame hop.1 hop.2 (hstack hop List.mem_cons_self)
    have hrest := ih fun h hh => hstack h (List.mem_cons_of_mem hop hh)
    simp only [relay, hfirst, hwrite, hrest, Option.map_some, List.map_cons]

end Relay

section Example
attribute [local instance] wholeSerde wholeAmounts wholeScalars wholeSerde_lawful wholeAmounts_lawful

theorem wholePart_tenths (n : Int) : wholePart ⟨decide (n < 0), 10 * n.natAbs, -1⟩ = n := by
  have hten : 10 * n.natAbs * 10 ^ (-1 : Int).toNat / 10 ^ (-(-1 : Int)).toNat = n.natAbs := by
    change 10 * n.natAbs * 10 ^ 0 / 10 ^ 1 = n.natAbs
    omega
  simp only [wholePart, hten]
  rcases lt_or_ge n 0 with hneg | hneg
  · rw [decide_eq_true hneg, if_pos rfl]
    omega
  · rw [decide_eq_false (not_lt.mpr hneg), if_neg Bool.false_ne_true]
    omega

theorem wholeAmounts_shortest : ShortestText WholeFloat where
  ofDecimal_toDecimal d _ := by
    have hwhole := wholePart_tenths (Binary64.ofInt (wholePart d))
    exact congrArg WholeFloat.whole ((congrArg Binary64.ofInt hwhole).trans (Binary64.ofInt_ofInt _))

attribute [local instance] wholeAmounts_shortest

/-- `2 ^ 53 + 1` tokens lose one on the first trip, and none on the next two. -/
theorem relayed_twice : ∃ e', deserializeAt (F := WholeFloat) clock 10 (published (insufficientEvent 9007199254740993)) = some e' ∧
    relay (published (insufficientEvent 9007199254740993)) [(clock, 10), (clock, 20)] =
      some ([e', e'], published (insufficientEvent 9007199254740993)) := by
  have hser := serialize_published (e := insufficientEvent 9007199254740993) (by decide +kernel)
  have hdate : ReadsDate WholeFloat (insufficientEvent 9007199254740993).timestamp := by
    unfold ReadsDate
    decide
  have hread : (deserializeAt (F := WholeFloat) clock 10 (published (insufficientEvent 9007199254740993))).isSome = true := by
    decide +kernel
  have hdepth : Json.depth (.obj (insufficientEvent 9007199254740993).json) ≤ 10 := by decide
  obtain ⟨e', he'⟩ := Option.isSome_iff_exists.mp hread
  refine ⟨e', he', relay_unchanged (e := insufficientEvent 9007199254740993) trivial hdate hdepth hser he' _ ?_⟩
  intro hop hhop
  rcases List.mem_cons.mp hhop with rfl | hhop
  · exact hdepth
  · rw [List.mem_singleton.mp hhop]
    exact hdepth.trans (by decide)

end Example

end IsaCloud.Events
