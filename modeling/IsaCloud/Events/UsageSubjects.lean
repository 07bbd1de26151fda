import IsaCloud.Events.Billing
import IsaCloud.Events.ConsumerNames
import IsaCloud.Support.PyJson

/-!
# The subjects of usage events

`get_nats_subject` makes one or two tokens out of free text. Whatever the text, the
subject is one that can be published to and that consumers of recorded usage are
sent; only a value from `usage_details` that has no text keeps it from being made.
-/

namespace IsaCloud.Events

set_option autoImplicit false

open Support Support.Text Support.Python Support.Subjects

/-- What is asked of a value in `usage_details`, whatever its type; `none` where it raises. -/
class PyObject (V : Type) where
  truthy : V → Option Bool
  str : V → Option Str

/-- A JSON value; `str` refuses integers that are too long and nesting beyond the stack. -/
@[reducible] def jsonObject (F : Type) [PyFloat F] [Unicode] (nesting : Nat) : PyObject (Json F) where
  truthy j := some j.truthy
  str j := if j.intsFit ∧ j.depth ≤ nesting then some j.pyStr else none

section Tokens
variable {V : Type} [PyObject V]

/-- `a or b or ...`, the last operand untested. -/
def orElse : List (Option V) → Option (Option V)
  | [] => some none
  | [v] => some v
  | none :: vs => orElse vs
  | some v :: vs => do if ← PyObject.truthy v then some (some v) else orElse vs

/-- What `get_nats_subject` reads of a usage event. -/
structure SubjectFields (V : Type) where
  sourceService : Option Str
  serviceType : Option Str
  productId : Option Str
  resourceName : Option Str
  /-- What `get` finds in `usage_details`, or in the empty dict in its place. -/
  usageDetails : Str → Option V

def orText (a b : Option Str) : Option Str :=
  match a with
  | none => b
  | some a => if a = [] then b else some a

variable [LowerCase]

def sanitizeSubjectToken (value : Option Str) (fallback : Str) : Str :=
  match value with
  | none => fallback
  | some value =>
    if value = [] then fallback
    else
      let token := stripDashes (dashRuns false (lowerText (strip value)))
      if token = [] then fallback else token

namespace SubjectFields

def primary (e : SubjectFields V) : Option Str := orText e.sourceService (orText e.serviceType e.productId)

/-- The value in `usage_details` that stands in for a resource name. -/
def detail (e : SubjectFields V) : Option (Option V) :=
  orElse [e.usageDetails (lit "resource_name"), e.usageDetails (lit "tool_name"), e.usageDetails (lit "model"),
    e.usageDetails (lit "operation_type"), e.usageDetails (lit "operation")]

def hasResourceName (e : SubjectFields V) : Bool := e.resourceName.any fun s => !s.isEmpty

/-- The text of the second token before it is sanitized, if there is one. -/
def secondary (e : SubjectFields V) : Option (Option Str) :=
  if e.hasResourceName then some e.resourceName
  else do
    match ← e.detail with
    | none => some none
    | some v => if ← PyObject.truthy v then (PyObject.str v).map some else some none

end SubjectFields

def usageSubjectTokens (e : SubjectFields V) : Option (List Str) :=
  e.secondary.map fun secondary =>
    sanitizeSubjectToken e.primary (lit "unknown") ::
      (secondary.map fun text => sanitizeSubjectToken (some text) (lit "resource")).toList

def usageFamily : List Str := [lit "billing", lit "usage", lit "recorded"]

/-- `get_nats_subject` of a usage event. -/
def usageSubject (e : SubjectFields V) : Option Str :=
  (usageSubjectTokens e).map fun tokens => [dotPoint].intercalate (usageFamily ++ tokens)

end Tokens

def UsageEvent.subjectFields {F : Type} (e : UsageEvent F) : SubjectFields (Json F) where
  sourceService := e.sourceService
  serviceType := e.serviceType
  productId := some e.productId
  resourceName := e.resourceName
  usageDetails k := e.usageDetails.get k

def getNatsSubject {F : Type} [PyObject (Json F)] [LowerCase] : Event F → Option Str
  | .usage e => usageSubject e.subjectFields
  | .billingCalculated _ => some (lit "billing.calculated")
  | .tokensDeducted _ => some (lit "wallet.tokens.deducted")
  | .tokensInsufficient _ => some (lit "wallet.tokens.insufficient")
  | .billingError _ => some (lit "billing.failed")

/-! ## Tokens -/

/-- The characters a token of a usage subject is made of. -/
def isSubjectChar (c : CodePoint) : Bool :=
  isDigit c || decide (97 ≤ c.val ∧ c.val ≤ 122 ∨ c.val = 95 ∨ c.val = 45)

def isSubjectToken (t : Str) : Bool := !t.isEmpty && t.all isSubjectChar

section Lower
variable [LowerCase]

omit [LowerCase] in
theorem lowerPoint_not_capital (c : CodePoint) : ¬ (65 ≤ (lowerPoint c).val ∧ (lowerPoint c).val ≤ 90) := by
  unfold lowerPoint
  split_ifs with h
  · have hval : (Fin.ofNat 0x110000 (c.val + 32)).val = c.val + 32 := by
      apply Nat.mod_eq_of_lt
      omega
    omega
  · exact h

theorem not_capital_of_mem_lowerFrom {before s : Str} {c : CodePoint} (h : c ∈ lowerFrom before s) :
    ¬ (65 ≤ c.val ∧ c.val ≤ 90) := by
  induction s generalizing before with
  | nil => cases h
  | cons d s ih =>
    rw [lowerFrom, List.mem_append] at h
    rcases h with h | h
    · split at h
      · rw [List.mem_singleton.mp h]
        exact lowerPoint_not_capital d
      · exact LowerCase.special_no_capital _ _ _ _ h
    · exact ih h

end Lower

theorem mem_dashRuns {s : Str} {inRun : Bool} {c : CodePoint} (h : c ∈ dashRuns inRun s) : c ∈ s ∨ c = cp '-' := by
  induction s generalizing inRun with
  | nil => cases h
  | cons d s ih =>
    have hlater : ∀ {b}, c ∈ dashRuns b s → c ∈ d :: s ∨ c = cp '-' := fun hm => (ih hm).imp_left (List.mem_cons_of_mem d)
    rw [dashRuns] at h
    split at h
    · rcases List.mem_cons.mp h with rfl | hm
      · exact Or.inl List.mem_cons_self
      · exact hlater hm
    · split at h
      · exact hlater h
      · rcases List.mem_cons.mp h with rfl | hm
        · exact Or.inr rfl
        · exact hlater hm

theorem isSubjectChar_of_name {c : CodePoint} (hname : isNameChar c = true) (hcap : ¬ (65 ≤ c.val ∧ c.val ≤ 90)) :
    isSubjectChar c = true := by
  unfold isNameChar isDigit at hname
  unfold isSubjectChar isDigit
  simp only [Bool.or_eq_true, decide_eq_true_eq] at hname ⊢
  omega

theorem isSubjectToken_sanitize [LowerCase] (value : Option Str) {fallback : Str} (h : isSubjectToken fallback = true) :
    isSubjectToken (sanitizeSubjectToken value fallback) = true := by
  unfold sanitizeSubjectToken
  cases value with
  | none => exact h
  | some value =>
    simp only
    split_ifs with hempty hnone
    · exact h
    · exact h
    · rw [isSubjectToken, Bool.and_eq_true, List.all_eq_true]
      refine ⟨by simpa using hnone, ?_⟩
      intro c hc
      have hmem := (trim_isInfix _ _).subset hc
      have hname := isNameChar_of_mem_dashRuns hmem
      rcases mem_dashRuns hmem with hlower | rfl
      · exact isSubjectChar_of_name hname (not_capital_of_mem_lowerFrom hlower)
      · decide

/-! ## Subjects -/

/-- A subject of the family of recorded usage. -/
structure Routable (s : Str) : Prop where
  shape : ∃ tokens : List Str, (tokens.length = 1 ∨ tokens.length = 2) ∧
    (∀ t ∈ tokens, t ≠ [] ∧ ∀ c ∈ t, isSubjectChar c = true) ∧ s = [dotPoint].intercalate (usageFamily ++ tokens)
  concrete : ∃ subject : Subject, [dotPoint].intercalate subject.tokens = s ∧
    Captures (lit "billing.usage.recorded.>") subject
  plain : ∀ c ∈ s, c ≠ cp '*' ∧ c ≠ cp '>' ∧ isSpace c = false

theorem token_of_subjectToken {t : Str} (h : isSubjectToken t = true) :
    isToken t = true ∧ isWildcard t = false := by
  rw [isSubjectToken, Bool.and_eq_true, List.all_eq_true] at h
  obtain ⟨hne, hchars⟩ := h
  constructor
  · rw [isToken, Bool.and_eq_true, List.all_eq_true]
    refine ⟨hne, ?_⟩
    intro c hc
    have hsafe := hchars c hc
    unfold isSubjectChar isDigit at hsafe
    simp only [Bool.or_eq_true, decide_eq_true_eq] at hsafe
    rw [Bool.and_eq_true, decide_eq_true_eq]
    constructor
    · simp only [isBlank, List.mem_cons, List.not_mem_nil, or_false, Bool.not_eq_true', decide_eq_false_iff_not]
      omega
    · rintro rfl
      exact absurd hsafe (by decide)
  · rw [isWildcard, decide_eq_false_iff_not]
    rintro (rfl | rfl)
    · exact absurd (hchars (cp '*') List.mem_cons_self) (by decide)
    · exact absurd (hchars (cp '>') List.mem_cons_self) (by decide)

theorem captured_of_family {tokens : List Str} (h : tokens ≠ []) :
    matchTokens (splitDots (lit "billing.usage.recorded.>")) (usageFamily ++ tokens) = true := by
  have hsplit : splitDots (lit "billing.usage.recorded.>") = usageFamily ++ [rest] := by decide
  cases tokens with
  | nil => exact absurd rfl h
  | cons t tokens =>
    rw [hsplit]
    simp [usageFamily, matchTokens]

def subjectOf (tokens : List Str) (h : ∀ t ∈ tokens, isSubjectToken t = true) : Subject where
  tokens := usageFamily ++ tokens
  ne_nil := List.append_ne_nil_of_left_ne_nil (List.cons_ne_nil _ _) _
  literal := by
    have hfamily : ∀ t ∈ usageFamily, isSubjectToken t = true := by
      apply List.all_eq_true.mp
      decide
    intro t ht
    rcases List.mem_append.mp ht with hf | hm
    · exact token_of_subjectToken (hfamily t hf)
    · exact token_of_subjectToken (h t hm)

theorem plain_of_subjectChar {c : CodePoint} (h : isSubjectChar c = true ∨ c = dotPoint) :
    c ≠ cp '*' ∧ c ≠ cp '>' ∧ isSpace c = false := by
  have hval : 97 ≤ c.val ∧ c.val ≤ 122 ∨ c.val = 95 ∨ c.val = 45 ∨ 48 ≤ c.val ∧ c.val ≤ 57 ∨ c.val = 46 := by
    rcases h with h | rfl
    · unfold isSubjectChar isDigit at h
      simp only [Bool.or_eq_true, decide_eq_true_eq] at h
      omega
    · decide
  refine ⟨?_, ?_, ?_⟩
  · rintro rfl
    exact absurd hval (by decide)
  · rintro rfl
    exact absurd hval (by decide)
  · rw [isSpace, decide_eq_false_iff_not]
    omega

theorem mem_intercalate {c : CodePoint} {tokens : List Str} (h : c ∈ [dotPoint].intercalate tokens) :
    c = dotPoint ∨ ∃ t ∈ tokens, c ∈ t := by
  induction tokens with
  | nil => cases h
  | cons t tokens ih =>
    cases tokens with
    | nil =>
      rw [List.intercalate_singleton] at h
      exact Or.inr ⟨t, List.mem_singleton_self t, h⟩
    | cons u tokens =>
      rw [List.intercalate_cons_cons, List.append_assoc, List.mem_append, List.mem_append] at h
      rcases h with ht | hdot | hlater
      · exact Or.inr ⟨t, List.mem_cons_self, ht⟩
      · exact Or.inl (List.mem_singleton.mp hdot)
      · exact (ih hlater).imp_right fun ⟨t', ht', hc⟩ => ⟨t', List.mem_cons_of_mem t ht', hc⟩

theorem routable_of_tokens {tokens : List Str} (hlen : tokens.length = 1 ∨ tokens.length = 2)
    (h : ∀ t ∈ tokens, isSubjectToken t = true) : Routable ([dotPoint].intercalate (usageFamily ++ tokens)) where
  shape := by
    refine ⟨tokens, hlen, ?_, rfl⟩
    intro t ht
    have htoken := h t ht
    rw [isSubjectToken, Bool.and_eq_true, List.all_eq_true] at htoken
    exact ⟨by simpa using htoken.1, htoken.2⟩
  concrete := by
    refine ⟨subjectOf tokens h, rfl, captured_of_family ?_⟩
    apply List.ne_nil_of_length_pos
    omega
  plain := by
    intro c hc
    apply plain_of_subjectChar
    rcases mem_intercalate hc with hdot | ⟨t, ht, hc⟩
    · exact Or.inr hdot
    · have hfamily : ∀ t ∈ usageFamily, isSubjectToken t = true := by
        apply List.all_eq_true.mp
        decide
      have htoken : isSubjectToken t = true := by
        rcases List.mem_append.mp ht with hf | hm
        · exact hfamily t hf
        · exact h t hm
      rw [isSubjectToken, Bool.and_eq_true, List.all_eq_true] at htoken
      exact Or.inl (htoken.2 c hc)

section Claims
variable {V : Type} [PyObject V] [LowerCase]

theorem usageSubject_routable {e : SubjectFields V} {subject : Str} (h : usageSubject e = some subject) :
    Routable subject := by
  obtain ⟨tokens, htokens, rfl⟩ := Option.map_eq_some_iff.mp h
  obtain ⟨secondary, -, rfl⟩ := Option.map_eq_some_iff.mp htokens
  have hfirst : isSubjectToken (sanitizeSubjectToken e.primary (lit "unknown")) = true :=
    isSubjectToken_sanitize _ (by decide)
  apply routable_of_tokens
  · cases secondary with
    | none => exact Or.inl rfl
    | some text => exact Or.inr rfl
  · intro t ht
    rcases List.mem_cons.mp ht with rfl | hm
    · exact hfirst
    · obtain ⟨text, -, rfl⟩ := Option.map_eq_some_iff.mp (Option.mem_toList.mp hm)
      exact isSubjectToken_sanitize _ (by decide)

/-- The value that stands in for a missing resource name has a text. -/
def SubjectFields.Converts (e : SubjectFields V) : Prop :=
  e.hasResourceName = false →
    ∃ found, e.detail = some found ∧ ∀ v, found = some v →
      ∃ chosen, PyObject.truthy v = some chosen ∧ (chosen = true → ∃ text, PyObject.str v = some text)

theorem usageSubject_isSome_iff {e : SubjectFields V} : (∃ subject, usageSubject e = some subject) ↔ e.Converts := by
  have hsecondary : (∃ subject, usageSubject e = some subject) ↔ ∃ secondary, e.secondary = some secondary := by
    simp [usageSubject, usageSubjectTokens]
  rw [hsecondary, SubjectFields.secondary, SubjectFields.Converts]
  by_cases hname : e.hasResourceName = true
  · simp [hname]
  · cases hdetail : e.detail with
    | none => simp [hname]
    | some found =>
      cases found with
      | none => simp [hname]
      | some v =>
        cases htruthy : PyObject.truthy v with
        | none => simp [hname, htruthy]
        | some chosen => cases chosen <;> simp [hname, htruthy]

theorem usage_subject_routable_iff (e : SubjectFields V) :
    (∃ subject, usageSubject e = some subject ∧ Routable subject) ↔ e.Converts := by
  rw [← usageSubject_isSome_iff]
  constructor
  · rintro ⟨subject, hsubject, -⟩
    exact ⟨subject, hsubject⟩
  · rintro ⟨subject, hsubject⟩
    exact ⟨subject, hsubject, usageSubject_routable hsubject⟩

end Claims

/-! ## A model number without a text -/

section Example

attribute [local instance] asciiUnicode asciiLowerCase

theorem lt_length_natText (k : Nat) : k < (natText (10 ^ k)).length := by
  by_contra h
  have hlt := Json.digitsValue_lt (fun c hc => isDigit_of_mem_natText (n := 10 ^ k) hc)
  rw [digitsValue_natText] at hlt
  have hle := Nat.pow_le_pow_right (n := 10) (by omega) (Nat.not_lt.mp h)
  omega

/-- Usage of a model that is given as the number `model`. -/
def numberedUsage (model : Int) : UsageEvent Unit where
  eventType := lit "billing.usage.recorded"
  eventId := lit "evt_1"
  schemaVersion := lit "1.0"
  userId := lit "u1"
  actorUserId := none
  billingAccountType := none
  billingAccountId := none
  organizationId := none
  agentId := none
  subscriptionId := none
  productId := lit "gpt-4"
  serviceType := none
  operationType := none
  sourceService := none
  resourceName := none
  meterType := none
  usageAmount := ⟨false, 1, 0⟩
  unitType := .request
  sessionId := none
  requestId := none
  usageDetails := [(lit "model", .int model)]
  billingSurface := .abstractService
  costComponents := []
  creditsUsed := none
  costUsd := none
  creditConsumptionHandled := false
  timestamp := ⟨63871286400000000, some 0⟩

/-- Values of a JSON document, on a stack for a nesting of 1000. -/
@[reducible] def plainObject : PyObject (Json Unit) := jsonObject Unit 1000

attribute [local instance] plainObject

theorem numbered_detail {model : Int} (h : model ≠ 0) :
    (numberedUsage model).subjectFields.detail = some (some (.int model)) := by
  have hresource : (numberedUsage model).subjectFields.usageDetails (lit "resource_name") = none := rfl
  have htool : (numberedUsage model).subjectFields.usageDetails (lit "tool_name") = none := rfl
  have hmodel : (numberedUsage model).subjectFields.usageDetails (lit "model") = some (.int model) := rfl
  simp [SubjectFields.detail, hresource, htool, hmodel, orElse, PyObject.truthy, Json.truthy, h]

theorem numbered_has_no_subject {model : Int} (h : model ≠ 0)
    (hlong : Json.intMaxStrDigits < (natText model.natAbs).length) :
    getNatsSubject (.usage (numberedUsage model)) = none := by
  have hno : ¬ (numberedUsage model).subjectFields.Converts := by
    intro hconverts
    obtain ⟨found, hfound, hall⟩ := hconverts rfl
    rw [numbered_detail h] at hfound
    obtain ⟨chosen, hchosen, htext⟩ := hall _ (Option.some.inj hfound).symm
    have htrue : chosen = true := (Option.some.inj hchosen).symm.trans (bne_iff_ne.mpr h)
    obtain ⟨text, hstr⟩ := htext htrue
    have hfit : ¬ (natText model.natAbs).length ≤ Json.intMaxStrDigits := Nat.not_le.mpr hlong
    simp [PyObject.str, Json.intsFit, hfit] at hstr
  rw [← usageSubject_isSome_iff] at hno
  exact Option.eq_none_iff_forall_ne_some.mpr fun subject hsubject => hno ⟨subject, hsubject⟩

theorem powered_has_no_subject {k : Nat} (h : Json.intMaxStrDigits ≤ k) :
    getNatsSubject (.usage (numberedUsage (10 ^ k))) = none := by
  apply numbered_has_no_subject
  · exact Int.pow_ne_zero (by decide)
  · have habs : (10 : Int).natAbs = 10 := rfl
    rw [Int.natAbs_pow, habs]
    exact Nat.lt_of_le_of_lt h (lt_length_natText k)

theorem huge_model_has_no_subject :
    getNatsSubject (.usage (numberedUsage (10 ^ Json.intMaxStrDigits))) = none :=
  powered_has_no_subject (Nat.le_refl _)

end Example

end IsaCloud.Events
