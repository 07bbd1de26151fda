import IsaCloud.Events.PullLoop
import IsaCloud.Events.StreamSubjects
import IsaCloud.Support.ListParts

/-!
# The names of durable consumers

`create_consumer` registers a consumer under a name that JetStream takes for sure;
`pull_messages` binds to the name it is given. The two are one name only if the
name was safe to begin with, which a filter that ends in `>` never yields.
-/

namespace IsaCloud.Events

set_option autoImplicit false

open Support Support.Text Support.Python

/-- `str.lower` beyond ASCII: what is left of a character between two texts. -/
class LowerCase where
  special : Str → CodePoint → Str → Str
  special_no_capital : ∀ before c after, ∀ x ∈ special before c after, ¬ (65 ≤ x.val ∧ x.val ≤ 90)

section Lower
variable [LowerCase]

/-- The characters before the current one are kept in reverse. -/
def lowerFrom (before : Str) : Str → Str
  | [] => []
  | c :: after =>
    (if c.val < 0x80 then [lowerPoint c] else LowerCase.special before c after) ++ lowerFrom (c :: before) after

def lowerText (s : Str) : Str := lowerFrom [] s

end Lower

/-! ## Registering and binding -/

inductive DeliverPolicy where
  | all | new | last
  deriving DecidableEq, Repr

inductive AckPolicy where
  | explicit | all | none
  deriving DecidableEq, Repr

structure ConsumerConfig where
  durableName : Str
  filterSubject : Option Str
  deliverPolicy : DeliverPolicy
  ackPolicy : AckPolicy
  maxDeliver : Int
  ackWait : Int

/-- What the client asks of JetStream. -/
inductive StreamCommand where
  | addConsumer (stream : Str) (config : ConsumerConfig)
  | deleteConsumer (stream name : Str)
  | pullSubscribe (durable stream : Str)

/-- Nothing, or the text of the exception. -/
abbrev StreamReply := Except Str Unit

structure ConsumerArguments where
  streamName : Str
  consumerName : Str
  filterSubject : Option Str
  deliveryPolicy : Str
  maxDeliver : Int
  ackWait : Int
  ackPolicy : Str

section Client
variable [LowerCase]

def deliverPolicy (deliveryPolicy : Str) : DeliverPolicy :=
  if lowerText deliveryPolicy = lit "new" then .new
  else if lowerText deliveryPolicy = lit "last" then .last
  else .all

def ackPolicy (policy : Str) : AckPolicy :=
  if lowerText policy = lit "all" then .all
  else if lowerText policy = lit "none" then .none
  else .explicit

/-- The server has a consumer of this name with another deliver policy. -/
def isMismatch (errStr : Str) : Bool :=
  decide (lit "10012" <:+: errStr) && decide (lit "deliver policy" <:+: lowerText errStr)

/-- `create_consumer` on a connected client; `none` is the reply of `handle_error`. -/
def createConsumer (consumerAckPolicy : Dict Str Str) (a : ConsumerArguments) :
    Dict Str Str × Proc StreamCommand StreamReply (Option Str) :=
  let consumerName := sanitizeConsumerName a.consumerName
  let config : ConsumerConfig :=
    ⟨consumerName, a.filterSubject.filter fun s => !s.isEmpty, deliverPolicy a.deliveryPolicy, ackPolicy a.ackPolicy,
      a.maxDeliver, a.ackWait⟩
  (consumerAckPolicy.set consumerName (lowerText a.ackPolicy),
    .call (.addConsumer a.streamName config) fun
      | .ok () => .ret (some consumerName)
      | .error errStr =>
        if isMismatch errStr then
          .call (.deleteConsumer a.streamName consumerName) fun _ =>
            .call (.addConsumer a.streamName config) fun
              | .ok () => .ret (some consumerName)
              | .error _ => .ret none
        else .ret none)

end Client

/-- How `pull_messages` binds to its consumer, before it fetches. -/
def pullSubscribe (streamName consumerName : Str) : Proc StreamCommand StreamReply Bool :=
  .call (.pullSubscribe consumerName streamName) fun
    | .ok () => .ret true
    | .error _ => .ret false

/-- Some replies of the server make the process send the command. -/
def MaySend {Out : Type} : Proc StreamCommand StreamReply Out → StreamCommand → Prop
  | .ret _, _ => False
  | .call c k, d => d = c ∨ ∃ reply, MaySend (k reply) d

/-- The consumer name `subscribe` uses, for any text as its filter. -/
def subscribedName (serviceName subject : Str) (durable : Option Str) : Str :=
  let named := serviceName ++ lit "-" ++ subject.flatMap fun c =>
    if c = cp '*' then lit "all" else if c = cp '.' then lit "-" else [c]
  match durable with
  | some durable => if durable = [] then named else durable
  | none => named

theorem Call.consumerName_eq (call : Call) :
    call.consumerName = subscribedName call.serviceName call.subject.text call.durable := rfl

/-- The call `subscribe` makes, the other parameters at their defaults. -/
def subscribeArguments (streamName serviceName subject : Str) (durable : Option Str) : ConsumerArguments where
  streamName := streamName
  consumerName := subscribedName serviceName subject durable
  filterSubject := some subject
  deliveryPolicy := lit "all"
  maxDeliver := -1
  ackWait := 30
  ackPolicy := explicit

/-! ## Safe names -/

/-- A name that is left as it is. -/
def SafeName (name : Str) : Prop :=
  name ≠ [] ∧ (∀ c ∈ name, isNameChar c = true) ∧ name.head? ≠ some (cp '-') ∧ name.getLast? ≠ some (cp '-')

theorem isNameChar_dash : isNameChar (cp '-') = true := by decide

theorem isNameChar_of_mem_dashRuns {s : Str} {inRun : Bool} {c : CodePoint} (h : c ∈ dashRuns inRun s) :
    isNameChar c = true := by
  induction s generalizing inRun with
  | nil => cases h
  | cons d s ih =>
    rw [dashRuns] at h
    split at h
    · rcases List.mem_cons.mp h with rfl | hm
      · assumption
      · exact ih hm
    · split at h
      · exact ih h
      · rcases List.mem_cons.mp h with rfl | hm
        · exact isNameChar_dash
        · exact ih hm

theorem dashRuns_of_names {s : Str} (h : ∀ c ∈ s, isNameChar c = true) : dashRuns false s = s := by
  induction s with
  | nil => rfl
  | cons c s ih =>
    rw [dashRuns, if_pos (h c List.mem_cons_self), ih fun d hd => h d (List.mem_cons_of_mem c hd)]

theorem stripDashes_eq (s : Str) : stripDashes s = trim (fun c => decide (c = cp '-')) s := rfl

theorem head?_stripDashes (s : Str) : (stripDashes s).head? ≠ some (cp '-') := by
  intro h
  rw [stripDashes_eq] at h
  have hno := not_of_head?_trim _ h
  exact of_decide_eq_false hno rfl

theorem getLast?_stripDashes (s : Str) : (stripDashes s).getLast? ≠ some (cp '-') := by
  intro h
  rw [stripDashes_eq] at h
  have hno := not_of_getLast?_trim _ h
  exact of_decide_eq_false hno rfl

theorem stripDashes_of_ends {s : Str} (hfirst : s.head? ≠ some (cp '-')) (hlast : s.getLast? ≠ some (cp '-')) :
    stripDashes s = s := by
  rw [stripDashes_eq]
  apply trim_of_ends
  · intro c hc
    exact decide_eq_false fun h => hfirst (h ▸ hc)
  · intro c hc
    exact decide_eq_false fun h => hlast (h ▸ hc)

/-- Whatever the name was, what comes out is safe. -/
theorem safeName_sanitize (name : Str) : SafeName (sanitizeConsumerName name) := by
  unfold sanitizeConsumerName
  split
  · have hnames : (lit "consumer").all isNameChar = true := by decide
    refine ⟨?_, List.all_eq_true.mp hnames, ?_, ?_⟩ <;> decide
  · rename_i sanitized hnonempty
    refine ⟨hnonempty, ?_, head?_stripDashes _, getLast?_stripDashes _⟩
    intro c hc
    exact isNameChar_of_mem_dashRuns ((trim_isInfix _ _).subset hc)

theorem sanitize_eq_self_iff {name : Str} : sanitizeConsumerName name = name ↔ SafeName name := by
  constructor
  · intro h
    rw [← h]
    exact safeName_sanitize name
  · intro h
    obtain ⟨hne, hchars, hfirst, hlast⟩ := h
    unfold sanitizeConsumerName
    rw [dashRuns_of_names hchars, stripDashes_of_ends hfirst hlast]
    cases name with
    | nil => exact absurd rfl hne
    | cons c name => rfl

/-! ## The name made from a filter -/

def nameOf (c : CodePoint) : Str := if c = cp '*' then lit "all" else if c = cp '.' then lit "-" else [c]

def fromFilter (serviceName subject : Str) : Str := serviceName ++ lit "-" ++ subject.flatMap nameOf

theorem subscribedName_eq (serviceName subject : Str) (durable : Option Str) :
    subscribedName serviceName subject durable =
      match durable with
      | some durable => if durable = [] then fromFilter serviceName subject else durable
      | none => fromFilter serviceName subject := rfl

/-- A service name and a filter that give a safe name. -/
def SafeParts (serviceName subject : Str) : Prop :=
  (serviceName ≠ [] ∧ (∀ c ∈ serviceName, isNameChar c = true) ∧ serviceName.head? ≠ some (cp '-')) ∧
    subject ≠ [] ∧ (∀ c ∈ subject, isNameChar c = true ∨ c = cp '*' ∨ c = cp '.') ∧
      subject.getLast? ≠ some (cp '-') ∧ subject.getLast? ≠ some (cp '.')

theorem names_all : ∀ x ∈ lit "all", isNameChar x = true := by
  apply List.all_eq_true.mp
  decide

theorem names_dash : ∀ x ∈ lit "-", isNameChar x = true := by
  intro x hx
  rw [List.mem_singleton.mp hx]
  exact isNameChar_dash

theorem names_nameOf_iff {c : CodePoint} :
    (∀ x ∈ nameOf c, isNameChar x = true) ↔ isNameChar c = true ∨ c = cp '*' ∨ c = cp '.' := by
  unfold nameOf
  split_ifs with hstar hdot
  · subst hstar
    exact iff_of_true names_all (Or.inr (Or.inl rfl))
  · subst hdot
    exact iff_of_true names_dash (Or.inr (Or.inr rfl))
  · simp [hstar, hdot]

theorem getLast?_nameOf_iff {c : CodePoint} :
    (nameOf c).getLast? = some (cp '-') ↔ c = cp '-' ∨ c = cp '.' := by
  unfold nameOf
  split_ifs with hstar hdot
  · subst hstar
    decide
  · subst hdot
    decide
  · simp [hdot]

theorem nameOf_ne_nil (c : CodePoint) : nameOf c ≠ [] := by
  unfold nameOf
  split_ifs
  · decide
  · decide
  · exact List.cons_ne_nil _ _

theorem head?_fromFilter_iff {serviceName subject : Str} :
    (fromFilter serviceName subject).head? ≠ some (cp '-') ↔
      serviceName ≠ [] ∧ serviceName.head? ≠ some (cp '-') := by
  cases serviceName with
  | nil => exact iff_of_false (fun h => h rfl) (fun h => h.1 rfl)
  | cons c serviceName => simp [fromFilter]

theorem getLast?_fromFilter_iff {serviceName subject : Str} :
    (fromFilter serviceName subject).getLast? ≠ some (cp '-') ↔
      subject ≠ [] ∧ subject.getLast? ≠ some (cp '-') ∧ subject.getLast? ≠ some (cp '.') := by
  cases subject using List.reverseRecOn with
  | nil =>
    refine iff_of_false (fun h => h ?_) (fun h => h.1 rfl)
    rw [fromFilter, List.flatMap_nil, List.append_nil, List.getLast?_append]
    rfl
  | append_singleton subject c _ =>
    have hlast : (fromFilter serviceName (subject ++ [c])).getLast? = (nameOf c).getLast? := by
      rw [fromFilter, List.flatMap_append, List.flatMap_singleton, ← List.append_assoc,
        List.getLast?_append_of_ne_nil _ (nameOf_ne_nil c)]
    rw [hlast, ne_eq, getLast?_nameOf_iff]
    simp

theorem safeName_fromFilter_iff {serviceName subject : Str} :
    SafeName (fromFilter serviceName subject) ↔ SafeParts serviceName subject := by
  have hne : fromFilter serviceName subject ≠ [] := by
    intro h
    rw [fromFilter, List.append_eq_nil_iff, List.append_eq_nil_iff] at h
    exact absurd h.1.2 (by decide)
  have hchars : (∀ c ∈ fromFilter serviceName subject, isNameChar c = true) ↔
      (∀ c ∈ serviceName, isNameChar c = true) ∧
        ∀ c ∈ subject, isNameChar c = true ∨ c = cp '*' ∨ c = cp '.' := by
    rw [fromFilter, List.forall_mem_append, List.forall_mem_append, List.forall_mem_flatMap]
    refine and_congr (and_iff_left names_dash) ?_
    exact forall₂_congr fun c _ => names_nameOf_iff
  unfold SafeName SafeParts
  rw [hchars, head?_fromFilter_iff, getLast?_fromFilter_iff]
  tauto

/-- What the arguments of `subscribe` have to be. -/
def SafeSubscription (serviceName subject : Str) : Option Str → Prop
  | some durable => if durable = [] then SafeParts serviceName subject else SafeName durable
  | none => SafeParts serviceName subject

theorem safeName_subscribed_iff {serviceName subject : Str} {durable : Option Str} :
    SafeName (subscribedName serviceName subject durable) ↔ SafeSubscription serviceName subject durable := by
  rw [subscribedName_eq]
  cases durable with
  | none => exact safeName_fromFilter_iff
  | some durable =>
    by_cases hempty : durable = []
    · simp only [hempty, if_true, SafeSubscription]
      exact safeName_fromFilter_iff
    · simp only [hempty, if_false, SafeSubscription]

/-! ## The consumer that is pulled from -/

section Client
variable [LowerCase]

theorem registers_sanitized {consumerAckPolicy : Dict Str Str} {a : ConsumerArguments} {stream : Str}
    {config : ConsumerConfig} (h : MaySend (createConsumer consumerAckPolicy a).2 (.addConsumer stream config)) :
    config.durableName = sanitizeConsumerName a.consumerName := by
  rcases h with hfirst | ⟨reply, h⟩
  · cases hfirst
    rfl
  cases reply with
  | ok => exact h.elim
  | error errStr =>
    simp only at h
    split at h
    · rcases h with hdelete | ⟨reply', h⟩
      · cases hdelete
      rcases h with hagain | ⟨reply'', h⟩
      · cases hagain
        rfl
      · cases reply'' <;> exact h.elim
    · exact h.elim

theorem registers_once (consumerAckPolicy : Dict Str Str) (a : ConsumerArguments) :
    ∃ config, MaySend (createConsumer consumerAckPolicy a).2 (.addConsumer a.streamName config) :=
  ⟨_, Or.inl rfl⟩

omit [LowerCase] in
theorem binds_given_iff {stream name durableName : Str} :
    MaySend (pullSubscribe stream name) (.pullSubscribe durableName stream) ↔ durableName = name := by
  constructor
  · intro h
    rcases h with hsent | ⟨reply, h⟩
    · cases hsent
      rfl
    · cases reply <;> exact h.elim
  · intro h
    exact Or.inl (congrArg (StreamCommand.pullSubscribe · stream) h)

theorem pulls_from_created_iff (consumerAckPolicy : Dict Str Str) (streamName serviceName subject : Str)
    (durable : Option Str) :
    let a := subscribeArguments streamName serviceName subject durable
    (∀ config durableName, MaySend (createConsumer consumerAckPolicy a).2 (.addConsumer streamName config) →
        MaySend (pullSubscribe streamName a.consumerName) (.pullSubscribe durableName streamName) →
          config.durableName = durableName) ↔
      SafeSubscription serviceName subject durable := by
  intro a
  rw [← safeName_subscribed_iff, ← sanitize_eq_self_iff]
  constructor
  · intro h
    obtain ⟨config, hcreated⟩ := registers_once consumerAckPolicy a
    have hsame := h config a.consumerName hcreated (binds_given_iff.mpr rfl)
    rw [registers_sanitized hcreated] at hsame
    exact hsame
  · intro h config durableName hcreated hbound
    rw [registers_sanitized hcreated, binds_given_iff.mp hbound]
    exact h

end Client

/-- The tables for text that stays within ASCII. -/
@[reducible] def asciiLowerCase : LowerCase where
  special _ c _ := if 65 ≤ c.val ∧ c.val ≤ 90 then [] else [c]
  special_no_capital := by
    intro before c after x hx
    split at hx
    · cases hx
    · rename_i hcapital
      rw [List.mem_singleton.mp hx]
      exact hcapital

attribute [local instance] asciiLowerCase

/-- The billing service asks for a consumer of all recorded usage. -/
theorem recorded_usage_not_pulled :
    ∃ config durableName,
      MaySend (createConsumer Dict.empty (subscribeArguments (lit "USAGE_EVENTS") (lit "billing")
        (lit "usage.recorded.>") none)).2 (.addConsumer (lit "USAGE_EVENTS") config) ∧
      MaySend (pullSubscribe (lit "USAGE_EVENTS") (subscribedName (lit "billing") (lit "usage.recorded.>") none))
        (.pullSubscribe durableName (lit "USAGE_EVENTS")) ∧
      config.durableName ≠ durableName := by
  refine ⟨_, _, Or.inl rfl, Or.inl rfl, ?_⟩
  decide

end IsaCloud.Events
