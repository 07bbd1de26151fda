import IsaCloud.Support.Dict
import IsaCloud.Support.Python
import IsaCloud.Support.Subjects

/-!
# The streams that subscriptions read from

`subscribe` makes sure that a stream of a certain name exists and reads from it.
Name and subjects of the stream come from one token of the filter; a stream keeps
the subjects it was created with, so it captures what a later filter matches only
if that filter has the token in the same place. Consumers are left out.
-/

namespace IsaCloud.Events

set_option autoImplicit false

open Support Support.Text Support.Python Support.Subjects

/-- `str.upper` beyond ASCII. -/
class UpperCase where
  upper : CodePoint → Str

section Naming
variable [UpperCase]

def upperPoint (c : CodePoint) : CodePoint := if 97 ≤ c.val ∧ c.val ≤ 122 then c - 32 else c

def upper (s : Str) : Str := s.flatMap fun c => if c.val < 0x80 then [upperPoint c] else UpperCase.upper c

def eventsSuffix : Str := lit "_EVENTS"

def getStreamNameFromSubject (subject : Str) : Str :=
  if (lit "usage.").isPrefixOf subject then lit "USAGE_EVENTS"
  else if (lit "billing.").isPrefixOf subject then lit "BILLING_EVENTS"
  else if (lit "wallet.").isPrefixOf subject then lit "WALLET_EVENTS"
  else
    let parts := splitDots subject
    let first := parts.headD []
    if isWildcard first then
      match parts[1]? with
      | some second => if isWildcard second then lit "EVENTS" else upper second ++ eventsSuffix
      | none => lit "EVENTS"
    else upper first ++ eventsSuffix

def getStreamSubjects (subject : Str) : List Str :=
  if (lit "usage.").isPrefixOf subject then [lit "usage.>"]
  else if (lit "billing.").isPrefixOf subject then [lit "billing.>"]
  else if (lit "wallet.").isPrefixOf subject then [lit "wallet.>"]
  else
    let parts := splitDots subject
    let first := parts.headD []
    if isWildcard first then
      match parts[1]? with
      | some second => if isWildcard second then [lit ">"] else [lit "*." ++ second ++ lit ".>"]
      | none => [lit ">"]
    else [first ++ lit ".>"]

/-! ## Subscribing -/

structure Call where
  serviceName : Str
  subject : Filter
  queue : Option Str
  durable : Option Str

def Call.consumerName (call : Call) : Str :=
  let named := call.serviceName ++ lit "-" ++ call.subject.text.flatMap fun c =>
    if c = cp '*' then lit "all" else if c = cp '.' then lit "-" else [c]
  match call.durable with
  | some durable => if durable = [] then named else durable
  | none => named

structure Subscription where
  subject : Filter
  stream : Str
  consumer : Str
  queue : Option Str

/-- The subjects of the streams on the server, and the active subscriptions of its clients. -/
structure Subscribed where
  streams : Dict Str (List Str)
  subscriptions : List Subscription

def Subscribed.start : Subscribed := ⟨.empty, []⟩

/-- A stream that exists keeps its configuration. -/
def createStream (streams : Dict Str (List Str)) (name : Str) (subjects : List Str) : Dict Str (List Str) :=
  match streams.get name with
  | some _ => streams
  | none => streams.set name subjects

def Subscribed.subscribe (s : Subscribed) (call : Call) : Subscribed :=
  let streamName := getStreamNameFromSubject call.subject.text
  { streams := createStream s.streams streamName (getStreamSubjects call.subject.text)
    subscriptions := s.subscriptions ++ [⟨call.subject, streamName, call.consumerName, call.queue⟩] }

def Subscribed.after (calls : List Call) : Subscribed := calls.foldl Subscribed.subscribe .start

/-- The stream a subscription reads from captures every subject that its filter matches. -/
def Subscription.Covered (streams : Dict Str (List Str)) (sub : Subscription) : Prop :=
  ∀ s : Subject, sub.subject.Matches s →
    ∃ subjects, streams.get sub.stream = some subjects ∧ ∃ pattern ∈ subjects, Captures pattern s

end Naming

/-! ## The token a stream is named after -/

/-- Where a filter has the token from which name and subjects of its stream are made. -/
inductive Base where
  | all
  | first (t : Str)
  | second (t : Str)
  deriving DecidableEq, Repr

def baseOf (ts : List Str) : Base :=
  if isWildcard (ts.headD []) then
    match ts[1]? with
    | some t => if isWildcard t then .all else .second t
    | none => .all
  else .first (ts.headD [])

namespace Base

def pattern : Base → Str
  | all => lit ">"
  | first t => t ++ lit ".>"
  | second t => lit "*." ++ t ++ lit ".>"

/-- A filter has the token at its place, and another one after it. -/
def Kept : Base → List Str → Prop
  | all, _ => True
  | first t, ts => ts[0]? = some t ∧ 2 ≤ ts.length
  | second t, ts => ts[1]? = some t ∧ 3 ≤ ts.length

end Base

theorem Base.suffix_ne {l : Str} : l ++ eventsSuffix ≠ lit "EVENTS" := by
  intro h
  have hlen := congrArg List.length h
  rw [List.length_append] at hlen
  have : eventsSuffix.length = 7 := by decide
  have : (lit "EVENTS").length = 6 := by decide
  omega

theorem splitDots_of_isPrefixOf {word : Str} (hdot : dotPoint ∉ word) {s : Str}
    (h : (word ++ [dotPoint]).isPrefixOf s = true) : ∃ r, splitDots s = word :: r := by
  obtain ⟨r, rfl⟩ := List.isPrefixOf_iff_prefix.mp h
  rw [List.append_assoc, List.singleton_append, splitDots_cons hdot]
  exact ⟨_, rfl⟩

theorem baseOf_cases (ts : List Str) :
    (baseOf ts = .all ∧ isWildcard (ts.headD []) = true ∧ ∀ t, ts[1]? = some t → isWildcard t = true) ∨
    (∃ t, baseOf ts = .second t ∧ isWildcard (ts.headD []) = true ∧ ts[1]? = some t ∧ isWildcard t = false) ∨
    (baseOf ts = .first (ts.headD []) ∧ isWildcard (ts.headD []) = false) := by
  unfold baseOf
  cases hw : isWildcard (ts.headD []) with
  | false => exact Or.inr (Or.inr ⟨rfl, rfl⟩)
  | true =>
    cases hs : ts[1]? with
    | none => exact Or.inl ⟨rfl, rfl, fun t ht => by cases ht⟩
    | some t =>
      cases ht : isWildcard t with
      | true => exact Or.inl ⟨by simp [ht], rfl, fun u hu => by rw [← Option.some.inj hu, ht]⟩
      | false => exact Or.inr (Or.inl ⟨t, by simp [ht], rfl, rfl, ht⟩)

theorem getStreamSubjects_eq (subject : Str) :
    getStreamSubjects subject = [(baseOf (splitDots subject)).pattern] := by
  have hspecial : ∀ word : Str, dotPoint ∉ word → isWildcard word = false →
      (word ++ [dotPoint]).isPrefixOf subject = true →
      (baseOf (splitDots subject)).pattern = word ++ lit ".>" := by
    intro word hdot hw hp
    obtain ⟨r, hr⟩ := splitDots_of_isPrefixOf hdot hp
    simp [hr, baseOf, hw, Base.pattern, -List.headD_eq_head?_getD]
  unfold getStreamSubjects
  split
  · next h => rw [hspecial (lit "usage") (by decide) (by decide) h]; rfl
  · split
    · next h => rw [hspecial (lit "billing") (by decide) (by decide) h]; rfl
    · split
      · next h => rw [hspecial (lit "wallet") (by decide) (by decide) h]; rfl
      · rcases baseOf_cases (splitDots subject) with ⟨hb, hw, hs⟩ | ⟨t, hb, hw, hs, ht⟩ | ⟨hb, hw⟩
        · rw [hb]
          cases hsecond : (splitDots subject)[1]? with
          | none => simp [hw, hsecond, Base.pattern, -List.headD_eq_head?_getD]
          | some t => simp [hw, hsecond, hs t hsecond, Base.pattern, -List.headD_eq_head?_getD]
        · simp [hb, hw, hs, ht, Base.pattern, -List.headD_eq_head?_getD]
        · simp [hb, hw, Base.pattern, -List.headD_eq_head?_getD]

/-! ## What a stream captures -/

/-- The stream of a filter captures exactly the subjects that keep its base. -/
theorem captures_pattern_iff (g : Filter) (s : Subject) :
    Captures (baseOf g.tokens).pattern s ↔ (baseOf g.tokens).Kept s.tokens := by
  have hrest : dotPoint ∉ rest := by decide
  have hstar : dotPoint ∉ Subjects.star := by decide
  rcases baseOf_cases g.tokens with ⟨hb, _, _⟩ | ⟨t, hb, _, hs, ht⟩ | ⟨hb, hw⟩
  · rw [hb]
    have hsplit : splitDots (Base.pattern .all) = [rest] := splitDots_single hrest
    rw [Captures, hsplit, matchTokens_rest]
    exact iff_of_true s.ne_nil trivial
  · have hdot := dotPoint_not_mem (g.token t (List.mem_of_getElem? hs))
    have hsplit : splitDots (Base.pattern (.second t)) = [Subjects.star, t, rest] := by
      have : Base.pattern (.second t) = Subjects.star ++ dotPoint :: (t ++ dotPoint :: rest) := by
        simp [Base.pattern, Subjects.star, rest, lit, dotPoint]
      rw [this, splitDots_cons hstar, splitDots_cons hdot, splitDots_single hrest]
    rw [hb, Captures, hsplit, matchTokens_second ht]
    rfl
  · obtain ⟨t, r, hr⟩ := List.exists_cons_of_ne_nil g.ne_nil
    have ht : g.tokens.headD [] = t := by rw [hr]; rfl
    rw [ht] at hb hw
    have hdot := dotPoint_not_mem (g.token t (by rw [hr]; exact List.mem_cons_self))
    have hsplit : splitDots (Base.pattern (.first t)) = [t, rest] := by
      have : Base.pattern (.first t) = t ++ dotPoint :: rest := by
        simp [Base.pattern, rest, lit, dotPoint]
      rw [this, splitDots_cons hdot, splitDots_single hrest]
    rw [hb, Captures, hsplit, matchTokens_first hw]
    rfl

/-- A filter keeps a base if everything it matches does. -/
theorem kept_iff (g f : Filter) :
    (∀ s : Subject, f.Matches s → (baseOf g.tokens).Kept s.tokens) ↔ (baseOf g.tokens).Kept f.tokens := by
  -- a subject matched by `f` in which `t` occurs only where `f` has it
  have hfill : ∀ t, ∃ s : Subject, f.Matches s ∧ s.tokens.length = f.tokens.length ∧
      ∀ n : Nat, s.tokens[n]? = some t → f.tokens[n]? = some t := by
    intro t
    obtain ⟨x, hx, hne⟩ := exists_literal_ne t
    exact ⟨f.fill x hx, f.matches_fill hx, List.length_map _, fun n => getElem?_of_fill hne⟩
  rcases baseOf_cases g.tokens with ⟨hb, _, _⟩ | ⟨t, hb, _, _, ht⟩ | ⟨hb, hw⟩
  · rw [hb]
    exact iff_of_true (fun _ _ => trivial) trivial
  · rw [hb]
    constructor
    · intro h
      obtain ⟨s, hm, hlen, hback⟩ := hfill t
      obtain ⟨hsecond, hlong⟩ := h s hm
      exact ⟨hback 1 hsecond, hlen ▸ hlong⟩
    · rintro ⟨hsecond, hlong⟩ s hm
      exact ⟨getElem?_of_matches ht hsecond hm, le_trans hlong (length_le_of_matchTokens hm)⟩
  · rw [hb]
    constructor
    · intro h
      obtain ⟨s, hm, hlen, hback⟩ := hfill (g.tokens.headD [])
      obtain ⟨hfirst, hlong⟩ := h s hm
      exact ⟨hback 0 hfirst, hlen ▸ hlong⟩
    · rintro ⟨hfirst, hlong⟩ s hm
      exact ⟨getElem?_of_matches hw hfirst hm, le_trans hlong (length_le_of_matchTokens hm)⟩

/-! ## Every sequence of subscriptions -/

theorem get_createStream (streams : Dict Str (List Str)) (name n : Str) (subjects : List Str) :
    (createStream streams name subjects).get n =
      (streams.get n).or (if name = n then some subjects else none) := by
  unfold createStream
  split
  · next h =>
    by_cases he : name = n
    · subst he
      rw [h, Option.some_or]
    · rw [if_neg he, Option.or_none]
  · next h =>
    rw [Dict.get_set]
    by_cases he : name = n
    · subst he
      rw [if_pos rfl, if_pos rfl, h, Option.none_or]
    · have he' : n ≠ name := fun hn => he hn.symm
      rw [if_neg he', if_neg he, Option.or_none]

def Call.base (call : Call) : Base := baseOf call.subject.tokens

theorem streamSubjects_eq (call : Call) : getStreamSubjects call.subject.text = [call.base.pattern] := by
  rw [getStreamSubjects_eq, Filter.splitDots_text]
  rfl

section Names
variable [UpperCase]

namespace Base

/-- The part of the stream name that the filter decides. -/
def label : Base → Option Str
  | all => none
  | first t => some (upper t)
  | second t => some (upper t)

def name (b : Base) : Str :=
  match b.label with
  | none => lit "EVENTS"
  | some l => l ++ eventsSuffix

theorem name_inj {a b : Base} : a.name = b.name ↔ a.label = b.label := by
  unfold name
  cases ha : a.label with
  | none =>
    cases hb : b.label with
    | none => simp
    | some m => simpa using suffix_ne.symm
  | some l =>
    cases hb : b.label with
    | none => simpa using suffix_ne
    | some m => simp

end Base

/-- The three subjects with a clause of their own get what the last clause gives them. -/
theorem getStreamNameFromSubject_eq (subject : Str) :
    getStreamNameFromSubject subject = (baseOf (splitDots subject)).name := by
  have hspecial : ∀ word : Str, dotPoint ∉ word → isWildcard word = false →
      (word ++ [dotPoint]).isPrefixOf subject = true →
      (baseOf (splitDots subject)).name = upper word ++ eventsSuffix := by
    intro word hdot hw hp
    obtain ⟨r, hr⟩ := splitDots_of_isPrefixOf hdot hp
    simp [hr, baseOf, hw, Base.name, Base.label, -List.headD_eq_head?_getD]
  unfold getStreamNameFromSubject
  split
  · next h => exact (hspecial (lit "usage") (by decide) (by decide) h).symm
  · split
    · next h => exact (hspecial (lit "billing") (by decide) (by decide) h).symm
    · split
      · next h => exact (hspecial (lit "wallet") (by decide) (by decide) h).symm
      · rcases baseOf_cases (splitDots subject) with ⟨hb, hw, hs⟩ | ⟨t, hb, hw, hs, ht⟩ | ⟨hb, hw⟩
        · rw [hb]
          cases hsecond : (splitDots subject)[1]? with
          | none => simp [hw, hsecond, Base.name, Base.label, -List.headD_eq_head?_getD]
          | some t => simp [hw, hsecond, hs t hsecond, Base.name, Base.label, -List.headD_eq_head?_getD]
        · simp [hb, hw, hs, ht, Base.name, Base.label, -List.headD_eq_head?_getD]
        · simp [hb, hw, Base.name, Base.label, -List.headD_eq_head?_getD]

theorem streamName_eq (call : Call) : getStreamNameFromSubject call.subject.text = call.base.name := by
  rw [getStreamNameFromSubject_eq, Filter.splitDots_text]
  rfl

/-- A stream has the subjects of the first filter of its name. -/
theorem get_foldl_subscribe (calls : List Call) (s : Subscribed) (n : Str) :
    (calls.foldl Subscribed.subscribe s).streams.get n =
      (s.streams.get n).or ((calls.find? fun c => decide (c.base.name = n)).map fun c => [c.base.pattern]) := by
  induction calls generalizing s with
  | nil => simp
  | cons call calls ih =>
    have hstep : (s.subscribe call).streams.get n =
        (s.streams.get n).or (if call.base.name = n then some [call.base.pattern] else none) := by
      rw [Subscribed.subscribe, get_createStream, streamName_eq, streamSubjects_eq]
    rw [List.foldl_cons, ih, hstep, List.find?_cons]
    by_cases hn : call.base.name = n
    · rw [if_pos hn, decide_eq_true hn]
      cases s.streams.get n with
      | none => rfl
      | some subjects => rfl
    · rw [if_neg hn, decide_eq_false hn, Option.or_none]

theorem subscriptions_foldl (calls : List Call) (s : Subscribed) :
    (calls.foldl Subscribed.subscribe s).subscriptions = s.subscriptions ++
      calls.map fun c => ⟨c.subject, c.base.name, c.consumerName, c.queue⟩ := by
  induction calls generalizing s with
  | nil => simp
  | cons call calls ih =>
    rw [List.foldl_cons, ih, Subscribed.subscribe, streamName_eq]
    simp

/-- The first filter subscribed to whose token has the same upper-case form. -/
def firstOf (calls : List Call) (call : Call) : Option Call :=
  calls.find? fun c => decide (c.base.label = call.base.label)

theorem firstOf_isSome {calls : List Call} {call : Call} (h : call ∈ calls) : (firstOf calls call).isSome := by
  rw [firstOf, List.find?_isSome]
  exact ⟨call, h, decide_eq_true rfl⟩

/-- Streams capture what is subscribed to exactly when each filter keeps the base its stream was made from. -/
theorem subscriptions_covered_iff (calls : List Call) :
    (∀ sub ∈ (Subscribed.after calls).subscriptions, sub.Covered (Subscribed.after calls).streams) ↔
      ∀ call ∈ calls, ∀ first, firstOf calls call = some first → first.base.Kept call.subject.tokens := by
  have hget : ∀ call, (Subscribed.after calls).streams.get call.base.name =
      (firstOf calls call).map fun c => [c.base.pattern] := by
    intro call
    rw [Subscribed.after, get_foldl_subscribe, firstOf]
    simp only [Subscribed.start, Dict.get_empty, Option.none_or, Base.name_inj]
  rw [Subscribed.after, subscriptions_foldl, ← Subscribed.after]
  simp only [Subscribed.start, List.nil_append, List.forall_mem_map]
  refine forall₂_congr fun call hcall => ?_
  obtain ⟨first, hfirst⟩ := Option.isSome_iff_exists.mp (firstOf_isSome hcall)
  have hcaptures : ∀ s, (∃ subjects, (Subscribed.after calls).streams.get call.base.name = some subjects ∧
      ∃ pattern ∈ subjects, Captures pattern s) ↔ first.base.Kept s.tokens := by
    intro s
    have hiff := captures_pattern_iff first.subject s
    rw [hget, hfirst, Option.map_some]
    simpa [Call.base] using hiff
  simp only [Subscription.Covered, hcaptures, hfirst, Option.some.injEq, forall_eq']
  exact kept_iff first.subject call.subject

end Names

/-! ## Two filters of one stream -/

/-- Upper case where only ASCII letters have one. -/
@[reducible] def asciiUpperCase : UpperCase := ⟨fun c => [c]⟩

attribute [local instance] asciiUpperCase

def fileCreated : Filter := ⟨[lit "file", lit "created"], by decide, by decide, by decide⟩

def anyFile : Filter := ⟨[star, lit "file", rest], by decide, by decide, by decide⟩

def appFileDone : Subject := ⟨[lit "app", lit "file", lit "done"], by decide, by decide⟩

/-- One service listens to the events of the file service, then another to the file events of every service. -/
def fileCalls : List Call :=
  [⟨lit "audit", fileCreated, none, none⟩, ⟨lit "media", anyFile, none, none⟩]

example : (Subscribed.after fileCalls).streams.entries = [(lit "FILE_EVENTS", [lit "file.>"])] := by decide

theorem file_events_not_covered :
    ¬ ∀ sub ∈ (Subscribed.after fileCalls).subscriptions, sub.Covered (Subscribed.after fileCalls).streams := by
  intro h
  have hentry : (Subscribed.after fileCalls).streams.get (lit "FILE_EVENTS") = some [lit "file.>"] := by
    decide
  have hsub : (⟨anyFile, lit "FILE_EVENTS", lit "media-all-file->", none⟩ : Subscription) ∈
      (Subscribed.after fileCalls).subscriptions := by
    have hname : getStreamNameFromSubject anyFile.text = lit "FILE_EVENTS" := by decide
    have hconsumer : Call.consumerName ⟨lit "media", anyFile, none, none⟩ = lit "media-all-file->" := by
      decide
    rw [← hname, ← hconsumer]
    exact List.mem_append_right _ List.mem_cons_self
  obtain ⟨subjects, hget, pattern, hpattern, hcaptures⟩ :=
    h _ hsub appFileDone (by unfold Filter.Matches; decide)
  rw [hentry] at hget
  obtain rfl := Option.some.inj hget
  obtain rfl := List.mem_singleton.mp hpattern
  revert hcaptures
  unfold Captures
  decide

end IsaCloud.Events
