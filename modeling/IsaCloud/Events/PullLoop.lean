import IsaCloud.Events.Overlap

/-!
# The pull loop and its acknowledgements

`_pull_and_process_loop` against a JetStream consumer with explicit acks: a
message that was delivered stays pending until it is acknowledged through its
handle, and is offered again once `ack_wait` has passed. The loop acknowledges
by sequence number, and `ack_message` answers success without telling the server
anything. So every message it was called for can be delivered again; what never
comes back is only what was never confirmed.
-/

namespace IsaCloud.Events

set_option autoImplicit false

open Support Support.Text Support.Python Support.Encoding Support.DateTime

/-! ## The consumer on the server -/

structure Message where
  sequence : Nat
  subject : Str
  data : Bytes

structure Consumer where
  ackWait : Nat
  /-- The messages of the stream that the consumer's filter selects. -/
  stream : List Message
  /-- When a delivered message may be delivered again. -/
  pending : Nat → Option Instant
  acked : Nat → Bool
  /-- The sequence numbers of all deliveries, first to last. -/
  delivered : List Nat

namespace Consumer

/-- A message that was never delivered, or whose ack is overdue. -/
def due (c : Consumer) (now : Instant) (sequence : Nat) : Bool :=
  !c.acked sequence &&
    match c.pending sequence with
    | none => true
    | some deadline => decide (deadline ≤ now)

def find (c : Consumer) (sequence : Nat) : Option Message :=
  c.stream.find? fun m => decide (m.sequence = sequence)

def deliver (c : Consumer) (now : Instant) (sequence : Nat) : Consumer :=
  { c with
    pending := Function.update c.pending sequence (some (now + c.ackWait))
    delivered := c.delivered ++ [sequence] }

/-- `msg.ack()`. -/
def ack (c : Consumer) (sequence : Nat) : Consumer :=
  { c with acked := Function.update c.acked sequence true }

/-- The answer to a fetch: any messages that are due, at most `batch` of them. -/
def fetch (now : Instant) : Nat → List Nat → Consumer → Consumer × List Message
  | _, [], c => (c, [])
  | 0, _ :: _, c => (c, [])
  | batch + 1, sequence :: rest, c =>
    match c.find sequence with
    | none => fetch now (batch + 1) rest c
    | some m =>
      if c.due now sequence then
        ((fetch now batch rest (c.deliver now sequence)).1,
          m :: (fetch now batch rest (c.deliver now sequence)).2)
      else fetch now (batch + 1) rest c

end Consumer

/-! ## The client -/

/-- The characters `re.sub(r"[^A-Za-z0-9_-]+", "-", name)` keeps. -/
def isNameChar (c : CodePoint) : Bool :=
  isDigit c || decide ((65 ≤ c.val ∧ c.val ≤ 90) ∨ (97 ≤ c.val ∧ c.val ≤ 122) ∨ c.val = 95 ∨
    c.val = 45)

/-- One dash for each run of other characters; `inRun` after such a character. -/
def dashRuns (inRun : Bool) : Str → Str
  | [] => []
  | c :: rest =>
    if isNameChar c then c :: dashRuns false rest
    else if inRun then dashRuns true rest
    else cp '-' :: dashRuns true rest

def stripDashes (s : Str) : Str :=
  ((s.dropWhile fun c => c = cp '-').reverse.dropWhile fun c => c = cp '-').reverse

def sanitizeConsumerName (name : Str) : Str :=
  match stripDashes (dashRuns false name) with
  | [] => lit "consumer"
  | sanitized => sanitized

def explicit : Str := lit "explicit"

/-- An entry of what `pull_messages` returns. -/
structure Envelope where
  subject : Str
  data : Bytes
  sequence : Nat
  numDelivered : Nat
  /-- Whether the envelope carries the message handle `_msg`. -/
  hasHandle : Bool

/-- The `auto_ack_effective` of a pull that does not override the policy. -/
def autoAck (consumerAckPolicy : Dict Str Str) (consumerName : Str) : Bool :=
  decide ((consumerAckPolicy.get (sanitizeConsumerName consumerName)).getD explicit ≠ explicit)

/-- `pull_messages`, when the server answers with the messages named in `choice`. -/
def pullMessages (consumerAckPolicy : Dict Str Str) (consumerName : Str) (batchSize : Nat)
    (now : Instant) (choice : List Nat) (c : Consumer) : Consumer × List Envelope :=
  let fetched := Consumer.fetch now batchSize choice c
  let auto := autoAck consumerAckPolicy consumerName
  (if auto then (fetched.2.map Message.sequence).foldl Consumer.ack fetched.1 else fetched.1,
    fetched.2.map fun m =>
      ⟨m.subject, m.data, m.sequence, fetched.1.delivered.count m.sequence, !auto⟩)

/-- `ack_message` takes the sequence number and reports success; nothing is sent. -/
def ackMessage (c : Consumer) (_sequence : Nat) : Consumer × Bool := (c, true)

/-! ## The loop -/

section Loop
variable {F H Hd : Type}

structure LoopState (F H : Type) where
  consumerAckPolicy : Dict Str Str
  consumer : Consumer
  world : World F H
  /-- The messages of the current batch that are still to be processed. -/
  queue : List Envelope
  /-- The messages `ack_message` was called for and reported success on. -/
  confirmed : List Nat

inductive LoopAction (H : Type) where
  | publish (subject : Str) (data : Bytes)
  | pass (e : Surroundings H)
  | pull (choice : List Nat)
  | next

/-- `create_consumer` with its defaults, and the loop about to start. -/
def LoopState.start (consumerName : Str) (now : Instant) (outside : H) : LoopState F H where
  consumerAckPolicy := Dict.empty.set (sanitizeConsumerName consumerName) explicit
  consumer := ⟨30 * usPerSecond, [], fun _ => none, fun _ => false, []⟩
  world := .start now outside
  queue := []
  confirmed := []

variable [PyFloat F] [EventModels F] (handle : Hd → Event F → H → H × Outcome) (nesting : Nat)
  (sub : Subscriber Hd) (consumerName : Str)

/-- One message of the batch: process it, and acknowledge it if that succeeded. -/
def processNext (s : LoopState F H) (msg : Envelope) (rest : List Envelope) : LoopState F H :=
  let r := (sub.processEvent nesting msg.data msg.subject).exec (serve handle) s.world
  if r.2.result then
    { s with
      consumer := (ackMessage s.consumer msg.sequence).1
      world := r.1
      queue := rest
      confirmed :=
        if (ackMessage s.consumer msg.sequence).2 then s.confirmed ++ [msg.sequence]
        else s.confirmed }
  else { s with world := r.1, queue := rest }

def loopStep (s : LoopState F H) : LoopAction H → LoopState F H
  | .publish subject data =>
    { s with consumer := { s.consumer with
        stream := s.consumer.stream ++ [⟨s.consumer.stream.length + 1, subject, data⟩] } }
  | .pass e => { s with world := e.act s.world }
  | .pull choice =>
    match s.queue with
    | [] =>
      let pulled := pullMessages s.consumerAckPolicy consumerName 10 s.world.now choice s.consumer
      { s with consumer := pulled.1, queue := pulled.2 }
    | _ :: _ => s
  | .next =>
    match s.queue with
    | [] => s
    | msg :: rest => processNext handle nesting sub s msg rest

/-- Unless the step processes a message, and `process_event` returns `True` for it. -/
def Refuses (s : LoopState F H) : LoopAction H → Prop
  | .next => ∀ msg rest, s.queue = msg :: rest →
    ((sub.processEvent nesting msg.data msg.subject).exec (serve handle) s.world).2.result = false
  | _ => True

/-- No message that was confirmed is delivered again, however the run goes on. -/
def StaysDelivered (s : LoopState F H) : Prop :=
  ∀ sequence ∈ s.confirmed, ∀ later : List (LoopAction H),
    (run (loopStep handle nesting sub consumerName) s later).consumer.delivered.count sequence =
      s.consumer.delivered.count sequence

end Loop

/-! ## What a run keeps -/

section Clock
variable {F H Hd : Type} [PyFloat F] (handle : Hd → Event F → H → H × Outcome)

theorem serve_now_le (w : World F H) (c : Cmd F Hd) : w.now ≤ (serve handle w c).1.now := by
  cases c with
  | sleep seconds => exact Nat.le_add_right _ _
  | redisSet key value ttl =>
    apply Nat.le_of_eq
    show w.redis.now = Redis.Server.now (if 0 < ttl then _ else _)
    split
    · rw [Redis.Server.expire_now]
      rfl
    · rfl
  | moveToDlq serviceName event subject reason =>
    show w.now ≤ (moveToDlq w serviceName event subject reason).now
    rw [moveToDlq_eq]
  | _ => exact Nat.le_refl _

theorem exec_now_le {Out : Type} (p : Coroutine F Hd Out) (w : World F H) :
    w.now ≤ (p.exec (serve handle) w).1.now := by
  induction p generalizing w with
  | ret o => exact Nat.le_refl _
  | call c k ih => exact Nat.le_trans (serve_now_le handle w c) (ih _ _)

end Clock

namespace Consumer

/-- Delivered messages are not acked, are in the stream, and their acks are
overdue `ackWait` from now at the latest. -/
structure Waiting (c : Consumer) (now : Instant) : Prop where
  unacked : ∀ sequence, c.acked sequence = false
  deadlines : ∀ sequence deadline, c.pending sequence = some deadline → deadline ≤ now + c.ackWait

theorem find_sequence {c : Consumer} {sequence : Nat} {m : Message} (h : c.find sequence = some m) :
    m.sequence = sequence := by
  have := List.find?_some h
  simpa using this

theorem Waiting.later {c : Consumer} {now now' : Nat} (h : c.Waiting now) (hle : now ≤ now') :
    c.Waiting now' := by
  refine ⟨h.unacked, fun sequence deadline hd => ?_⟩
  exact Nat.le_trans (h.deadlines sequence deadline hd) (Nat.add_le_add_right hle c.ackWait)

theorem Waiting.deliver {c : Consumer} {now : Instant} (h : c.Waiting now) (sequence : Nat) :
    (c.deliver now sequence).Waiting now := by
  refine ⟨h.unacked, fun other deadline hd => ?_⟩
  by_cases hother : other = sequence
  · subst hother
    have hd' : some (now + c.ackWait) = some deadline := by simpa [Consumer.deliver] using hd
    cases hd'
    exact Nat.le_refl _
  · exact h.deadlines other deadline (by simpa [Consumer.deliver, hother] using hd)

/-- A fetch leaves the stream as it is and answers with messages of it. -/
theorem fetch_spec {now : Instant} (batch : Nat) (choice : List Nat) {c : Consumer}
    (h : c.Waiting now) :
    (fetch now batch choice c).1.Waiting now ∧
    (fetch now batch choice c).1.find = c.find ∧
    ∀ m ∈ (fetch now batch choice c).2, (c.find m.sequence).isSome := by
  induction choice generalizing batch c with
  | nil =>
    cases batch <;> exact ⟨h, rfl, fun m hm => nomatch hm⟩
  | cons sequence rest ih =>
    cases batch with
    | zero => exact ⟨h, rfl, fun m hm => nomatch hm⟩
    | succ batch =>
      rw [fetch]
      cases hf : c.find sequence with
      | none => exact ih (batch + 1) h
      | some m =>
        dsimp only
        split
        · obtain ⟨hw, hs, hm⟩ := ih batch (h.deliver sequence)
          refine ⟨hw, hs, ?_⟩
          intro x hx
          rcases List.mem_cons.mp hx with rfl | hx
          · rw [find_sequence hf, hf]
            rfl
          · exact hm x hx
        · exact ih (batch + 1) h

end Consumer

section Runs
variable {F H Hd : Type} [PyFloat F] [EventModels F]
  {handle : Hd → Event F → H → H × Outcome} {nesting : Nat} {sub : Subscriber Hd}
  {consumerName : Str}

variable (consumerName) in
/-- The loop does not ack on its own, and what it has in hand or has confirmed is
in the stream, unacknowledged. -/
structure Unsettled (s : LoopState F H) : Prop where
  policy : autoAck s.consumerAckPolicy consumerName = false
  waiting : s.consumer.Waiting s.world.now
  queue : ∀ msg ∈ s.queue, (s.consumer.find msg.sequence).isSome
  confirmed : ∀ sequence ∈ s.confirmed, (s.consumer.find sequence).isSome

omit [PyFloat F] [EventModels F] in
theorem unsettled_start (now : Instant) (outside : H) :
    Unsettled consumerName (LoopState.start (F := F) consumerName now outside) where
  policy := by simp [autoAck, LoopState.start]
  waiting := ⟨fun _ => rfl, fun _ _ h => nomatch h⟩
  queue := fun _ h => nomatch h
  confirmed := fun _ h => nomatch h

variable (handle nesting sub) in
theorem Unsettled.next {s : LoopState F H} (h : Unsettled consumerName s) {msg : Envelope}
    {rest : List Envelope} (hq : s.queue = msg :: rest) :
    Unsettled consumerName (processNext handle nesting sub s msg rest) ∧
    (processNext handle nesting sub s msg rest).consumer = s.consumer ∧
    (processNext handle nesting sub s msg rest).queue = rest := by
  have hwaiting := h.waiting.later
    (exec_now_le handle (sub.processEvent nesting msg.data msg.subject) s.world)
  have hrest : ∀ m ∈ rest, (s.consumer.find m.sequence).isSome :=
    fun m hm => h.queue m (hq ▸ List.mem_cons_of_mem msg hm)
  unfold processNext
  dsimp only [ackMessage]
  split
  · refine ⟨⟨h.policy, hwaiting, hrest, ?_⟩, rfl, rfl⟩
    intro sequence hm
    rcases List.mem_append.mp hm with hm | hm
    · exact h.confirmed sequence hm
    · rw [List.mem_singleton.mp hm]
      exact h.queue msg (hq ▸ List.mem_cons_self)
  · exact ⟨⟨h.policy, hwaiting, hrest, h.confirmed⟩, rfl, rfl⟩

theorem Unsettled.step {s : LoopState F H} (h : Unsettled consumerName s) (a : LoopAction H) :
    Unsettled consumerName (loopStep handle nesting sub consumerName s a) := by
  cases a with
  | publish subject data =>
    have hfind : ∀ sequence, (s.consumer.find sequence).isSome →
        ((loopStep handle nesting sub consumerName s (.publish subject data)).consumer.find
          sequence).isSome := by
      intro sequence hs
      obtain ⟨m, hm⟩ := Option.isSome_iff_exists.mp hs
      show (List.find? _ (s.consumer.stream ++ _)).isSome
      rw [List.find?_append, Consumer.find] at *
      rw [hm]
      rfl
    exact ⟨h.policy, ⟨h.waiting.unacked, h.waiting.deadlines⟩,
      fun msg hm => hfind _ (h.queue msg hm), fun sequence hm => hfind _ (h.confirmed sequence hm)⟩
  | pass e =>
    have hle : s.world.now ≤ (e.act s.world).now := by
      cases e with
      | tick d => exact Nat.le_add_right _ d
      | outside x => exact Nat.le_refl _
    exact ⟨h.policy, h.waiting.later hle, h.queue, h.confirmed⟩
  | pull choice =>
    cases hq : s.queue with
    | cons msg rest =>
      simp only [loopStep, hq]
      exact h
    | nil =>
      simp only [loopStep, hq, pullMessages, h.policy, Bool.false_eq_true, if_false]
      obtain ⟨hw, hs, hm⟩ := Consumer.fetch_spec 10 choice h.waiting
      refine ⟨h.policy, hw, ?_, ?_⟩
      · intro msg hmsg
        obtain ⟨m, hmem, rfl⟩ := List.mem_map.mp hmsg
        show (Consumer.find _ m.sequence).isSome
        rw [hs]
        exact hm m hmem
      · intro sequence hc
        show (Consumer.find _ sequence).isSome
        rw [hs]
        exact h.confirmed sequence hc
  | next =>
    cases hq : s.queue with
    | nil =>
      simp only [loopStep, hq]
      exact h
    | cons msg rest =>
      simp only [loopStep, hq]
      exact (h.next handle nesting sub hq).1

variable (handle nesting sub) in
/-- Processing the rest of the batch leaves the server's view alone. -/
theorem Unsettled.drain {s : LoopState F H} (h : Unsettled consumerName s) {batch : List Envelope}
    (hq : s.queue = batch) :
    let s' := run (loopStep handle nesting sub consumerName) s (List.replicate batch.length .next)
    Unsettled consumerName s' ∧ s'.consumer = s.consumer ∧ s'.queue = [] := by
  induction batch generalizing s with
  | nil => exact ⟨h, rfl, hq⟩
  | cons msg rest ih =>
    obtain ⟨hu, hc, hrest⟩ := h.next handle nesting sub hq
    obtain ⟨hu', hc', hq'⟩ := ih hu hrest
    have hstep : loopStep handle nesting sub consumerName s .next =
        processNext handle nesting sub s msg rest := by
      simp only [loopStep, hq]
    rw [List.length_cons, List.replicate_succ, run_cons, hstep]
    exact ⟨hu', hc'.trans hc, hq'⟩

/-- After `ackWait` a message in the stream is due again. -/
theorem Consumer.Waiting.due {c : Consumer} {now now' : Nat} (h : c.Waiting now)
    (hle : now + c.ackWait ≤ now') (sequence : Nat) : c.due now' sequence = true := by
  rw [Consumer.due, h.unacked sequence]
  cases hp : c.pending sequence with
  | none => rfl
  | some deadline =>
    have := Nat.le_trans (h.deadlines sequence deadline hp) hle
    simpa using this

variable (handle nesting sub consumerName) in
/-- A message is confirmed by a step exactly when `process_event` returns `True`. -/
theorem confirmed_step (s : LoopState F H) (a : LoopAction H) :
    (Refuses handle nesting sub s a ∧
      (loopStep handle nesting sub consumerName s a).confirmed = s.confirmed) ∨
    (¬ Refuses handle nesting sub s a ∧ ∃ sequence,
      (loopStep handle nesting sub consumerName s a).confirmed = s.confirmed ++ [sequence]) := by
  cases a with
  | publish subject data => exact .inl ⟨trivial, rfl⟩
  | pass e => exact .inl ⟨trivial, rfl⟩
  | pull choice =>
    refine .inl ⟨trivial, ?_⟩
    cases hq : s.queue <;> simp only [loopStep, hq]
  | next =>
    cases hq : s.queue with
    | nil =>
      refine .inl ⟨fun msg rest hm => ?_, by simp only [loopStep, hq]⟩
      rw [hq] at hm
      cases hm
    | cons msg rest =>
      simp only [loopStep, hq, processNext, ackMessage, if_true]
      by_cases hr : ((sub.processEvent nesting msg.data msg.subject).exec (serve handle)
          s.world).2.result = true
      · right
        refine ⟨fun hall => ?_, msg.sequence, by rw [if_pos hr]⟩
        rw [hall msg rest hq] at hr
        cases hr
      · left
        refine ⟨fun m r hm => ?_, by rw [if_neg hr]⟩
        rw [hq] at hm
        cases hm
        exact Bool.eq_false_iff.mpr hr

theorem confirmed_run_iff (s : LoopState F H) (h : s.confirmed = []) (actions : List (LoopAction H)) :
    (run (loopStep handle nesting sub consumerName) s actions).confirmed = [] ↔
      Guarded (loopStep handle nesting sub consumerName) (Refuses handle nesting sub) s actions := by
  induction actions generalizing s with
  | nil => simp [Guarded, h]
  | cons a actions ih =>
    rw [run_cons, Guarded]
    rcases confirmed_step handle nesting sub consumerName s a with ⟨hr, hc⟩ | ⟨hr, sequence, hc⟩
    · rw [ih _ (hc.trans h)]
      exact ⟨fun hg => ⟨hr, hg⟩, fun hg => hg.2⟩
    · refine iff_of_false ?_ (fun hg => hr hg.1)
      refine run_invariant (fun t : LoopState F H => t.confirmed ≠ []) ?_ actions
        (by rw [hc]; simp)
      intro t b ht
      rcases confirmed_step handle nesting sub consumerName t b with ⟨-, hb⟩ | ⟨-, n, hb⟩
      · rw [hb]
        exact ht
      · rw [hb]
        simp

variable (handle nesting sub) in
/-- A message of the stream is delivered again by a pull `ackWait` later. -/
theorem Unsettled.redeliver {s : LoopState F H} (h : Unsettled consumerName s) (hq : s.queue = [])
    {sequence : Nat} (hfind : (s.consumer.find sequence).isSome) :
    (run (loopStep handle nesting sub consumerName) s
      [.pass (.tick s.consumer.ackWait), .pull [sequence]]).consumer.delivered =
        s.consumer.delivered ++ [sequence] := by
  obtain ⟨m, hm⟩ := Option.isSome_iff_exists.mp hfind
  have hdue : s.consumer.due (Surroundings.act s.world (.tick s.consumer.ackWait)).now sequence =
      true := h.waiting.due (Nat.le_refl _) sequence
  simp only [run_cons, run_nil, loopStep, hq, pullMessages, h.policy, Bool.false_eq_true, if_false,
    Consumer.fetch, hm, hdue, if_true]
  rfl

variable (handle nesting sub consumerName) in
/-- At the end of a run the confirmed messages are acknowledged, or cannot come
back, exactly when none was confirmed: when `process_event` returned `True` for no
message the loop processed. -/
theorem confirmed_stay_delivered_iff (now : Instant) (outside : H)
    (actions : List (LoopAction H)) :
    let s := run (loopStep handle nesting sub consumerName)
      (LoopState.start consumerName now outside) actions
    let refused := Guarded (loopStep handle nesting sub consumerName) (Refuses handle nesting sub)
      (LoopState.start consumerName now outside) actions
    (StaysDelivered handle nesting sub consumerName s ↔ refused) ∧
    ((∀ sequence ∈ s.confirmed, s.consumer.acked sequence = true) ↔ refused) := by
  intro s refused
  have hrefused : s.confirmed = [] ↔ refused := confirmed_run_iff _ rfl actions
  rw [← hrefused]
  have hs : Unsettled consumerName s :=
    run_invariant (Unsettled consumerName) (fun _ a h => h.step a) actions
      (unsettled_start now outside)
  refine ⟨⟨?_, ?_⟩, ⟨?_, ?_⟩⟩
  · intro hsettled
    by_contra hne
    obtain ⟨sequence, hmem⟩ := List.exists_mem_of_ne_nil _ hne
    obtain ⟨hu, hc, hq⟩ := hs.drain handle nesting sub rfl
    have hfind := hs.confirmed sequence hmem
    rw [← hc] at hfind
    have hagain := hu.redeliver handle nesting sub hq hfind
    have hcount := hsettled sequence hmem (List.replicate s.queue.length .next ++
      [.pass (.tick s.consumer.ackWait), .pull [sequence]])
    rw [run_append] at hcount
    rw [hc] at hagain
    rw [hagain] at hcount
    simp at hcount
  · intro hnone sequence hmem
    rw [hnone] at hmem
    cases hmem
  · intro hacked
    by_contra hne
    obtain ⟨sequence, hmem⟩ := List.exists_mem_of_ne_nil _ hne
    have := hacked sequence hmem
    rw [hs.waiting.unacked sequence] at this
    cases this
  · intro hnone sequence hmem
    rw [hnone] at hmem
    cases hmem

end Runs

/-! ## A confirmed message that comes back -/

section
attribute [local instance] errorEventModels

def pulledAgain : List (LoopAction Unit) :=
  [.publish (lit "billing.failed") failedMessage, .pull [1], .next,
    .pass (.tick (30 * usPerSecond)), .pull [1]]

/-- The message is processed and confirmed, and delivered again 30 seconds later. -/
theorem confirmed_message_redelivered :
    let before := run (loopStep alwaysSucceeds 10 billingService (lit "billing-worker"))
      (LoopState.start (F := Unit) (lit "billing-worker") 0 ()) (pulledAgain.take 3)
    before.confirmed = [1] ∧ before.consumer.delivered = [1] ∧
    (run (loopStep alwaysSucceeds 10 billingService (lit "billing-worker")) before
      (pulledAgain.drop 3)).consumer.delivered = [1, 1] ∧
    ¬ StaysDelivered alwaysSucceeds 10 billingService (lit "billing-worker") before := by
  have hconfirmed : (run (loopStep alwaysSucceeds 10 billingService (lit "billing-worker"))
      (LoopState.start (F := Unit) (lit "billing-worker") 0 ()) (pulledAgain.take 3)).confirmed =
        [1] := by decide +kernel
  have hbefore : (run (loopStep alwaysSucceeds 10 billingService (lit "billing-worker"))
      (LoopState.start (F := Unit) (lit "billing-worker") 0 ())
        (pulledAgain.take 3)).consumer.delivered = [1] := by decide +kernel
  have hafter : (run (loopStep alwaysSucceeds 10 billingService (lit "billing-worker"))
      (run (loopStep alwaysSucceeds 10 billingService (lit "billing-worker"))
        (LoopState.start (F := Unit) (lit "billing-worker") 0 ()) (pulledAgain.take 3))
      (pulledAgain.drop 3)).consumer.delivered = [1, 1] := by decide +kernel
  refine ⟨hconfirmed, hbefore, hafter, ?_⟩
  intro hstays
  have hcount := hstays 1 (by rw [hconfirmed]; exact List.mem_singleton_self 1) (pulledAgain.drop 3)
  rw [hafter, hbefore] at hcount
  exact absurd hcount (by decide)

end

end IsaCloud.Events
