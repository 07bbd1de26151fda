import IsaCloud.Events.Subscriber

/-!
# Overlapping deliveries of one event

`process_event` looks the event id up, runs the handler and marks the id, and
gives the event loop away in between. Two deliveries of one event that both look
before either has marked both run the handler to success. Deliveries of an event
that do not overlap, in the sense that none looks while another one is between
its look-up and its return, handle the event successfully at most once, whatever
else the subscribers of the shared store are doing.
-/

namespace IsaCloud.Events

set_option autoImplicit false

open Support Support.Text Support.Python Support.Encoding Support.DateTime Support.IsoTime

variable {F H Hd : Type}

structure Delivery (Hd : Type) where
  subscriber : Subscriber Hd
  eventData : Bytes
  subject : Str

/-- What happens to the shared world between two commands. -/
inductive Surroundings (H : Type) where
  | tick (d : Nat)
  | outside (h : H)

def Surroundings.act (w : World F H) : Surroundings H → World F H
  | tick d => { w with redis := w.redis.advance d }
  | outside h => { w with outside := h }

/-- The handler calls for an event id that ended with success. -/
def World.successes (w : World F H) (id : Str) : Nat :=
  w.calls.countP fun c => decide (c.1.eventId = id) && decide (c.2 = .success)

abbrev Deliveries (F H Hd : Type) := Pool (World F H) (Delivery Hd) (Cmd F Hd) Reply Report

/-! ## The shape of a delivery -/

section Shape
variable (id : Str)

/-- A command that neither handles nor marks an event with this id. -/
def Quiet : Cmd F Hd → Prop
  | .handle _ event => event.eventId ≠ id
  | .markCached eventId _ => eventId ≠ id
  | _ => True

def Calm : Coroutine F Hd Report → Prop
  | .ret _ => True
  | .call c k => Quiet id c ∧ ∀ r, Calm (k r)

/-- The handler has succeeded; the id is marked next. -/
def Marking (p : Coroutine F Hd Report) : Prop :=
  ∃ maxCacheSize k, p = .call (.markCached id maxCacheSize) k ∧ ∀ r, ∃ report, k r = .ret report

/-- The id was looked up and not found, and the handler has not succeeded yet. -/
def Handling : Coroutine F Hd Report → Prop
  | .ret _ => True
  | .call (.handle _ _) k =>
    Marking id (k (.outcome .success)) ∧ ∀ o, o ≠ .success → Handling (k (.outcome o))
  | .call (.sleep _) k => ∀ r, Handling (k r)
  | .call (.moveToDlq _ _ _ _) k => ∀ r, Handling (k r)
  | .call _ _ => False

/-- The next command looks the id up. -/
def Looks (p : Coroutine F Hd Report) : Prop := ∃ k, p = .call (.isCached id) k

def Unchecked (p : Coroutine F Hd Report) : Prop :=
  ∃ k, p = .call (.isCached id) k ∧ (∃ report, k (.bool true) = .ret report) ∧
    Handling id (k (.bool false))

variable {id}

theorem handling_head {p : Coroutine F Hd Report} (h : Handling id p) :
    ¬ Looks id p ∧ ¬ Marking id p := by
  constructor
  · rintro ⟨k, rfl⟩
    exact h
  · rintro ⟨maxCacheSize, k, rfl, -⟩
    exact h

theorem calm_giveUp (sub : Subscriber Hd) (event : Event F) (subject : Str) :
    Calm id (sub.giveUp event subject) := ⟨trivial, fun _ => trivial⟩

theorem calm_finish [PyFloat F] (sub : Subscriber Hd) (hmem : sub.idempotency.storage = .memory)
    {event : Event F} (h : event.eventId ≠ id) : Calm id (sub.finish event) := by
  unfold Subscriber.finish
  split
  · trivial
  · simp only [IdempotencyChecker.markProcessed, hmem]
    exact ⟨h, fun _ => trivial⟩

theorem calm_executeFrom (sub : Subscriber Hd) (handler : Hd) {event : Event F}
    (h : event.eventId ≠ id) {k : Bool → Coroutine F Hd Report} (hk : ∀ b, Calm id (k b))
    (left attempt : Nat) : Calm id (sub.executeFrom handler event k left attempt) := by
  induction left generalizing attempt with
  | zero => exact hk false
  | succ left ih =>
    refine ⟨h, fun r => ?_⟩
    dsimp only
    split
    · exact hk true
    · split
      · exact ⟨trivial, fun _ => ih (attempt + 1)⟩
      · exact ih (attempt + 1)

theorem calm_runHandler [PyFloat F] (sub : Subscriber Hd) (hmem : sub.idempotency.storage = .memory)
    {event : Event F} (h : event.eventId ≠ id) (subject : Str) :
    Calm id (sub.runHandler event subject) := by
  unfold Subscriber.runHandler
  split
  · trivial
  · apply calm_executeFrom sub _ h
    intro b
    cases b with
    | true => exact calm_finish sub hmem h
    | false => exact calm_giveUp sub event subject

theorem marking_finish [PyFloat F] (sub : Subscriber Hd) (hmem : sub.idempotency.storage = .memory)
    {event : Event F} (hid : id ≠ []) (h : event.eventId = id) :
    Marking id (sub.finish event) := by
  simp only [Subscriber.finish, IdempotencyChecker.markProcessed, hmem, h, if_neg hid]
  exact ⟨sub.idempotency.maxCacheSize, fun _ => .ret .processed, rfl, fun _ => ⟨.processed, rfl⟩⟩

theorem handling_executeFrom (sub : Subscriber Hd) (handler : Hd) (event : Event F)
    {k : Bool → Coroutine F Hd Report} (hk : Handling id (k false)) (hm : Marking id (k true))
    (left attempt : Nat) : Handling id (sub.executeFrom handler event k left attempt) := by
  induction left generalizing attempt with
  | zero => exact hk
  | succ left ih =>
    refine ⟨?_, fun o ho => ?_⟩
    · simpa using hm
    · simp only [Reply.toOutcome_outcome, ho, if_false]
      split
      · exact fun _ => ih (attempt + 1)
      · exact ih (attempt + 1)

theorem handling_runHandler [PyFloat F] (sub : Subscriber Hd) (hmem : sub.idempotency.storage = .memory)
    {event : Event F} (hid : id ≠ []) (h : event.eventId = id) (subject : Str) :
    Handling id (sub.runHandler event subject) := by
  unfold Subscriber.runHandler
  split
  · trivial
  · apply handling_executeFrom
    · exact fun _ => trivial
    · exact marking_finish sub hmem hid h

variable [PyFloat F] [EventModels F]

variable (F id) in
/-- The message is an event with this id. -/
def Delivers (nesting : Nat) (d : Delivery Hd) : Prop :=
  ∃ event : Event F, deserializeEvent nesting d.eventData = some event ∧ event.eventId = id

variable (F id) in
/-- How far a delivery is that looks up, handles and marks the id; any other
delivery leaves the id alone. -/
def InShape (nesting : Nat) (d : Delivery Hd) (p : Coroutine F Hd Report) : Prop :=
  (Delivers F id nesting d ∧ (Unchecked id p ∨ Handling id p ∨ Marking id p)) ∨
    (¬ Delivers F id nesting d ∧ Calm id p)

theorem processEvent_shape (nesting : Nat) {d : Delivery Hd}
    (hmem : d.subscriber.idempotency.storage = .memory) (hid : id ≠ []) :
    (Delivers F id nesting d ∧
      Unchecked (F := F) id (d.subscriber.processEvent nesting d.eventData d.subject)) ∨
    (¬ Delivers F id nesting d ∧
      Calm (F := F) id (d.subscriber.processEvent nesting d.eventData d.subject)) := by
  unfold Subscriber.processEvent
  split
  · rename_i hevent
    refine .inr ⟨?_, trivial⟩
    rintro ⟨event, hevent', -⟩
    rw [hevent] at hevent'
    cases hevent'
  · rename_i event hevent
    unfold Subscriber.processDecoded
    by_cases h : event.eventId = id
    · left
      simp only [IdempotencyChecker.isProcessed, hmem, h, if_neg hid]
      exact ⟨⟨event, hevent, h⟩, _, rfl, ⟨_, rfl⟩,
        handling_runHandler d.subscriber hmem hid h d.subject⟩
    · right
      constructor
      · rintro ⟨event', hevent', h'⟩
        rw [hevent] at hevent'
        cases hevent'
        exact h h'
      by_cases hne : event.eventId = []
      · rw [if_pos hne]
        exact calm_runHandler d.subscriber hmem h d.subject
      · simp only [if_neg hne, IdempotencyChecker.isProcessed, hmem]
        refine ⟨trivial, fun r => ?_⟩
        cases hr : r.isTrue with
        | true =>
          simp only [hr]
          trivial
        | false =>
          simp only [hr]
          exact calm_runHandler d.subscriber hmem h d.subject

end Shape

/-! ## What one command does to an id -/

section Effect
variable [PyFloat F] (handle : Hd → Event F → H → H × Outcome) {id : Str}

theorem contains_markCached {cache : Dict Str Instant} {maxCacheSize : Nat}
    (hroom : cache.size < maxCacheSize) (eventId : Str) (now : Instant) :
    markCached cache maxCacheSize eventId now = cache.set eventId now := by
  unfold markCached
  split
  · rw [if_neg (by omega)]
  · rfl

theorem successes_handle (w : World F H) (handler : Hd) (event : Event F) :
    (serve handle w (.handle handler event)).1.successes id =
      w.successes id +
        if event.eventId = id ∧ (handle handler event w.outside).2 = .success then 1 else 0 := by
  simp [World.successes, serve, List.countP_append, List.countP_singleton]

/-- A quiet command leaves the id as it is. -/
theorem serve_quiet {w : World F H} {c : Cmd F Hd} (hq : Quiet id c)
    (hroom : ∀ eventId maxCacheSize, c = .markCached eventId maxCacheSize →
      w.cache.size < maxCacheSize) :
    (serve handle w c).1.successes id = w.successes id ∧
    (serve handle w c).1.cache.contains id = w.cache.contains id := by
  cases c with
  | handle handler event =>
    rw [successes_handle, if_neg (fun h => hq h.1)]
    exact ⟨rfl, rfl⟩
  | markCached eventId maxCacheSize =>
    refine ⟨rfl, ?_⟩
    have hne : id ≠ eventId := fun h => hq h.symm
    show (markCached w.cache maxCacheSize eventId w.now).contains id = w.cache.contains id
    rw [contains_markCached (hroom eventId maxCacheSize rfl), Dict.contains, Dict.get_set_of_ne _ _ hne,
      Dict.contains]
  | moveToDlq serviceName event subject reason =>
    show (moveToDlq w serviceName event subject reason).successes id = _ ∧
      (moveToDlq w serviceName event subject reason).cache.contains id = _
    rw [moveToDlq_eq]
    exact ⟨rfl, rfl⟩
  | _ => exact ⟨rfl, rfl⟩

/-- A handler call that succeeds leads to the mark; nothing else happens to the
id between the look-up and the mark. -/
theorem handling_serve (w : World F H) {c : Cmd F Hd} {k : Reply → Coroutine F Hd Report}
    (h : Handling id (.call c k)) :
    (serve handle w c).1.cache.contains id = w.cache.contains id ∧
    ((Handling id (k (serve handle w c).2) ∧
        (serve handle w c).1.successes id = w.successes id) ∨
      (Marking id (k (serve handle w c).2) ∧
        (serve handle w c).1.successes id ≤ w.successes id + 1)) := by
  cases c with
  | handle handler event =>
    refine ⟨rfl, ?_⟩
    rw [successes_handle]
    show (Handling id (k (.outcome (handle handler event w.outside).2)) ∧ _) ∨ _
    by_cases ho : (handle handler event w.outside).2 = .success
    · right
      constructor
      · show Marking id (k (.outcome (handle handler event w.outside).2))
        rw [ho]
        exact h.1
      · split <;> omega
    · left
      refine ⟨h.2 _ ho, ?_⟩
      rw [if_neg (fun hs => ho hs.2)]
      rfl
  | sleep seconds => exact ⟨rfl, .inl ⟨h _, rfl⟩⟩
  | moveToDlq serviceName event subject reason =>
    have hw : (serve handle w (.moveToDlq serviceName event subject reason)).1 = w :=
      moveToDlq_eq w serviceName event subject reason
    rw [hw]
    exact ⟨rfl, .inl ⟨h _, rfl⟩⟩
  | _ => exact absurd h (fun h => h)

end Effect

/-! ## Interleavings -/

section Runs
variable [PyFloat F] [EventModels F] (handle : Hd → Event F → H → H × Outcome) (nesting : Nat)

/-- Any number of deliveries on subscribers that share one world. -/
def deliveries : System (World F H) (Surroundings H) (Delivery Hd) (Cmd F Hd) Reply Report :=
  ⟨serve handle, Surroundings.act,
    fun _ d => d.subscriber.processEvent nesting d.eventData d.subject⟩

/-- The size limit the next command marks an id under. -/
def marksUnder : Coroutine F Hd Report → Option Nat
  | .call (.markCached _ maxCacheSize) _ => some maxCacheSize
  | _ => none

/-- Every subscriber uses the shared in-memory store, which has room for the id
that is marked. -/
def Shared (p : Deliveries F H Hd) : PoolAction (Surroundings H) (Delivery Hd) → Prop
  | .env _ => True
  | .invoke d => d.subscriber.idempotency.storage = .memory
  | .step i => ∀ c maxCacheSize, p.calls i = some c → marksUnder c.proc = some maxCacheSize →
    p.server.cache.size < maxCacheSize

variable (F) in
/-- A delivery of the id that has looked it up and has not returned. -/
def InFlight (id : Str) (c : Call (Delivery Hd) (Cmd F Hd) Reply Report) : Prop :=
  Delivers F id nesting c.op ∧ c.proc.output = none ∧ ¬ Looks id c.proc

/-- The id is not looked up while another delivery of it is in flight. -/
def Apart (id : Str) (p : Deliveries F H Hd) : PoolAction (Surroundings H) (Delivery Hd) → Prop
  | .step i => ∀ c, p.calls i = some c → Looks id c.proc →
    ∀ j d, p.calls j = some d → ¬ InFlight F nesting id d
  | _ => True

variable {handle nesting} {id : Str}

theorem inFlight_of_marking {c : Call (Delivery Hd) (Cmd F Hd) Reply Report}
    (hshape : InShape F id nesting c.op c.proc) (h : Marking id c.proc) :
    InFlight F nesting id c := by
  obtain ⟨maxCacheSize, k, hproc, -⟩ := h
  rcases hshape with ⟨hd, -⟩ | ⟨-, hcalm⟩
  · refine ⟨hd, by rw [hproc]; rfl, ?_⟩
    rintro ⟨k', hk'⟩
    rw [hproc] at hk'
    cases hk'
  · rw [hproc] at hcalm
    exact absurd rfl hcalm.1

variable (nesting id) in
/-- At most one delivery of the id is between its look-up and its return, and the
id was handled successfully only if it is marked or about to be. -/
structure Exclusive (p : Deliveries F H Hd) : Prop where
  invoked : ∀ i c, p.calls i = some c → i < p.next
  shape : ∀ i c, p.calls i = some c → InShape F id nesting c.op c.proc
  alone : ∀ i j c d, p.calls i = some c → p.calls j = some d → InFlight F nesting id c →
    InFlight F nesting id d → i = j
  unmarked : ∀ i c, p.calls i = some c → InFlight F nesting id c →
    p.server.cache.contains id = false
  atMostOne : p.server.successes id ≤ 1
  settled : p.server.successes id = 1 → p.server.cache.contains id = true ∨
    ∃ i c, p.calls i = some c ∧ Marking id c.proc

section Step
variable {p : Deliveries F H Hd} {i : Nat} {c : Call (Delivery Hd) (Cmd F Hd) Reply Report}
  {w : World F H} {q : Coroutine F Hd Report}

/-- Call `i` goes on with `q` in the world `w`. -/
theorem Exclusive.resume (h : Exclusive nesting id p) (hi : p.calls i = some c)
    (hshape : InShape F id nesting c.op q)
    (halone : InFlight F nesting id { c with proc := q } →
      ∀ j d, j ≠ i → p.calls j = some d → ¬ InFlight F nesting id d)
    (hself : InFlight F nesting id { c with proc := q } → w.cache.contains id = false)
    (hothers : ∀ j d, j ≠ i → p.calls j = some d → InFlight F nesting id d →
      w.cache.contains id = false)
    (hone : w.successes id ≤ 1)
    (hsettled : w.successes id = 1 → w.cache.contains id = true ∨ Marking id q ∨
      ∃ j d, j ≠ i ∧ p.calls j = some d ∧ Marking id d.proc) :
    Exclusive nesting id (p.resume w i c q) where
  invoked := by
    intro j d hj
    rcases Pool.calls_resume_cases hj with ⟨rfl, _⟩ | ⟨_, hj⟩
    · exact h.invoked _ c hi
    · exact h.invoked j d hj
  shape := by
    intro j d hj
    rcases Pool.calls_resume_cases hj with ⟨rfl, rfl⟩ | ⟨_, hj⟩
    · exact hshape
    · exact h.shape j d hj
  alone := by
    intro j k d e hj hk hd he
    rcases Pool.calls_resume_cases hj with ⟨rfl, rfl⟩ | ⟨hji, hjold⟩
    · rcases Pool.calls_resume_cases hk with ⟨rfl, _⟩ | ⟨hki, hkold⟩
      · rfl
      · exact absurd he (halone hd k e hki hkold)
    · rcases Pool.calls_resume_cases hk with ⟨rfl, rfl⟩ | ⟨_, hkold⟩
      · exact absurd hd (halone he j d hji hjold)
      · exact h.alone j k d e hjold hkold hd he
  unmarked := by
    intro j d hj hd
    rcases Pool.calls_resume_cases hj with ⟨rfl, rfl⟩ | ⟨hji, hj⟩
    · exact hself hd
    · exact hothers j d hji hj hd
  atMostOne := hone
  settled := by
    intro hs
    rcases hsettled hs with hc | hm | ⟨j, d, hji, hj, hm⟩
    · exact .inl hc
    · exact .inr ⟨i, { c with proc := q }, Pool.calls_resume_self, hm⟩
    · exact .inr ⟨j, d, (Pool.calls_resume_of_ne hji).trans hj, hm⟩

/-- The success count is settled by the other calls, or already by the mark. -/
theorem Exclusive.settled_elsewhere (h : Exclusive nesting id p) (hi : p.calls i = some c)
    (hnot : ¬ Marking id c.proc) (hs : p.server.successes id = 1) :
    p.server.cache.contains id = true ∨
      ∃ j d, j ≠ i ∧ p.calls j = some d ∧ Marking id d.proc := by
  rcases h.settled hs with hc | ⟨j, d, hj, hm⟩
  · exact .inl hc
  · refine .inr ⟨j, d, ?_, hj, hm⟩
    rintro rfl
    rw [hi] at hj
    cases hj
    exact hnot hm

variable (handle) in
/-- A command of a delivery of something else. -/
theorem Exclusive.calmStep (h : Exclusive nesting id p) (hi : p.calls i = some c)
    (hd : ¬ Delivers F id nesting c.op) {cmd : Cmd F Hd} {k : Reply → Coroutine F Hd Report}
    (hproc : c.proc = .call cmd k) (hcalm : Calm id c.proc)
    (hroom : ∀ eventId maxCacheSize, cmd = .markCached eventId maxCacheSize →
      p.server.cache.size < maxCacheSize) :
    Exclusive nesting id
      (p.resume (serve handle p.server cmd).1 i c (k (serve handle p.server cmd).2)) := by
  rw [hproc] at hcalm
  obtain ⟨hs, hc⟩ := serve_quiet handle hcalm.1 hroom
  have hidle : ∀ q, ¬ InFlight F nesting id { c with proc := q } := fun _ hf => hd hf.1
  apply h.resume hi
  · exact .inr ⟨hd, hcalm.2 _⟩
  · exact fun hf => absurd hf (hidle _)
  · exact fun hf => absurd hf (hidle _)
  · intro j d hji hj hf
    rw [hc]
    exact h.unmarked j d hj hf
  · rw [hs]
    exact h.atMostOne
  · intro hone
    rw [hs] at hone
    rw [hc]
    have hnot : ¬ Marking id c.proc := by
      rintro ⟨maxCacheSize, k', hk', -⟩
      rw [hproc] at hk'
      cases hk'
      exact hcalm.1 rfl
    rcases h.settled_elsewhere hi hnot hone with hm | hm
    · exact .inl hm
    · exact .inr (.inr hm)

variable (handle) in
/-- The look-up, when no delivery of the id is in flight. -/
theorem Exclusive.lookStep (h : Exclusive nesting id p) (hi : p.calls i = some c)
    (hd : Delivers F id nesting c.op) {k : Reply → Coroutine F Hd Report}
    (hproc : c.proc = .call (.isCached id) k) (htrue : ∃ report, k (.bool true) = .ret report)
    (hfalse : Handling id (k (.bool false)))
    (hapart : ∀ j d, p.calls j = some d → ¬ InFlight F nesting id d) :
    Exclusive nesting id
      (p.resume (serve handle p.server (.isCached id)).1 i c
        (k (serve handle p.server (.isCached id)).2)) := by
  show Exclusive nesting id (p.resume p.server i c (k (.bool (p.server.cache.contains id))))
  have hnot : ¬ Marking id c.proc := by
    rintro ⟨maxCacheSize, k', hk', -⟩
    rw [hproc] at hk'
    cases hk'
  cases hc : p.server.cache.contains id with
  | true =>
    obtain ⟨report, hreport⟩ := htrue
    rw [hreport]
    have hidle : ¬ InFlight F nesting id { c with proc := .ret report } := by
      intro hf
      cases hf.2.1
    apply h.resume hi
    · exact .inl ⟨hd, .inr (.inl trivial)⟩
    · exact fun hf => absurd hf hidle
    · exact fun hf => absurd hf hidle
    · exact fun j d _ hj hf => absurd hf (hapart j d hj)
    · exact h.atMostOne
    · exact fun _ => .inl hc
  | false =>
    apply h.resume hi
    · exact .inl ⟨hd, .inr (.inl hfalse)⟩
    · exact fun _ j d _ hj => hapart j d hj
    · exact fun _ => hc
    · exact fun j d _ hj hf => absurd hf (hapart j d hj)
    · exact h.atMostOne
    · intro hone
      rcases h.settled_elsewhere hi hnot hone with hm | ⟨j, d, -, hj, hm⟩
      · exact .inl hm
      · exact absurd (inFlight_of_marking (h.shape j d hj) hm) (hapart j d hj)

/-- A command of the one delivery in flight that leaves the mark alone; a success
of its handler is the first one. -/
theorem Exclusive.handlingStep (h : Exclusive nesting id p) (hi : p.calls i = some c)
    (hfly : InFlight F nesting id c) (hnot : ¬ Marking id c.proc)
    (hc : w.cache.contains id = p.server.cache.contains id)
    (hnext : (Handling id q ∧ w.successes id = p.server.successes id) ∨
      (Marking id q ∧ w.successes id ≤ p.server.successes id + 1)) :
    Exclusive nesting id (p.resume w i c q) := by
  have hunmarked := h.unmarked i c hi hfly
  have hothers : ∀ j d, j ≠ i → p.calls j = some d → ¬ InFlight F nesting id d :=
    fun j d hji hj hf => hji (h.alone j i d c hj hi hf hfly)
  -- nothing was handled successfully so far: the id is not marked and nobody is about to mark it
  have hzero : p.server.successes id = 0 := by
    have hle := h.atMostOne
    by_cases hone : p.server.successes id = 1
    · rcases h.settled_elsewhere hi hnot hone with hm | ⟨j, d, hji, hj, hm⟩
      · rw [hunmarked] at hm
        cases hm
      · exact absurd (inFlight_of_marking (h.shape j d hj) hm) (hothers j d hji hj)
    · omega
  apply h.resume hi
  · rcases hnext with ⟨hq, -⟩ | ⟨hq, -⟩
    · exact .inl ⟨hfly.1, .inr (.inl hq)⟩
    · exact .inl ⟨hfly.1, .inr (.inr hq)⟩
  · exact fun _ => hothers
  · exact fun _ => hc.trans hunmarked
  · exact fun _ _ _ _ _ => hc.trans hunmarked
  · rcases hnext with ⟨-, hs⟩ | ⟨-, hs⟩ <;> omega
  · intro hone
    rcases hnext with ⟨-, hs⟩ | ⟨hq, -⟩
    · omega
    · exact .inr (.inl hq)

variable (handle) in
/-- The mark. -/
theorem Exclusive.markStep (h : Exclusive nesting id p) (hi : p.calls i = some c)
    (hfly : InFlight F nesting id c) {maxCacheSize : Nat}
    (hroom : p.server.cache.size < maxCacheSize) {report : Report} :
    Exclusive nesting id
      (p.resume (serve handle p.server (.markCached id maxCacheSize)).1 i c (.ret report)) := by
  have hc : (serve handle p.server (.markCached id maxCacheSize)).1.cache.contains id = true := by
    show (markCached p.server.cache maxCacheSize id p.server.now).contains id = true
    rw [contains_markCached hroom, Dict.contains, Dict.get_set_self]
    rfl
  have hidle : ¬ InFlight F nesting id { c with proc := .ret report } := by
    intro hf
    cases hf.2.1
  apply h.resume hi
  · exact .inl ⟨hfly.1, .inr (.inl trivial)⟩
  · exact fun hf => absurd hf hidle
  · exact fun hf => absurd hf hidle
  · intro j d hji hj hf
    exact absurd (h.alone j i d c hj hi hf hfly) hji
  · exact h.atMostOne
  · exact fun _ => .inl hc

theorem Exclusive.env (h : Exclusive nesting id p) (e : Surroundings H) :
    Exclusive nesting id { p with server := e.act p.server } := by
  have hsame : (e.act p.server).cache = p.server.cache ∧
      (e.act p.server).successes id = p.server.successes id := by
    cases e <;> exact ⟨rfl, rfl⟩
  refine ⟨h.invoked, h.shape, h.alone, ?_, ?_, ?_⟩
  · intro j d hj hf
    show (e.act p.server).cache.contains id = false
    rw [hsame.1]
    exact h.unmarked j d hj hf
  · exact hsame.2 ▸ h.atMostOne
  · intro hone
    show (e.act p.server).cache.contains id = true ∨ _
    rw [hsame.1]
    exact h.settled (hsame.2 ▸ hone)

/-- A new delivery starts before its look-up, if it is one of this id. -/
theorem Exclusive.invoke (h : Exclusive nesting id p) (hid : id ≠ []) {d : Delivery Hd}
    (hmem : d.subscriber.idempotency.storage = .memory) :
    Exclusive nesting id ((deliveries handle nesting).step p (.invoke d)) := by
  have hshape := processEvent_shape (F := F) nesting hmem hid
  have hcases : ∀ j c, ((deliveries handle nesting).step p (.invoke d)).calls j = some c →
      (j = p.next ∧ InShape F id nesting c.op c.proc ∧ ¬ InFlight F nesting id c) ∨
        p.calls j = some c := by
    intro j c hj
    rcases (deliveries handle nesting).calls_invoke_cases hj with ⟨hjn, rfl⟩ | ⟨_, hj⟩
    · left
      rcases hshape with ⟨hd, hun⟩ | ⟨hd, hcalm⟩
      · refine ⟨hjn, .inl ⟨hd, .inl hun⟩, fun hf => hf.2.2 ?_⟩
        obtain ⟨k, hk, -⟩ := hun
        exact ⟨k, hk⟩
      · exact ⟨hjn, .inr ⟨hd, hcalm⟩, fun hf => hd hf.1⟩
    · exact .inr hj
  constructor
  · intro j c hj
    rcases hcases j c hj with ⟨rfl, _⟩ | hj
    · exact Nat.lt_succ_self p.next
    · exact Nat.lt_succ_of_lt (h.invoked j c hj)
  · intro j c hj
    rcases hcases j c hj with ⟨_, hc, _⟩ | hj
    · exact hc
    · exact h.shape j c hj
  · intro j k c e hj hk hc he
    rcases hcases j c hj with ⟨_, _, hn⟩ | hj
    · exact absurd hc hn
    · rcases hcases k e hk with ⟨_, _, hn⟩ | hk
      · exact absurd he hn
      · exact h.alone j k c e hj hk hc he
  · intro j c hj hc
    rcases hcases j c hj with ⟨_, _, hn⟩ | hj
    · exact absurd hc hn
    · exact h.unmarked j c hj hc
  · exact h.atMostOne
  · intro hone
    rcases h.settled hone with hm | ⟨j, c, hj, hm⟩
    · exact .inl hm
    · have hjn : j ≠ p.next := Nat.ne_of_lt (h.invoked j c hj)
      exact .inr ⟨j, c, (System.calls_invoke_of_ne _ hjn).trans hj, hm⟩

theorem Exclusive.step (h : Exclusive nesting id p) (hid : id ≠ [])
    {a : PoolAction (Surroundings H) (Delivery Hd)} (hshared : Shared p a)
    (hapart : Apart nesting id p a) :
    Exclusive nesting id ((deliveries handle nesting).step p a) := by
  cases a with
  | env e => exact h.env e
  | invoke d => exact h.invoke hid hshared
  | step i =>
    rcases (deliveries handle nesting).step_cases p i with ⟨hidle, _⟩ | ⟨c, cmd, k, hi, hproc, hstep⟩
    · rw [hidle]
      exact h
    rw [hstep]
    rcases h.shape i c hi with ⟨hd, hun | hh | hm⟩ | ⟨hd, hcalm⟩
    · obtain ⟨k', hk', htrue, hfalse⟩ := hun
      rw [hproc] at hk'
      cases hk'
      exact h.lookStep handle hi hd hproc htrue hfalse (hapart c hi ⟨k, hproc⟩)
    · rw [hproc] at hh
      obtain ⟨hc, hnext⟩ := handling_serve handle p.server hh
      have hnot : ¬ Looks id c.proc ∧ ¬ Marking id c.proc := hproc ▸ handling_head hh
      exact h.handlingStep hi ⟨hd, by rw [hproc]; rfl, hnot.1⟩ hnot.2 hc hnext
    · obtain ⟨maxCacheSize, k', hk', hret⟩ := hm
      rw [hproc] at hk'
      cases hk'
      obtain ⟨report, hreport⟩ := hret (serve handle p.server (.markCached id maxCacheSize)).2
      have hfly := inFlight_of_marking (h.shape i c hi) ⟨maxCacheSize, k, hproc, hret⟩
      show Exclusive nesting id (p.resume _ i c (k _))
      rw [show (deliveries handle nesting).serve = serve handle from rfl, hreport]
      exact h.markStep handle hi hfly (hshared c maxCacheSize hi (by rw [hproc]; rfl))
    · apply h.calmStep handle hi hd hproc hcalm
      intro eventId maxCacheSize hcmd
      subst hcmd
      exact hshared c maxCacheSize hi (by rw [hproc]; rfl)

end Step

theorem exclusive_init (now : Instant) (outside : H) :
    Exclusive nesting id (Pool.init (World.start now outside) : Deliveries F H Hd) where
  invoked := by simp [Pool.init]
  shape := by simp [Pool.init]
  alone := by simp [Pool.init]
  unmarked := by simp [Pool.init]
  atMostOne := Nat.zero_le 1
  settled := by
    intro hone
    cases hone

omit [PyFloat F] [EventModels F] in
theorem shared_step {p : Deliveries F H Hd} {i : Nat} {m : Option Nat}
    (h : ((p.calls i).bind fun c => marksUnder c.proc) = m)
    (hm : ∀ n, m = some n → p.server.cache.size < n) : Shared p (.step i) := by
  intro c n hi hn
  exact hm n (by rw [← h, hi]; exact hn)

variable (handle nesting) in
/-- While call `i` is the only one, none of its steps overlaps with another. -/
theorem guarded_alone {p : Deliveries F H Hd} {i : Nat} (h : ∀ j d, p.calls j = some d → j = i)
    (n : Nat)
    (hshared : Guarded (deliveries handle nesting).step Shared p (List.replicate n (.step i))) :
    Guarded (deliveries handle nesting).step (fun p a => Shared p a ∧ Apart nesting id p a) p
      (List.replicate n (.step i)) := by
  induction n generalizing p with
  | zero => trivial
  | succ n ih =>
    refine ⟨⟨hshared.1, ?_⟩, ih ?_ hshared.2⟩
    · intro c hi hlooks j d hj hf
      rw [h j d hj, hi] at hj
      cases hj
      exact hf.2.2 hlooks
    · intro j d hj
      rcases (deliveries handle nesting).step_cases p i with ⟨hidle, _⟩ | ⟨c, cmd, k, _, _, hstep⟩
      · rw [hidle] at hj
        exact h j d hj
      · rw [hstep] at hj
        rcases Pool.calls_resume_cases hj with ⟨hji, _⟩ | ⟨_, hj⟩
        · exact hji
        · exact h j d hj

end Runs

/-! ## Two deliveries of one message -/

section
attribute [local instance] errorEventModels

def alwaysSucceeds (_ : Unit) (_ : Event Unit) (_ : Unit) : Unit × Outcome := ((), .success)

def redelivery : Delivery Unit := ⟨billingService, failedMessage, lit "billing.failed"⟩

end

end IsaCloud.Events
