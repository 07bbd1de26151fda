import IsaCloud.Events.Backends
import IsaCloud.Support.JsonDigits

/-!
# Default event ids

An event that is created without an id is named after the instant of its creation.
Events with different ids are never taken for duplicates of each other, in any
interleaving of their deliveries; two events of one instant have one id.
-/

namespace IsaCloud.Events

set_option autoImplicit false

open Support Support.Text Support.Python Support.Encoding Support.DateTime Support.IsoTime

variable {F H Hd : Type} [PyFloat F]

/-- `f"evt_{datetime.now(timezone.utc).timestamp()}"`. -/
def defaultEventId (timestamp : Instant → F) (now : Instant) : Str := lit "evt_" ++ PyFloat.repr (timestamp now)

theorem defaultEventId_ne_nil (timestamp : Instant → F) (now : Instant) : defaultEventId timestamp now ≠ [] := by
  intro h
  exact absurd (List.append_eq_nil_iff.mp h).1 (by decide)

/-- A message about an event with a default id, for which a handler is registered and tried. -/
structure Charge (F : Type) {Hd : Type} [PyFloat F] [EventModels F] (nesting : Nat) (sub : Subscriber Hd)
    (timestamp : Instant → F) where
  eventData : Bytes
  subject : Str
  event : Event F
  createdAt : Instant
  decoded : deserializeEvent nesting eventData = some event
  defaultId : event.eventId = defaultEventId timestamp createdAt
  handled : (sub.handlers.get event.eventType).isSome
  tried : 0 ≤ sub.retryPolicy.maxRetries

section Runs
variable [EventModels F] (handle : Hd → Event F → H → H × Outcome) (nesting : Nat) (sub : Subscriber Hd)
  (timestamp : Instant → F)

abbrev Charges : Type := Pool (World F H) (Charge F nesting sub timestamp) (Cmd F Hd) Reply Report

/-- Each charge is delivered once; the calls of `process_event` may overlap. -/
def charges : System (World F H) (Surroundings H) (Charge F nesting sub timestamp) (Cmd F Hd) Reply Report :=
  ⟨serve handle, Surroundings.act, fun _ charge => sub.processEvent nesting charge.eventData charge.subject⟩

/-- The next command calls the handler. -/
def Handles : Coroutine F Hd Report → Bool
  | .call (.handle _ _) _ => true
  | _ => false

/-- The pool, and the calls that have run their handler. -/
structure Watched (H : Type) where
  pool : Charges (H := H) nesting sub timestamp
  ran : List Nat

variable {nesting sub timestamp}

def Watched.step (s : Watched nesting sub timestamp H)
    (a : PoolAction (Surroundings H) (Charge F nesting sub timestamp)) : Watched nesting sub timestamp H where
  pool := (charges handle nesting sub timestamp).step s.pool a
  ran :=
    match a with
    | .step i => if ((s.pool.calls i).map fun c => Handles c.proc) = some true then i :: s.ran else s.ran
    | _ => s.ran

def Watched.start (now : Instant) (outside : H) : Watched nesting sub timestamp H :=
  ⟨Pool.init (World.start now outside), []⟩

/-- Every delivery that has returned has run the handler. -/
def AllHandled (s : Watched nesting sub timestamp H) : Prop :=
  ∀ i, (s.pool.outOf i).isSome → i ∈ s.ran

/-- No event is delivered that was created with the id of one delivered before. -/
def FreshIds (s : Watched nesting sub timestamp H) :
    PoolAction (Surroundings H) (Charge F nesting sub timestamp) → Prop
  | .invoke charge => ∀ i c, s.pool.calls i = some c →
    defaultEventId timestamp c.op.createdAt ≠ defaultEventId timestamp charge.createdAt
  | _ => True

end Runs

/-! ## The code of a delivery -/

section Code
variable (id : Str)

/-- Only this id is marked, and only in memory. -/
def Own : Cmd F Hd → Prop
  | .markCached eventId _ => eventId = id
  | .redisSet _ _ _ => False
  | _ => True

def MarksOwn : Coroutine F Hd Report → Prop
  | .ret _ => True
  | .call c k => Own id c ∧ ∀ r, MarksOwn (k r)

/-- The next command looks the id up; when it is not found, the handler is next. -/
inductive LooksFirst : Coroutine F Hd Report → Prop where
  | memory (k : Reply → Coroutine F Hd Report) : Handles (k (.bool false)) = true →
      LooksFirst (.call (.isCached id) k)
  | redis (key : Str) (k : Reply → Coroutine F Hd Report) : Handles (k (.bool false)) = true →
      LooksFirst (.call (.redisExists key) k)

variable {id} (sub : Subscriber Hd)

theorem marksOwn_finish (hstore : sub.idempotency.storage ≠ .postgres) {event : Event F} (hid : event.eventId = id) :
    MarksOwn id (sub.finish event) := by
  unfold Subscriber.finish
  split
  · trivial
  · unfold IdempotencyChecker.markProcessed
    cases hs : sub.idempotency.storage with
    | memory => exact ⟨hid, fun _ => trivial⟩
    | postgres => exact absurd hs hstore
    | unknown => trivial
    | redis =>
      refine ⟨trivial, ?_⟩
      intro r
      dsimp only
      split
      · trivial
      · obtain ⟨e, he⟩ := call_set_ex (F := F) (.str (redisKeyPrefix ++ event.eventId)) (.str _)
          (.int sub.idempotency.ttlSeconds)
        rw [he]
        trivial

omit [PyFloat F] in
theorem marksOwn_executeFrom (handler : Hd) (event : Event F) {k : Bool → Coroutine F Hd Report}
    (hk : ∀ b, MarksOwn id (k b)) (left attempt : Nat) :
    MarksOwn id (sub.executeFrom handler event k left attempt) := by
  induction left generalizing attempt with
  | zero => exact hk false
  | succ left ih =>
    refine ⟨trivial, ?_⟩
    intro r
    dsimp only
    split
    · exact hk true
    · split
      · exact ⟨trivial, fun _ => ih (attempt + 1)⟩
      · exact ih (attempt + 1)

theorem marksOwn_runHandler (hstore : sub.idempotency.storage ≠ .postgres) {event : Event F}
    (hid : event.eventId = id) (subject : Str) : MarksOwn id (sub.runHandler event subject) := by
  unfold Subscriber.runHandler
  split
  · trivial
  · refine marksOwn_executeFrom sub _ event ?_ _ _
    intro b
    cases b with
    | true => exact marksOwn_finish sub hstore hid
    | false => exact ⟨trivial, fun _ => trivial⟩

/-- With a handler and an attempt, the handler is called at once. -/
theorem handles_runHandler {event : Event F} (hhandled : (sub.handlers.get event.eventType).isSome)
    (htried : 0 ≤ sub.retryPolicy.maxRetries) (subject : Str) :
    Handles (sub.runHandler (F := F) event subject) = true := by
  obtain ⟨handler, hhandler⟩ := Option.isSome_iff_exists.mp hhandled
  rw [Subscriber.runHandler, hhandler]
  dsimp only
  obtain ⟨n, hn⟩ : ∃ n, sub.attempts = n + 1 := ⟨sub.retryPolicy.maxRetries.toNat, by
    rw [Subscriber.attempts]
    omega⟩
  rw [Subscriber.executeWithRetry, hn]
  rfl

/-- A delivery looks its id up, or calls the handler at once. -/
theorem processDecoded_first (hstore : sub.idempotency.storage ≠ .postgres) {event : Event F}
    (hid : event.eventId = id) (hne : id ≠ []) (hhandled : (sub.handlers.get event.eventType).isSome)
    (htried : 0 ≤ sub.retryPolicy.maxRetries) (subject : Str) :
    MarksOwn id (sub.processDecoded event subject) ∧
      (Handles (sub.processDecoded event subject) = true ∨ LooksFirst id (sub.processDecoded event subject)) := by
  have hmarks := marksOwn_runHandler sub hstore hid subject
  have hhandles := handles_runHandler sub hhandled htried subject
  have hnamed : event.eventId ≠ [] := by
    rw [hid]
    exact hne
  rw [Subscriber.processDecoded, if_neg hnamed]
  unfold IdempotencyChecker.isProcessed
  cases hs : sub.idempotency.storage with
  | postgres => exact absurd hs hstore
  | unknown => exact ⟨hmarks, Or.inl hhandles⟩
  | memory =>
    dsimp only
    rw [hid]
    refine ⟨⟨trivial, ?_⟩, Or.inr (.memory _ hhandles)⟩
    intro r
    dsimp only
    cases r.isTrue with
    | true => trivial
    | false => exact hmarks
  | redis =>
    dsimp only
    rw [call_exists]
    dsimp only
    unfold IdempotencyChecker.redisExists
    split
    · exact ⟨hmarks, Or.inl hhandles⟩
    · refine ⟨⟨trivial, ?_⟩, Or.inr (.redis _ _ hhandles)⟩
      intro r
      dsimp only
      cases r.isTrue with
      | true => trivial
      | false => exact hmarks

end Code

/-! ## The invariant -/

section Invariant
variable [EventModels F] {handle : Hd → Event F → H → H × Outcome} {nesting : Nat} {sub : Subscriber Hd}
  {timestamp : Instant → F} {s : Watched nesting sub timestamp H}

/-- An id is marked when the delivery of its event has run the handler, and no two deliveries
have one id. -/
structure Unmerged (s : Watched nesting sub timestamp H) : Prop where
  invoked : ∀ i c, s.pool.calls i = some c → i < s.pool.next
  distinct : ∀ i j c d, s.pool.calls i = some c → s.pool.calls j = some d →
    c.op.event.eventId = d.op.event.eventId → i = j
  code : ∀ i c, s.pool.calls i = some c → MarksOwn c.op.event.eventId c.proc
  stage : ∀ i c, s.pool.calls i = some c →
    i ∈ s.ran ∨ Handles c.proc = true ∨ LooksFirst c.op.event.eventId c.proc
  marked : ∀ id, s.pool.server.cache.contains id = true →
    ∃ i c, s.pool.calls i = some c ∧ c.op.event.eventId = id ∧ i ∈ s.ran
  redis : ∀ key, s.pool.server.redis.store key = none

theorem unmerged_start (now : Instant) (outside : H) : Unmerged (Watched.start now outside : Watched nesting sub timestamp H) where
  invoked := by
    intro i c hi
    cases hi
  distinct := by
    intro i j c d hi
    cases hi
  code := by
    intro i c hi
    cases hi
  stage := by
    intro i c hi
    cases hi
  marked := by
    intro id hid
    cases hid
  redis := fun _ => rfl

omit [PyFloat F] [EventModels F] in
theorem output_of_handles {p : Coroutine F Hd Report} (h : Handles p = true) : p.output = none := by
  cases p with
  | ret o => cases h
  | call c k => rfl

omit [PyFloat F] [EventModels F] in
theorem output_of_looks {id : Str} {p : Coroutine F Hd Report} (h : LooksFirst id p) : p.output = none := by
  cases h with
  | memory k _ => rfl
  | redis key k _ => rfl

theorem allHandled_of_unmerged (h : Unmerged s) : AllHandled s := by
  intro i hi
  unfold Pool.outOf at hi
  cases hc : s.pool.calls i with
  | none =>
    rw [hc] at hi
    cases hi
  | some c =>
    rw [hc] at hi
    rcases h.stage i c hc with hran | hhandles | hlooks
    · exact hran
    · rw [Option.bind_some, output_of_handles hhandles] at hi
      cases hi
    · rw [Option.bind_some, output_of_looks hlooks] at hi
      cases hi

omit [PyFloat F] [EventModels F] in
theorem contains_markCached_cases {cache : Dict Str Instant} {maxCacheSize : Nat} {eventId id : Str} {now : Instant}
    (h : (markCached cache maxCacheSize eventId now).contains id = true) : id = eventId ∨ cache.contains id = true := by
  by_cases hid : id = eventId
  · exact Or.inl hid
  · right
    unfold markCached at h
    dsimp only at h
    rw [Dict.contains, Dict.get_set_of_ne _ _ hid] at h
    split at h
    · split at h
      · rename_i oldest rest hkeys hfull
        by_cases hold : id = oldest
        · subst hold
          rw [Dict.get_pop_self] at h
          cases h
        · rw [Dict.get_pop_of_ne _ hold] at h
          exact h
      · exact h
    · exact h

omit [EventModels F] in
theorem serve_cache (w : World F H) (c : Cmd F Hd) {id : Str} (hc : ∀ maxCacheSize, c ≠ .markCached id maxCacheSize)
    {own : Str} (hown : Own own c) (h : (serve handle w c).1.cache.contains id = true) : w.cache.contains id = true := by
  cases c with
  | markCached eventId maxCacheSize =>
    rcases contains_markCached_cases h with hid | hold
    · exact absurd (by rw [hid]) (hc maxCacheSize)
    · exact hold
  | redisSet key value ttl => exact hown.elim
  | moveToDlq serviceName event subject reason =>
    have hsame : (moveToDlq w serviceName event subject reason).cache = w.cache := by
      unfold moveToDlq
      split
      · rfl
      · rfl
    have hdlq : (moveToDlq w serviceName event subject reason).cache.contains id = true := h
    rw [hsame] at hdlq
    exact hdlq
  | isCached eventId => exact h
  | redisExists key => exact h
  | isTableEnsured => exact h
  | markTableEnsured => exact h
  | pgExecute sql => exact h
  | clock => exact h
  | handle handler event => exact h
  | sleep seconds => exact h

omit [EventModels F] in
theorem serve_store (w : World F H) (c : Cmd F Hd) {own : Str} (hown : Own own c) :
    (serve handle w c).1.redis.store = w.redis.store := by
  cases c with
  | redisSet key value ttl => exact hown.elim
  | moveToDlq serviceName event subject reason =>
    have hsame : (moveToDlq w serviceName event subject reason).redis = w.redis := by
      unfold moveToDlq
      split
      · rfl
      · rfl
    exact congrArg Redis.Server.store hsame
  | markCached eventId maxCacheSize => rfl
  | isCached eventId => rfl
  | redisExists key => rfl
  | isTableEnsured => rfl
  | markTableEnsured => rfl
  | pgExecute sql => rfl
  | clock => rfl
  | handle handler event => rfl
  | sleep seconds => rfl

/-! ## Steps -/

theorem unmerged_env (h : Unmerged s) (e : Surroundings H) : Unmerged (s.step handle (.env e)) := by
  cases e with
  | tick d => exact ⟨h.invoked, h.distinct, h.code, h.stage, h.marked, h.redis⟩
  | outside x => exact ⟨h.invoked, h.distinct, h.code, h.stage, h.marked, h.redis⟩

theorem unmerged_invoke (h : Unmerged s) (hstore : sub.idempotency.storage ≠ .postgres)
    {charge : Charge F nesting sub timestamp} (hfresh : FreshIds s (.invoke charge)) :
    Unmerged (s.step handle (.invoke charge)) := by
  have hcode : sub.processEvent nesting charge.eventData charge.subject =
      sub.processDecoded charge.event charge.subject := by
    rw [Subscriber.processEvent, charge.decoded]
  have hnamed : charge.event.eventId ≠ [] := by
    rw [charge.defaultId]
    exact defaultEventId_ne_nil timestamp charge.createdAt
  obtain ⟨hmarks, hfirst⟩ :=
    processDecoded_first sub hstore (rfl : charge.event.eventId = charge.event.eventId) hnamed charge.handled
      charge.tried charge.subject
  -- the new call, and the calls that were there
  have hcases : ∀ i c, (s.step handle (.invoke charge)).pool.calls i = some c →
      (i = s.pool.next ∧ c.op = charge ∧ c.proc = sub.processDecoded charge.event charge.subject) ∨
        (i ≠ s.pool.next ∧ s.pool.calls i = some c) := by
    intro i c hi
    rcases System.calls_invoke_cases _ hi with ⟨hnew, rfl⟩ | hold
    · exact Or.inl ⟨hnew, rfl, hcode⟩
    · exact Or.inr hold
  have hother : ∀ i c, s.pool.calls i = some c → c.op.event.eventId ≠ charge.event.eventId := by
    intro i c hi
    rw [c.op.defaultId, charge.defaultId]
    exact hfresh i c hi
  constructor
  · intro i c hi
    rcases hcases i c hi with ⟨rfl, _, _⟩ | ⟨_, hi⟩
    · exact Nat.lt_succ_self _
    · exact Nat.lt_succ_of_lt (h.invoked i c hi)
  · intro i j c d hi hj hsame
    rcases hcases i c hi with ⟨hin, hop, _⟩ | ⟨_, hi⟩
    · rcases hcases j d hj with ⟨hjn, _, _⟩ | ⟨_, hj⟩
      · rw [hin, hjn]
      · rw [hop] at hsame
        exact absurd hsame.symm (hother j d hj)
    · rcases hcases j d hj with ⟨_, hop, _⟩ | ⟨_, hj⟩
      · rw [hop] at hsame
        exact absurd hsame (hother i c hi)
      · exact h.distinct i j c d hi hj hsame
  · intro i c hi
    rcases hcases i c hi with ⟨_, hop, hproc⟩ | ⟨_, hi⟩
    · rw [hop, hproc]
      exact hmarks
    · exact h.code i c hi
  · intro i c hi
    rcases hcases i c hi with ⟨_, hop, hproc⟩ | ⟨_, hi⟩
    · rw [hop, hproc]
      exact Or.inr hfirst
    · exact h.stage i c hi
  · intro id hid
    obtain ⟨i, c, hi, hop, hran⟩ := h.marked id hid
    have hne : i ≠ s.pool.next := Nat.ne_of_lt (h.invoked i c hi)
    exact ⟨i, c, (System.calls_invoke_of_ne _ hne).trans hi, hop, hran⟩
  · exact h.redis

theorem mem_ran_step {i j : Nat} (h : j ∈ s.ran) : j ∈ (s.step handle (.step i)).ran := by
  dsimp only [Watched.step]
  split
  · exact List.mem_cons_of_mem _ h
  · exact h

/-- Nothing is left of call `i`. -/
theorem watched_step_idle {i : Nat} (hpool : (charges handle nesting sub timestamp).step s.pool (.step i) = s.pool)
    (hidle : ∀ c, s.pool.calls i = some c → c.proc.output.isSome) : s.step handle (.step i) = s := by
  have hran : (s.step handle (.step i)).ran = s.ran := by
    dsimp only [Watched.step]
    rw [if_neg]
    intro h
    obtain ⟨c, hi, hhandles⟩ := Option.map_eq_some_iff.mp h
    have hdone := hidle c hi
    rw [output_of_handles hhandles] at hdone
    cases hdone
  cases s
  exact congrArg₂ Watched.mk hpool hran

section Call
variable {i : Nat} {c : Support.Call (Charge F nesting sub timestamp) (Cmd F Hd) Reply Report}
  {cmd : Cmd F Hd} {k : Reply → Coroutine F Hd Report}

theorem ran_of_handles (hi : s.pool.calls i = some c) (h : Handles c.proc = true) :
    i ∈ (s.step handle (.step i)).ran := by
  dsimp only [Watched.step]
  rw [hi, Option.map_some, h, if_pos rfl]
  exact List.mem_cons_self ..

/-- Nobody else has marked the id, so the look-up of a call that has not run its handler finds nothing. -/
theorem handles_of_looked (h : Unmerged s) (hi : s.pool.calls i = some c) (hnew : i ∉ s.ran)
    (hproc : c.proc = .call cmd k) (hlooks : LooksFirst c.op.event.eventId c.proc) :
    Handles (k (serve handle s.pool.server cmd).2) = true := by
  rw [hproc] at hlooks
  cases hlooks with
  | memory k hnext =>
    have hmiss : s.pool.server.cache.contains c.op.event.eventId = false := by
      rw [← Bool.not_eq_true]
      intro hmarked
      obtain ⟨l, e, hl, hop, hran⟩ := h.marked _ hmarked
      rw [h.distinct l i e c hl hi hop] at hran
      exact hnew hran
    have hreply : (serve handle s.pool.server (.isCached c.op.event.eventId)).2 = .bool false :=
      congrArg Reply.bool hmiss
    rw [hreply]
    exact hnext
  | redis key k hnext =>
    have hmiss : s.pool.server.redis.get key = none := by
      simp [Redis.Server.get, Redis.Server.lookup, h.redis key]
    have hreply : (serve handle s.pool.server (.redisExists key)).2 = .bool false := by
      simp [serve, hmiss]
    rw [hreply]
    exact hnext

/-- A call that marks an id has run its handler. -/
theorem ran_of_marking (h : Unmerged s) (hi : s.pool.calls i = some c) {id : Str} {maxCacheSize : Nat}
    (hproc : c.proc = .call (.markCached id maxCacheSize) k) : i ∈ s.ran := by
  rcases h.stage i c hi with hran | hhandles | hlooks
  · exact hran
  · rw [hproc] at hhandles
    cases hhandles
  · rw [hproc] at hlooks
    cases hlooks

/-- After its next command a call has run its handler, or the handler is next. -/
theorem stage_step (h : Unmerged s) (hi : s.pool.calls i = some c) (hproc : c.proc = .call cmd k) :
    i ∈ (s.step handle (.step i)).ran ∨ Handles (k (serve handle s.pool.server cmd).2) = true := by
  by_cases hold : i ∈ s.ran
  · exact Or.inl (mem_ran_step hold)
  rcases h.stage i c hi with hran | hhandles | hlooks
  · exact absurd hran hold
  · exact Or.inl (ran_of_handles hi hhandles)
  · exact Or.inr (handles_of_looked h hi hold hproc hlooks)

/-- What is marked after the next command of a call belongs to a call that has run its handler. -/
theorem marked_step (h : Unmerged s) (hi : s.pool.calls i = some c) (hproc : c.proc = .call cmd k) {id : Str}
    (hid : (serve handle s.pool.server cmd).1.cache.contains id = true) :
    ∃ j d, s.pool.calls j = some d ∧ d.op.event.eventId = id ∧ j ∈ s.ran := by
  have hmarks := h.code i c hi
  rw [hproc] at hmarks
  by_cases hmark : ∃ maxCacheSize, cmd = .markCached id maxCacheSize
  · obtain ⟨maxCacheSize, rfl⟩ := hmark
    have hown : id = c.op.event.eventId := hmarks.1
    exact ⟨i, c, hi, hown.symm, ran_of_marking h hi hproc⟩
  · exact h.marked id (serve_cache s.pool.server cmd (fun m hm => hmark ⟨m, hm⟩) hmarks.1 hid)

end Call

/-- A command of call `i`. -/
theorem unmerged_step (h : Unmerged s) (i : Nat) : Unmerged (s.step handle (.step i)) := by
  rcases (charges handle nesting sub timestamp).step_cases s.pool i with
    ⟨hpool, hidle⟩ | ⟨c, cmd, k, hi, hproc, hpool⟩
  · rw [watched_step_idle hpool hidle]
    exact h
  have hmarks := h.code i c hi
  rw [hproc] at hmarks
  have hcases : ∀ j d, (s.step handle (.step i)).pool.calls j = some d →
      (j = i ∧ d = { c with proc := k (serve handle s.pool.server cmd).2 }) ∨
        (j ≠ i ∧ s.pool.calls j = some d) := by
    intro j d hj
    rw [Watched.step, hpool] at hj
    exact Pool.calls_resume_cases hj
  constructor
  · intro j d hj
    rw [Watched.step, hpool]
    rcases hcases j d hj with ⟨rfl, _⟩ | ⟨_, hj⟩
    · exact h.invoked _ c hi
    · exact h.invoked j d hj
  · intro j l d e hj hl hsame
    rcases hcases j d hj with ⟨rfl, rfl⟩ | ⟨_, hjold⟩
    · rcases hcases l e hl with ⟨rfl, rfl⟩ | ⟨_, hlold⟩
      · rfl
      · exact h.distinct _ l c e hi hlold hsame
    · rcases hcases l e hl with ⟨rfl, rfl⟩ | ⟨_, hlold⟩
      · exact h.distinct j _ d c hjold hi hsame
      · exact h.distinct j l d e hjold hlold hsame
  · intro j d hj
    rcases hcases j d hj with ⟨rfl, rfl⟩ | ⟨_, hj⟩
    · exact hmarks.2 _
    · exact h.code j d hj
  · intro j d hj
    rcases hcases j d hj with ⟨rfl, rfl⟩ | ⟨_, hj⟩
    · exact (stage_step h hi hproc).imp_right Or.inl
    · exact (h.stage j d hj).imp_left mem_ran_step
  · intro id hid
    rw [Watched.step, hpool] at hid
    obtain ⟨j, d, hj, hop, hran⟩ := marked_step h hi hproc hid
    obtain ⟨d', hd', hop'⟩ := Pool.calls_resume_kept hi hj
    refine ⟨j, d', ?_, by rw [hop', hop], mem_ran_step hran⟩
    rw [Watched.step, hpool]
    exact hd'
  · intro key
    rw [Watched.step, hpool]
    have hsame : (serve handle s.pool.server cmd).1.redis.store = s.pool.server.redis.store :=
      serve_store s.pool.server cmd hmarks.1
    exact (congrFun hsame key).trans (h.redis key)

end Invariant

/-- In every interleaving of deliveries of events with different ids, each of them runs its
handler before it returns. -/
theorem all_handled_of_fresh_ids [EventModels F] (handle : Hd → Event F → H → H × Outcome) (nesting : Nat)
    (sub : Subscriber Hd) (hstore : sub.idempotency.storage ≠ .postgres) (timestamp : Instant → F)
    (now : Instant) (outside : H) (actions : List (PoolAction (Surroundings H) (Charge F nesting sub timestamp)))
    (hfresh : Guarded (Watched.step handle) FreshIds (Watched.start now outside) actions) :
    AllHandled (run (Watched.step handle) (Watched.start now outside) actions) := by
  refine allHandled_of_unmerged (guarded_invariant Unmerged ?_ hfresh (unmerged_start now outside))
  intro s a ha hs
  cases a with
  | env e => exact unmerged_env hs e
  | invoke charge => exact unmerged_invoke hs hstore ha
  | step i => exact unmerged_step hs i

/-! ## Two events of one service -/

section Example
attribute [local instance] errorEventModels

/-- The seconds since 1970 of an instant on a whole second. -/
def wholeTimestamp (t : Instant) : WholeFloat := .whole ((t : Int) / 1000000 - 62135596800)

def newYear : Instant := 63871286400000000

def failedCharge (user : Str) (createdAt : Instant) : Json WholeFloat := .obj [
  (lit "event_type", .str (lit "billing.failed")),
  (lit "event_id", .str (defaultEventId wholeTimestamp createdAt)),
  (lit "user_id", .str user),
  (lit "usage_event_id", .str (lit "evt_0")),
  (lit "product_id", .str (lit "gpt-4")),
  (lit "error_code", .str (lit "PRICING_NOT_FOUND")),
  (lit "error_message", .str (lit "no price")),
  (lit "retry_count", .int 0),
  (lit "timestamp", .str (isoformat createdAt))]

def failedChargeEvent (user : Str) (createdAt : Instant) : Event WholeFloat := .billingError
  ⟨lit "billing.failed", defaultEventId wholeTimestamp createdAt, user, lit "evt_0", lit "gpt-4",
    lit "PRICING_NOT_FOUND", lit "no price", 0, ⟨createdAt, some 0⟩⟩

def chargeOf (user : Str) (createdAt : Instant)
    (h : deserializeEvent 10 ((Json.compact (failedCharge user createdAt)).flatMap encodePoint) =
      some (failedChargeEvent user createdAt)) :
    Charge WholeFloat 10 billingService wholeTimestamp where
  eventData := (Json.compact (failedCharge user createdAt)).flatMap encodePoint
  subject := lit "billing.failed"
  event := failedChargeEvent user createdAt
  createdAt := createdAt
  decoded := h
  defaultId := rfl
  handled := by
    change (billingService.handlers.get (lit "billing.failed")).isSome = true
    decide
  tried := by decide

theorem decoded_of_billingError {bs : Bytes} {e : BillingErrorEvent}
    (h : (deserializeEvent (F := WholeFloat) 10 bs).bind Event.billingError? = some e) :
    deserializeEvent (F := WholeFloat) 10 bs = some (.billingError e) := by
  obtain ⟨event, hevent, hkind⟩ := Option.bind_eq_some_iff.mp h
  rw [hevent]
  cases event with
  | billingError e' =>
    cases hkind
    rfl
  | _ => cases hkind

def firstCharge : Charge WholeFloat 10 billingService wholeTimestamp :=
  chargeOf (lit "u1") newYear (decoded_of_billingError (by decide +kernel))

def sameInstant : Charge WholeFloat 10 billingService wholeTimestamp :=
  chargeOf (lit "u2") newYear (decoded_of_billingError (by decide +kernel))

def secondLater : Charge WholeFloat 10 billingService wholeTimestamp :=
  chargeOf (lit "u2") (newYear + 1000000) (decoded_of_billingError (by decide +kernel))

def succeeds (_ : Unit) (_ : Event WholeFloat) (_ : Unit) : Unit × Outcome := ((), .success)

/-- Events of different instants, delivered next to each other. -/
theorem later_charge_handled :
    AllHandled (run (Watched.step succeeds) (Watched.start 0 ())
      [.invoke firstCharge, .invoke secondLater, .step 0, .step 1, .step 1, .step 0, .step 0, .step 1]) := by
  refine all_handled_of_fresh_ids succeeds 10 billingService (by decide) wholeTimestamp 0 () _
    ⟨?_, ?_, trivial, trivial, trivial, trivial, trivial, trivial, trivial⟩
  · intro i c hi
    cases hi
  · intro i c hi
    have hfirst : c.op = firstCharge := by
      by_cases hzero : i = 0
      · subst hzero
        cases hi
        rfl
      · have hnone : (Watched.step succeeds (Watched.start 0 ()) (.invoke firstCharge)).pool.calls i = none :=
          Function.update_of_ne hzero _ _
        rw [hnone] at hi
        cases hi
    rw [hfirst]
    change defaultEventId wholeTimestamp newYear ≠ defaultEventId wholeTimestamp (newYear + 1000000)
    decide

/-- Two users' events of one instant have one id, and the second is skipped as a duplicate. -/
theorem same_instant_skipped :
    firstCharge.event ≠ sameInstant.event ∧
      ¬ ∀ actions : List (PoolAction (Surroundings Unit) (Charge WholeFloat 10 billingService wholeTimestamp)),
        AllHandled (run (Watched.step succeeds) (Watched.start 0 ()) actions) := by
  constructor
  · intro hsame
    have huser := congrArg (fun e : Event WholeFloat => (Event.billingError? e).map (·.userId)) hsame
    exact absurd huser (by decide)
  · intro hall
    have hran := hall [.invoke firstCharge, .step 0, .step 0, .step 0, .invoke sameInstant, .step 1] 1 (by decide +kernel)
    exact absurd hran (by decide +kernel)

end Example

end IsaCloud.Events
