import IsaCloud.Events.Overlap
import Mathlib.Data.Finset.Card

/-!
# The three idempotency stores

Sequential runs of deliveries, against an abstract set of processed ids. The
in-memory store behaves like the set. The other two do not fit the clients they
are documented for: `mark_processed` passes `ex=` to `AsyncRedisClient.set`,
which has no such parameter, and `is_processed` calls `query_one`, which
`AsyncPostgresClient` does not have. The exceptions are swallowed by
`process_event`, so a run shows the difference as soon as one delivery of an
event with an id reaches a handler.
-/

namespace IsaCloud.Events

set_option autoImplicit false

open Support Support.Text Support.Python Support.Encoding Support.DateTime Support.IsoTime Cache

variable {F H Hd : Type}

/-! ## The abstract store -/

section Abstract
variable (handle : Hd → Event F → H → H × Outcome)

/-- The outcomes of up to `n` attempts, ending with the first success. -/
def tries (handler : Hd) (event : Event F) : Nat → H → H × List Outcome
  | 0, h => (h, [])
  | n + 1, h =>
    if (handle handler event h).2 = .success then
      ((handle handler event h).1, [.success])
    else
      ((tries handler event n (handle handler event h).1).1,
        (handle handler event h).2 :: (tries handler event n (handle handler event h).1).2)

/-- The ids processed so far, and the world of the handlers. -/
structure Ledger (H : Type) where
  processed : Finset Str
  outside : H

/-- What an observer sees of one delivery: the handler outcomes and the result. -/
structure Observed where
  outcomes : List Outcome
  result : Bool
  deriving DecidableEq

/-- A delivery of an event whose id is in the set is confirmed; any other one
runs the handler, and a success puts the id into the set. -/
def Ledger.deliver (sub : Subscriber Hd) (s : Ledger H) (event : Event F) : Ledger H × Observed :=
  if event.eventId ≠ [] ∧ event.eventId ∈ s.processed then (s, ⟨[], true⟩)
  else
    match sub.handlers.get event.eventType with
    | none => (s, ⟨[], false⟩)
    | some handler =>
      let r := tries handle handler event sub.attempts s.outside
      if .success ∈ r.2 then
        (⟨if event.eventId = [] then s.processed else insert event.eventId s.processed, r.1⟩,
          ⟨r.2, true⟩)
      else (⟨s.processed, r.1⟩, ⟨r.2, false⟩)

end Abstract

/-! ## Runs -/

section Runs
variable [PyFloat F] [EventModels F] (handle : Hd → Event F → H → H × Outcome) (nesting : Nat)

/-- A delivery, or time passing between two deliveries. -/
inductive Turn (H : Type) where
  | deliver (eventData : Bytes) (subject : Str)
  | pass (e : Surroundings H)

def Subscriber.withStorage (sub : Subscriber Hd) (storage : Storage) : Subscriber Hd :=
  { sub with idempotency := { sub.idempotency with storage := storage } }

def observed (w : World F H) (r : World F H × Report) : Observed :=
  ⟨(r.1.calls.drop w.calls.length).map Prod.snd, r.2.result⟩

def deliverOne (sub : Subscriber Hd) (w : World F H) (eventData : Bytes) (subject : Str) :
    World F H × Observed :=
  let r := (sub.processEvent nesting eventData subject).exec (serve handle) w
  (r.1, observed w r)

/-- What is observed of the deliveries of a run, one after the other. -/
def observe (sub : Subscriber Hd) : World F H → List (Turn H) → List Observed
  | _, [] => []
  | w, .deliver eventData subject :: turns =>
    (deliverOne handle nesting sub w eventData subject).2 ::
      observe sub (deliverOne handle nesting sub w eventData subject).1 turns
  | w, .pass e :: turns => observe sub (e.act w) turns

def Ledger.act (s : Ledger H) : Surroundings H → Ledger H
  | .tick _ => s
  | .outside h => { s with outside := h }

def Ledger.deliverOne (sub : Subscriber Hd) (s : Ledger H) (eventData : Bytes) :
    Ledger H × Observed :=
  match deserializeEvent (F := F) nesting eventData with
  | none => (s, ⟨[], false⟩)
  | some event => s.deliver handle sub event

def Ledger.observe (sub : Subscriber Hd) : Ledger H → List (Turn H) → List Observed
  | _, [] => []
  | s, .deliver eventData _ :: turns =>
    (s.deliverOne handle nesting sub eventData).2 ::
      observe sub (s.deliverOne handle nesting sub eventData).1 turns
  | s, .pass e :: turns => observe sub (s.act e) turns

/-- The set at the end of a run. -/
def Ledger.after (sub : Subscriber Hd) : Ledger H → List (Turn H) → Ledger H
  | s, [] => s
  | s, .deliver eventData _ :: turns => after sub (s.deliverOne handle nesting sub eventData).1 turns
  | s, .pass e :: turns => after sub (s.act e) turns

variable (F) in
/-- An event with an id, for which a handler is registered and tried. -/
def Tracked (sub : Subscriber Hd) (eventData : Bytes) : Prop :=
  ∃ event : Event F, deserializeEvent nesting eventData = some event ∧ event.eventId ≠ [] ∧
    (sub.handlers.get event.eventType).isSome ∧ 0 ≤ sub.retryPolicy.maxRetries

end Runs

/-! ## The retry loop -/

section Retries
variable [PyFloat F] (handle : Hd → Event F → H → H × Outcome)

/-- The world after some attempts, `d` microseconds later. -/
def World.tried (w : World F H) (event : Event F) (r : H × List Outcome) (d : Nat) : World F H :=
  { w with
    outside := r.1
    calls := w.calls ++ r.2.map fun o => (event, o)
    redis := w.redis.advance d }

omit [PyFloat F] in
theorem tried_tried (w : World F H) (event : Event F) (r r' : H × List Outcome) (d d' : Nat) :
    (w.tried event r d).tried event r' d' = w.tried event (r'.1, r.2 ++ r'.2) (d + d') := by
  simp [World.tried, Redis.Server.advance, Nat.add_assoc]

/-- The pause after a failed attempt, if there is one. -/
theorem exec_pause {Out : Type} (c : Prop) [Decidable c] (seconds : Int)
    (p : Coroutine F Hd Out) (w : World F H) (event : Event F) (r : H × List Outcome) :
    ∃ d, (if c then Proc.call (.sleep seconds) fun _ => p else p).exec (serve handle)
        (w.tried event r 0) = p.exec (serve handle) (w.tried event r d) := by
  split
  · refine ⟨usPerSecond * seconds.toNat, ?_⟩
    simp [serve, World.tried, Redis.Server.advance]
  · exact ⟨0, rfl⟩

theorem exec_executeFrom {Out : Type} (sub : Subscriber Hd) (handler : Hd) (event : Event F)
    (k : Bool → Coroutine F Hd Out) (left attempt : Nat) (w : World F H) :
    ∃ d, (sub.executeFrom handler event k left attempt).exec (serve handle) w =
      (k (decide (.success ∈ (tries handle handler event left w.outside).2))).exec (serve handle)
        (w.tried event (tries handle handler event left w.outside) d) := by
  induction left generalizing attempt w with
  | zero =>
    refine ⟨0, ?_⟩
    simp [Subscriber.executeFrom, tries, World.tried, Redis.Server.advance]
  | succ left ih =>
    have hserve : serve handle w (.handle handler event) =
        (w.tried event ((handle handler event w.outside).1, [(handle handler event w.outside).2]) 0,
          .outcome (handle handler event w.outside).2) := rfl
    rw [Subscriber.executeFrom, Proc.exec_call, hserve, tries]
    simp only [Reply.toOutcome_outcome]
    by_cases ho : (handle handler event w.outside).2 = .success
    · refine ⟨0, ?_⟩
      simp [ho]
    · simp only [ho, if_false]
      obtain ⟨d, hd⟩ := exec_pause handle ((attempt : Int) < sub.retryPolicy.maxRetries)
        (sub.retryPolicy.getDelay attempt) (sub.executeFrom handler event k left (attempt + 1))
        w event ((handle handler event w.outside).1, [(handle handler event w.outside).2])
      obtain ⟨d', hd'⟩ := ih (attempt + 1) (w.tried event ((handle handler event w.outside).1,
        [(handle handler event w.outside).2]) d)
      refine ⟨d + d', ?_⟩
      rw [hd, hd', tried_tried]
      simp [World.tried, Ne.symm ho]

theorem exec_giveUp (sub : Subscriber Hd) (event : Event F) (subject : Str) (w : World F H) :
    (sub.giveUp event subject).exec (serve handle) w = (w, .failed) := by
  rw [Subscriber.giveUp, Proc.exec_call]
  exact Prod.ext (moveToDlq_eq w sub.serviceName event subject Subscriber.maxRetriesExceeded) rfl

theorem exec_runHandler (sub : Subscriber Hd) {event : Event F} {handler : Hd}
    (hh : sub.handlers.get event.eventType = some handler) (subject : Str) (w : World F H) :
    ∃ d, (sub.runHandler event subject).exec (serve handle) w =
      if .success ∈ (tries handle handler event sub.attempts w.outside).2 then
        (sub.finish event).exec (serve handle)
          (w.tried event (tries handle handler event sub.attempts w.outside) d)
      else (w.tried event (tries handle handler event sub.attempts w.outside) d, .failed) := by
  simp only [Subscriber.runHandler, hh, Subscriber.executeWithRetry]
  obtain ⟨d, hd⟩ := exec_executeFrom handle sub handler event
    (fun success => if success then sub.finish event else sub.giveUp event subject) sub.attempts 0 w
  refine ⟨d, hd.trans ?_⟩
  by_cases hs : .success ∈ (tries handle handler event sub.attempts w.outside).2
  · simp [hs]
  · simp [hs, exec_giveUp]

omit [PyFloat F] in
theorem observed_self (w : World F H) (report : Report) :
    observed w (w, report) = ⟨[], report.result⟩ := by
  simp [observed]

omit [PyFloat F] in
/-- Only the handler calls of the new world are observed. -/
theorem observed_tried {w w' : World F H} (event : Event F) (outcomes : List Outcome)
    (h : w'.calls = w.calls ++ outcomes.map fun o => (event, o)) (report : Report) :
    observed w (w', report) = ⟨outcomes, report.result⟩ := by
  simp [observed, h, Function.comp_def]

end Retries

/-! ## The in-memory store is the set -/

section Memory
variable [PyFloat F] (handle : Hd → Event F → H → H × Outcome)

structure Mirrors (w : World F H) (s : Ledger H) : Prop where
  outside : w.outside = s.outside
  keys : w.cache.keys.toFinset = s.processed

variable {w : World F H} {s : Ledger H}

omit [PyFloat F] in
theorem Mirrors.contains (h : Mirrors w s) (id : Str) :
    w.cache.contains id = decide (id ∈ s.processed) := by
  rw [Bool.eq_iff_iff, Dict.contains_iff, decide_eq_true_iff, ← h.keys, List.mem_toFinset]

omit [PyFloat F] in
theorem Mirrors.size (h : Mirrors w s) : w.cache.size = s.processed.card := by
  rw [← h.keys, List.toFinset_card_of_nodup w.cache.keys_nodup, Dict.keys_length]

/-- A delivery whose id is not in the set goes to the handler. -/
theorem exec_processDecoded_memory {sub : Subscriber Hd}
    (hmem : sub.idempotency.storage = .memory) (h : Mirrors w s) (event : Event F)
    (subject : Str) :
    (sub.processDecoded event subject).exec (serve handle) w =
      if event.eventId ≠ [] ∧ event.eventId ∈ s.processed then (w, .skipped)
      else (sub.runHandler event subject).exec (serve handle) w := by
  unfold Subscriber.processDecoded
  by_cases hid : event.eventId = []
  · simp [hid]
  · simp only [hid, if_false, ne_eq, not_false_eq_true, true_and, IdempotencyChecker.isProcessed,
      hmem, Proc.exec_call, serve, Reply.isTrue_bool, h.contains]
    by_cases hm : event.eventId ∈ s.processed
    · simp [hm]
    · simp [hm]

theorem memory_finish {sub : Subscriber Hd} (hmem : sub.idempotency.storage = .memory)
    {event : Event F} (w' : World F H)
    (hroom : event.eventId ≠ [] → w'.cache.size < sub.idempotency.maxCacheSize) :
    (sub.finish event).exec (serve handle) w' =
      (if event.eventId = [] then w'
        else { w' with cache := w'.cache.set event.eventId w'.now }, .processed) := by
  unfold Subscriber.finish
  by_cases hid : event.eventId = []
  · simp [hid]
  · simp only [hid, if_false, IdempotencyChecker.markProcessed, hmem, Proc.exec_call, Proc.exec_ret,
      serve, contains_markCached (hroom hid)]

theorem memory_deliver {sub : Subscriber Hd} (hmem : sub.idempotency.storage = .memory)
    (h : Mirrors w s) (event : Event F) (subject : Str)
    (hroom : (s.deliver handle sub event).1.processed.card ≤ sub.idempotency.maxCacheSize) :
    observed w ((sub.processDecoded event subject).exec (serve handle) w) =
      (s.deliver handle sub event).2 ∧
    Mirrors ((sub.processDecoded event subject).exec (serve handle) w).1
      (s.deliver handle sub event).1 := by
  rw [exec_processDecoded_memory handle hmem h]
  unfold Ledger.deliver at hroom ⊢
  by_cases hknown : event.eventId ≠ [] ∧ event.eventId ∈ s.processed
  · rw [if_pos hknown, if_pos hknown]
    exact ⟨observed_self w .skipped, h⟩
  · rw [if_neg hknown, if_neg hknown]
    rw [if_neg hknown] at hroom
    cases hh : sub.handlers.get event.eventType with
    | none =>
      simp only [Subscriber.runHandler, hh]
      exact ⟨observed_self w .unhandled, h⟩
    | some handler =>
      simp only [hh] at hroom ⊢
      obtain ⟨d, hd⟩ := exec_runHandler handle sub hh subject w
      rw [hd, h.outside]
      by_cases hs : .success ∈ (tries handle handler event sub.attempts s.outside).2
      · simp only [hs, if_true] at hroom ⊢
        have hnew : event.eventId ≠ [] → event.eventId ∉ s.processed :=
          fun hid hm => hknown ⟨hid, hm⟩
        rw [memory_finish handle hmem]
        · by_cases hid : event.eventId = []
          · simp only [hid, if_true]
            exact ⟨observed_tried event _ rfl .processed, ⟨rfl, h.keys⟩⟩
          · simp only [hid, if_false]
            refine ⟨observed_tried event _ rfl .processed, ⟨rfl, ?_⟩⟩
            have hfresh : event.eventId ∉ w.cache.keys := by
              rw [← List.mem_toFinset, h.keys]
              exact hnew hid
            show (w.cache.set event.eventId _).keys.toFinset = insert event.eventId s.processed
            rw [Dict.keys_set_of_not_mem _ hfresh, List.toFinset_append, h.keys]
            simp
        · intro hid
          have hcard := Finset.card_insert_of_notMem (hnew hid)
          simp only [hid, if_false, hcard] at hroom
          show w.cache.size < _
          rw [h.size]
          exact hroom
      · simp only [hs, if_false]
        exact ⟨observed_tried event _ rfl .failed, ⟨rfl, h.keys⟩⟩

section Runs
variable [EventModels F] (nesting : Nat) (sub : Subscriber Hd)

omit [PyFloat F] [EventModels F] in
theorem Mirrors.act (h : Mirrors w s) (e : Surroundings H) : Mirrors (e.act w) (s.act e) := by
  cases e with
  | tick d => exact ⟨h.outside, h.keys⟩
  | outside x => exact ⟨rfl, h.keys⟩

omit [PyFloat F] [EventModels F] in
theorem card_deliver_le (s : Ledger H) (event : Event F) :
    s.processed.card ≤ (s.deliver handle sub event).1.processed.card := by
  unfold Ledger.deliver
  split
  · exact Nat.le_refl _
  · split
    · exact Nat.le_refl _
    · dsimp only
      split
      · split
        · exact Nat.le_refl _
        · exact Finset.card_le_card (Finset.subset_insert _ _)
      · exact Nat.le_refl _

theorem card_deliverOne_le (s : Ledger H) (eventData : Bytes) :
    s.processed.card ≤ (s.deliverOne handle nesting sub eventData).1.processed.card := by
  unfold Ledger.deliverOne
  split
  · exact Nat.le_refl _
  · exact card_deliver_le handle sub s _

/-- The set only grows along a run. -/
theorem card_after_le (s : Ledger H) (turns : List (Turn H)) :
    s.processed.card ≤ (s.after handle nesting sub turns).processed.card := by
  induction turns generalizing s with
  | nil => exact Nat.le_refl _
  | cons t turns ih =>
    cases t with
    | deliver eventData subject =>
      exact Nat.le_trans (card_deliverOne_le handle nesting sub s eventData) (ih _)
    | pass e =>
      refine Nat.le_trans (Nat.le_of_eq ?_) (ih (s.act e))
      cases e <;> rfl

variable {sub}

/-- Within its size, the in-memory store shows what the set shows. -/
theorem memory_observe (hmem : sub.idempotency.storage = .memory) (h : Mirrors w s)
    {turns : List (Turn H)}
    (hroom : (s.after handle nesting sub turns).processed.card ≤ sub.idempotency.maxCacheSize) :
    observe handle nesting sub w turns = s.observe handle nesting sub turns := by
  induction turns generalizing w s with
  | nil => rfl
  | cons t turns ih =>
    cases t with
    | pass e => exact ih (h.act e) hroom
    | deliver eventData subject =>
      have hroom' := Nat.le_trans (card_after_le handle nesting sub _ turns) hroom
      have hstep : (deliverOne handle nesting sub w eventData subject).2 =
            (s.deliverOne handle nesting sub eventData).2 ∧
          Mirrors (deliverOne handle nesting sub w eventData subject).1
            (s.deliverOne handle nesting sub eventData).1 := by
        unfold deliverOne Ledger.deliverOne Subscriber.processEvent
        cases hevent : deserializeEvent (F := F) nesting eventData with
        | none => exact ⟨observed_self w .failed, h⟩
        | some event =>
          simp only [Ledger.deliverOne, hevent] at hroom'
          exact memory_deliver handle hmem h event subject hroom'
      rw [observe, Ledger.observe, hstep.1, ih hstep.2 hroom]

end Runs

end Memory

/-! ## The stores that do not fit their clients -/

section Calls

theorem call_exists (key : PyValue F) :
    redisMethods.call (lit "exists") [key] [] = .ok ⟨[some key], []⟩ := by
  have hfind : Dict.find redisMethods (lit "exists") = some ⟨[req "key"], false⟩ := by
    decide
  simp [Methods.call, hfind, Signature.bind, bindRest, Except.map]

/-- `AsyncRedisClient.set` has no parameter `ex`. -/
theorem call_set_ex (key value ttl : PyValue F) :
    ∃ e, redisMethods.call (lit "set") [key, value] [(lit "ex", ttl)] = .error e := by
  have hfind : Dict.find redisMethods (lit "set") =
      some ⟨[req "key", req "value", opt "ttl_seconds"], false⟩ := by decide
  have hex : lit "ex" ∉
      (⟨[req "key", req "value", opt "ttl_seconds"], false⟩ : Signature).names := by decide
  simp [Methods.call, hfind, Signature.bind, hex]

/-- `AsyncPostgresClient` has no method `query_one`. -/
theorem call_query_one (args : List (PyValue F)) :
    postgresMethods.call (lit "query_one") args [] = .error (noAttribute (lit "query_one")) := by
  have hfind : Dict.find postgresMethods (lit "query_one") = none := by decide
  simp [Methods.call, hfind]

end Calls

section Misfits
variable [PyFloat F] (handle : Hd → Event F → H → H × Outcome)

/-- Nothing is recorded, in the set or in Redis. -/
structure Blank (w : World F H) (s : Ledger H) : Prop where
  outside : w.outside = s.outside
  processed : s.processed = ∅
  redis : ∀ key, w.redis.store key = none

variable {w : World F H} {s : Ledger H} {sub : Subscriber Hd} {event : Event F}

omit [PyFloat F] in
theorem Blank.act (h : Blank w s) (e : Surroundings H) : Blank (e.act w) (s.act e) := by
  cases e with
  | tick d => exact ⟨h.outside, h.processed, h.redis⟩
  | outside x => exact ⟨rfl, h.processed, h.redis⟩

omit [PyFloat F] in
theorem Blank.tried (h : Blank w s) (event : Event F) (r : H × List Outcome) (d : Nat) :
    Blank (w.tried event r d) { s with outside := r.1 } := ⟨rfl, h.processed, h.redis⟩

/-- In Redis nothing is found, so the handler runs. -/
theorem exec_processDecoded_redis (hredis : sub.idempotency.storage = .redis)
    (hempty : ∀ key, w.redis.store key = none) (event : Event F) (subject : Str) :
    (sub.processDecoded event subject).exec (serve handle) w =
      (sub.runHandler event subject).exec (serve handle) w := by
  unfold Subscriber.processDecoded
  split
  · rfl
  · simp only [IdempotencyChecker.isProcessed, hredis, call_exists,
      IdempotencyChecker.redisExists]
    split
    · rfl
    · have hmissing : ∀ key, w.redis.get key = none := by
        intro key
        simp [Redis.Server.get, Redis.Server.lookup, hempty key]
      simp [serve, hmissing]

/-- `mark_processed` raises, so no event with an id is ever confirmed or recorded,
not even one that its handler has just processed. -/
theorem redis_never_confirms (hredis : sub.idempotency.storage = .redis)
    (hempty : ∀ key, w.redis.store key = none) (hid : event.eventId ≠ []) (subject : Str) :
    ((sub.processDecoded event subject).exec (serve handle) w).2.result = false ∧
    ∀ key, ((sub.processDecoded event subject).exec (serve handle) w).1.redis.store key = none := by
  rw [exec_processDecoded_redis handle hredis hempty]
  cases hh : sub.handlers.get event.eventType with
  | none =>
    simp only [Subscriber.runHandler, hh]
    exact ⟨rfl, hempty⟩
  | some handler =>
    obtain ⟨d, hd⟩ := exec_runHandler handle sub hh subject w
    rw [hd]
    split
    · simp only [Subscriber.finish, hid, if_false, IdempotencyChecker.markProcessed, hredis,
        Proc.exec_call, serve]
      split
      · exact ⟨rfl, hempty⟩
      · obtain ⟨e, he⟩ := call_set_ex (F := F) (.str (redisKeyPrefix ++ event.eventId))
          (.str _) (.int sub.idempotency.ttlSeconds)
        rw [he]
        exact ⟨rfl, hempty⟩
    · exact ⟨rfl, hempty⟩

/-- `is_processed` raises, so the call fails without running a handler. -/
theorem exec_processDecoded_postgres (hpg : sub.idempotency.storage = .postgres)
    (hid : event.eventId ≠ []) (subject : Str) (w : World F H) :
    ∃ w', (sub.processDecoded event subject).exec (serve handle) w = (w', .failed) ∧
      w'.calls = w.calls ∧ w'.outside = w.outside ∧ w'.redis = w.redis := by
  simp only [Subscriber.processDecoded, hid, if_false, IdempotencyChecker.isProcessed, hpg,
    call_query_one, IdempotencyChecker.ensurePgTable, Proc.exec_call, serve, Reply.isTrue_bool]
  by_cases hensured : w.pgTableEnsured = true
  · simp only [hensured, if_true]
    exact ⟨w, rfl, rfl, rfl, rfl⟩
  · simp only [hensured]
    exact ⟨_, rfl, rfl, rfl, rfl⟩

/-- An event without an id is never looked up and never marked. -/
theorem unnamed_deliver (h : Blank w s) (hid : event.eventId = []) (subject : Str) :
    observed w ((sub.processDecoded event subject).exec (serve handle) w) =
      (s.deliver handle sub event).2 ∧
    Blank ((sub.processDecoded event subject).exec (serve handle) w).1
      (s.deliver handle sub event).1 := by
  have hunknown : ¬ (event.eventId ≠ [] ∧ event.eventId ∈ s.processed) := fun hk => hk.1 hid
  rw [Subscriber.processDecoded, if_pos hid, Ledger.deliver, if_neg hunknown]
  cases hh : sub.handlers.get event.eventType with
  | none =>
    simp only [Subscriber.runHandler, hh]
    exact ⟨observed_self w .unhandled, h⟩
  | some handler =>
    obtain ⟨d, hd⟩ := exec_runHandler handle sub hh subject w
    rw [hd, h.outside]
    have hfinish : (sub.finish event : Coroutine F Hd Report) = .ret .processed := by
      rw [Subscriber.finish, if_pos hid]
    by_cases hs : .success ∈ (tries handle handler event sub.attempts s.outside).2
    · simp only [hs, if_true, hid, hfinish]
      exact ⟨observed_tried event _ rfl .processed, h.tried event _ d⟩
    · simp only [hs, if_false]
      exact ⟨observed_tried event _ rfl .failed, h.tried event _ d⟩

omit [PyFloat F] in
/-- An event that no handler is tried on. -/
theorem untried_deliver (h : Blank w s)
    (hnone : sub.handlers.get event.eventType = none ∨ sub.attempts = 0) :
    s.deliver handle sub event = (s, ⟨[], false⟩) := by
  have hunknown : ¬ (event.eventId ≠ [] ∧ event.eventId ∈ s.processed) := by
    rw [h.processed]
    exact fun hk => Finset.notMem_empty _ hk.2
  rw [Ledger.deliver, if_neg hunknown]
  cases hh : sub.handlers.get event.eventType with
  | none => rfl
  | some handler =>
    rcases hnone with hn | hn
    · rw [hh] at hn
      cases hn
    · simp [hn, tries]

section Runs
variable [EventModels F] (nesting : Nat)

theorem untracked_cases {eventData : Bytes} (hu : ¬ Tracked F nesting sub eventData)
    (hevent : deserializeEvent nesting eventData = some event) :
    event.eventId = [] ∨ sub.handlers.get event.eventType = none ∨ sub.attempts = 0 := by
  by_cases hid : event.eventId = []
  · exact .inl hid
  · right
    cases hh : sub.handlers.get event.eventType with
    | none => exact .inl rfl
    | some handler =>
      right
      have hneg : ¬ 0 ≤ sub.retryPolicy.maxRetries :=
        fun hpos => hu ⟨event, hevent, hid, by rw [hh]; rfl, hpos⟩
      unfold Subscriber.attempts
      omega

theorem redis_untracked (hredis : sub.idempotency.storage = .redis) (h : Blank w s)
    {eventData : Bytes} (hu : ¬ Tracked F nesting sub eventData) (subject : Str) :
    (deliverOne handle nesting sub w eventData subject).2 =
      (s.deliverOne handle nesting sub eventData).2 ∧
    Blank (deliverOne handle nesting sub w eventData subject).1
      (s.deliverOne handle nesting sub eventData).1 := by
  unfold deliverOne Ledger.deliverOne Subscriber.processEvent
  cases hevent : deserializeEvent (F := F) nesting eventData with
  | none => exact ⟨observed_self w .failed, h⟩
  | some event =>
    dsimp only
    rcases untracked_cases nesting hu hevent with hid | hnone
    · exact unnamed_deliver handle h hid subject
    · rw [untried_deliver handle h hnone, exec_processDecoded_redis handle hredis h.redis]
      cases hh : sub.handlers.get event.eventType with
      | none =>
        simp only [Subscriber.runHandler, hh]
        exact ⟨observed_self w .unhandled, h⟩
      | some handler =>
        have hzero : sub.attempts = 0 := by
          rcases hnone with hn | hn
          · rw [hh] at hn
            cases hn
          · exact hn
        obtain ⟨d, hd⟩ := exec_runHandler handle sub hh subject w
        rw [hd, hzero]
        simp only [tries, List.not_mem_nil, if_false]
        exact ⟨observed_tried event [] rfl .failed, ⟨h.outside, h.processed, h.redis⟩⟩

theorem postgres_untracked (hpg : sub.idempotency.storage = .postgres) (h : Blank w s)
    {eventData : Bytes} (hu : ¬ Tracked F nesting sub eventData) (subject : Str) :
    (deliverOne handle nesting sub w eventData subject).2 =
      (s.deliverOne handle nesting sub eventData).2 ∧
    Blank (deliverOne handle nesting sub w eventData subject).1
      (s.deliverOne handle nesting sub eventData).1 := by
  unfold deliverOne Ledger.deliverOne Subscriber.processEvent
  cases hevent : deserializeEvent (F := F) nesting eventData with
  | none => exact ⟨observed_self w .failed, h⟩
  | some event =>
    dsimp only
    by_cases hid : event.eventId = []
    · exact unnamed_deliver handle h hid subject
    · have hnone := (untracked_cases nesting hu hevent).resolve_left hid
      obtain ⟨w', hw', hcalls, houtside, hredis⟩ :=
        exec_processDecoded_postgres handle hpg hid subject w
      rw [untried_deliver handle h hnone, hw']
      refine ⟨observed_tried event [] (by simp [hcalls]) .failed, ?_⟩
      exact ⟨houtside.trans h.outside, h.processed, by rw [hredis]; exact h.redis⟩

/-- The handler of a tracked event is tried, but not with PostgreSQL. -/
theorem postgres_tracked (hpg : sub.idempotency.storage = .postgres) (h : Blank w s)
    {eventData : Bytes} (ht : Tracked F nesting sub eventData) (subject : Str) :
    (deliverOne handle nesting sub w eventData subject).2 ≠
      (s.deliverOne handle nesting sub eventData).2 := by
  obtain ⟨event, hevent, hid, hsome, hpos⟩ := ht
  obtain ⟨handler, hh⟩ := Option.isSome_iff_exists.mp hsome
  obtain ⟨w', hw', hcalls, -, -⟩ := exec_processDecoded_postgres handle hpg hid subject w
  have hmissed : (deliverOne handle nesting sub w eventData subject).2 = ⟨[], false⟩ := by
    simp only [deliverOne, Subscriber.processEvent, hevent, hw']
    exact observed_tried event [] (by simp [hcalls]) .failed
  have hunknown : ¬ (event.eventId ≠ [] ∧ event.eventId ∈ s.processed) := by
    rw [h.processed]
    exact fun hk => Finset.notMem_empty _ hk.2
  obtain ⟨n, hn⟩ : ∃ n, sub.attempts = n + 1 :=
    ⟨sub.retryPolicy.maxRetries.toNat, by unfold Subscriber.attempts; omega⟩
  have hnonempty : (tries handle handler event sub.attempts s.outside).2 ≠ [] := by
    rw [hn, tries]
    split <;> simp
  rw [hmissed]
  simp only [Ledger.deliverOne, hevent, Ledger.deliver, hunknown, if_false, hh]
  intro heq
  split at heq
  · exact hnonempty (congrArg Observed.outcomes heq).symm
  · exact hnonempty (congrArg Observed.outcomes heq).symm

theorem redis_observe (hredis : sub.idempotency.storage = .redis) (h : Blank w s)
    {turns : List (Turn H)}
    (hu : ∀ eventData subject, Turn.deliver eventData subject ∈ turns →
      ¬ Tracked F nesting sub eventData) :
    observe handle nesting sub w turns = s.observe handle nesting sub turns := by
  induction turns generalizing w s with
  | nil => rfl
  | cons t turns ih =>
    have hrest := fun d j hm => hu d j (List.mem_cons_of_mem t hm)
    cases t with
    | pass e => exact ih (h.act e) hrest
    | deliver eventData subject =>
      obtain ⟨hsame, hblank⟩ := redis_untracked handle nesting hredis h
        (hu eventData subject List.mem_cons_self) subject
      rw [observe, Ledger.observe, hsame, ih hblank hrest]

/-- With PostgreSQL the first tracked delivery shows the difference. -/
theorem postgres_observe_iff (hpg : sub.idempotency.storage = .postgres) (h : Blank w s)
    (turns : List (Turn H)) :
    observe handle nesting sub w turns = s.observe handle nesting sub turns ↔
      ∀ eventData subject, Turn.deliver eventData subject ∈ turns →
        ¬ Tracked F nesting sub eventData := by
  induction turns generalizing w s with
  | nil => simp [observe, Ledger.observe]
  | cons t turns ih =>
    cases t with
    | pass e =>
      rw [observe, Ledger.observe, ih (h.act e)]
      simp
    | deliver eventData subject =>
      by_cases ht : Tracked F nesting sub eventData
      · refine iff_of_false ?_ (fun hu => hu eventData subject List.mem_cons_self ht)
        intro heq
        exact postgres_tracked handle nesting hpg h ht subject (List.cons.inj heq).1
      · obtain ⟨hsame, hblank⟩ := postgres_untracked handle nesting hpg h ht subject
        rw [observe, Ledger.observe, hsame, List.cons_inj_right, ih hblank]
        constructor
        · intro hu d j hm
          rcases List.mem_cons.mp hm with heq | hm
          · cases heq
            exact ht
          · exact hu d j hm
        · exact fun hu d j hm => hu d j (List.mem_cons_of_mem _ hm)

end Runs

end Misfits


/-! ## All three -/

section All
variable [PyFloat F] [EventModels F] (handle : Hd → Event F → H → H × Outcome) (nesting : Nat)

theorem deliverOne_withStorage (sub : Subscriber Hd) (storage : Storage) (s : Ledger H)
    (eventData : Bytes) :
    s.deliverOne handle nesting (sub.withStorage storage) eventData =
      s.deliverOne handle nesting sub eventData := rfl

theorem observe_withStorage (sub : Subscriber Hd) (storage : Storage) (s : Ledger H)
    (turns : List (Turn H)) :
    s.observe handle nesting (sub.withStorage storage) turns =
      s.observe handle nesting sub turns := by
  induction turns generalizing s with
  | nil => rfl
  | cons t turns ih =>
    cases t with
    | pass e => exact ih _
    | deliver eventData subject =>
      rw [Ledger.observe, Ledger.observe, deliverOne_withStorage, ih]

theorem after_withStorage (sub : Subscriber Hd) (storage : Storage) (s : Ledger H)
    (turns : List (Turn H)) :
    s.after handle nesting (sub.withStorage storage) turns =
      s.after handle nesting sub turns := by
  induction turns generalizing s with
  | nil => rfl
  | cons t turns ih =>
    cases t with
    | pass e => exact ih _
    | deliver eventData subject =>
      rw [Ledger.after, Ledger.after, deliverOne_withStorage, ih]

/-- The set of a run that starts with nothing processed. -/
def Ledger.start (outside : H) : Ledger H := ⟨∅, outside⟩

/-- A subscriber shows what the abstract set shows, with each of the three stores,
exactly when no delivery of the run is of an event with an id that a registered
handler is tried on. -/
theorem backends_agree_iff (sub : Subscriber Hd) (now : Instant) (outside : H)
    (turns : List (Turn H))
    (hroom : ((Ledger.start outside).after handle nesting sub turns).processed.card ≤
      sub.idempotency.maxCacheSize) :
    (∀ storage ∈ [Storage.memory, .redis, .postgres],
      observe handle nesting (sub.withStorage storage) (.start now outside) turns =
        (Ledger.start outside).observe handle nesting sub turns) ↔
    ∀ eventData subject, Turn.deliver eventData subject ∈ turns →
      ¬ Tracked F nesting sub eventData := by
  have hblank : Blank (World.start now outside : World F H) (.start outside) :=
    ⟨rfl, rfl, fun _ => rfl⟩
  have hmirror : Mirrors (World.start now outside : World F H) (.start outside) := ⟨rfl, rfl⟩
  have hstorage : ∀ storage, (sub.withStorage storage).idempotency.storage = storage :=
    fun _ => rfl
  have hpostgres := postgres_observe_iff handle nesting (hstorage .postgres) hblank turns
  constructor
  · intro hall
    have hpg := hall .postgres (by simp)
    rw [← observe_withStorage handle nesting sub .postgres] at hpg
    exact hpostgres.mp hpg
  · intro hu storage hmem
    rw [← observe_withStorage handle nesting sub storage]
    simp only [List.mem_cons, List.not_mem_nil, or_false] at hmem
    rcases hmem with rfl | rfl | rfl
    · rw [← after_withStorage handle nesting sub .memory] at hroom
      exact memory_observe handle nesting (hstorage .memory) hmirror hroom
    · exact redis_observe handle nesting (hstorage .redis) hblank hu
    · exact hpostgres.mpr hu

end All

/-! ## One delivery -/

section
attribute [local instance] errorEventModels

def oneDelivery : List (Turn Unit) := [.deliver failedMessage (lit "billing.failed")]

theorem agree_on_oneDelivery_iff :
    (((Ledger.start ()).after alwaysSucceeds 10 billingService oneDelivery).processed.card ≤ 10000) ∧
    ((∀ storage ∈ [Storage.memory, .redis, .postgres],
      observe alwaysSucceeds 10 (billingService.withStorage storage) (.start 0 ()) oneDelivery =
        (Ledger.start ()).observe alwaysSucceeds 10 billingService oneDelivery) ↔
    ∀ eventData subject, Turn.deliver eventData subject ∈ oneDelivery →
      ¬ Tracked Unit 10 billingService eventData) := by
  have hroom : ((Ledger.start ()).after alwaysSucceeds 10 billingService
      oneDelivery).processed.card ≤ 10000 := by decide +kernel
  exact ⟨hroom, backends_agree_iff alwaysSucceeds 10 billingService 0 () oneDelivery hroom⟩

/-- The handler succeeds once. With Redis the call fails all the same, with
PostgreSQL the handler is not even called. -/
theorem backends_differ :
    observe alwaysSucceeds 10 (billingService.withStorage .memory) (.start 0 ()) oneDelivery =
      [⟨[.success], true⟩] ∧
    observe alwaysSucceeds 10 (billingService.withStorage .redis) (.start 0 ()) oneDelivery =
      [⟨[.success], false⟩] ∧
    observe alwaysSucceeds 10 (billingService.withStorage .postgres) (.start 0 ()) oneDelivery =
      [⟨[], false⟩] ∧
    ¬ ∀ storage ∈ [Storage.memory, .redis, .postgres],
      observe alwaysSucceeds 10 (billingService.withStorage storage) (.start 0 ()) oneDelivery =
        (Ledger.start ()).observe alwaysSucceeds 10 billingService oneDelivery := by
  refine ⟨by decide +kernel, by decide +kernel, by decide +kernel, ?_⟩
  decide +kernel

end

end IsaCloud.Events
