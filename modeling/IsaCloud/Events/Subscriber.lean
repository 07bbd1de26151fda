import IsaCloud.Cache.Interface
import IsaCloud.Events.Billing
import IsaCloud.Support.Pool
import IsaCloud.Support.Redis

/-!
# The event subscriber

`IdempotencyChecker`, `RetryPolicy` and the processing pipeline of
`BaseEventSubscriber`. A coroutine is a process: each command is one piece of
code that runs without giving the event loop away, and other coroutines run
between two commands. Handlers and the world they act on are parameters.
-/

namespace IsaCloud.Events

set_option autoImplicit false

open Support Support.Text Support.Python Support.Encoding Support.DateTime Support.IsoTime Cache

/-! ## Configuration -/

inductive Storage where
  | memory
  | redis
  | postgres
  | unknown
  deriving DecidableEq, Repr

structure IdempotencyChecker where
  storage : Storage
  maxCacheSize : Nat
  ttlSeconds : Int
  /-- The tenant of the Redis client it was given. -/
  redisTenant : Tenant

structure RetryPolicy where
  maxRetries : Int
  initialDelay : Int
  maxDelay : Int
  exponentialBackoff : Bool
  deriving DecidableEq, Repr

def RetryPolicy.getDelay (policy : RetryPolicy) (attempt : Nat) : Int :=
  let delay :=
    if policy.exponentialBackoff then policy.initialDelay * 2 ^ attempt else policy.initialDelay
  min delay policy.maxDelay

/-- `handlers` maps an event type to the handler registered for it. -/
structure Subscriber (Hd : Type) where
  serviceName : Str
  idempotency : IdempotencyChecker
  retryPolicy : RetryPolicy
  handlers : Dict Str Hd

def Subscriber.registerHandler {Hd : Type} (sub : Subscriber Hd) (eventType : Str) (handler : Hd) :
    Subscriber Hd :=
  { sub with handlers := sub.handlers.set eventType handler }

/-- How a call of `handler.handle` ends. -/
inductive Outcome where
  | success
  | failure
  | raised (e : PyError)
  deriving DecidableEq, Repr

/-! ## The world of the coroutines -/

/-- What one subscriber process, or several that share a checker, act on. -/
structure World (F H : Type) where
  /-- `_memory_cache`, in insertion order. -/
  cache : Dict Str Instant
  pgTableEnsured : Bool
  /-- The Redis server; its clock is the time of day. -/
  redis : Redis.Server Str Str
  /-- The statements PostgreSQL has run. -/
  statements : List Str
  /-- Whatever the handlers read and write. -/
  outside : H
  /-- The handler calls that have ended, first to last. -/
  calls : List (Event F × Outcome)
  /-- The messages handed to `nats_client.publish`. -/
  published : List (Str × Bytes)

def World.now {F H : Type} (w : World F H) : Instant := w.redis.now

/-- Nothing processed, nothing stored, nothing sent. -/
def World.start {F H : Type} (now : Instant) (outside : H) : World F H :=
  ⟨.empty, false, .empty now, [], outside, [], []⟩

inductive Cmd (F Hd : Type) where
  | isCached (eventId : Str)
  | markCached (eventId : Str) (maxCacheSize : Nat)
  | redisExists (key : Str)
  | redisSet (key value : Str) (ttl : Int)
  | isTableEnsured
  | markTableEnsured
  | pgExecute (sql : Str)
  | clock
  | handle (handler : Hd) (event : Event F)
  | sleep (seconds : Int)
  | moveToDlq (serviceName : Str) (event : Event F) (subject reason : Str)

inductive Reply where
  | done
  | bool (b : Bool)
  | time (t : Instant)
  | outcome (o : Outcome)
  deriving DecidableEq, Repr

def Reply.isTrue : Reply → Bool
  | bool b => b
  | _ => false

def Reply.toTime : Reply → Instant
  | time t => t
  | _ => 0

def Reply.toOutcome : Reply → Outcome
  | outcome o => o
  | _ => .failure

@[simp] theorem Reply.isTrue_bool (b : Bool) : (Reply.bool b).isTrue = b := rfl

@[simp] theorem Reply.toOutcome_outcome (o : Outcome) : (Reply.outcome o).toOutcome = o := rfl

section Serve
variable {F H Hd : Type} [PyFloat F] (handle : Hd → Event F → H → H × Outcome)

/-- The cache part of `mark_processed`: evict the oldest entry if the cache is
full, then write. -/
def markCached (cache : Dict Str Instant) (maxCacheSize : Nat) (eventId : Str) (now : Instant) :
    Dict Str Instant :=
  let kept :=
    match cache.keys with
    | oldest :: _ => if maxCacheSize ≤ cache.size then cache.pop oldest else cache
    | [] => cache
  kept.set eventId now

def dlqData (serviceName : Str) (event : Event F) (subject reason : Str) (now : Instant) :
    PyValue F :=
  .dict [
    (lit "original_event", .dict event.modelDump),
    (lit "original_subject", .str subject),
    (lit "failure_reason", .str reason),
    (lit "failed_at", .str (isoformat now)),
    (lit "service", .str serviceName)]

def dlqSubject (subject : Str) : Str := lit "dlq." ++ subject

def dlqBytes (serviceName : Str) (event : Event F) (subject reason : Str) (now : Instant) :
    Except PyError Bytes :=
  match (dlqData serviceName event subject reason now).dumps with
  | .error e => .error e
  | .ok text => utf8Encode text

/-- `_move_to_dlq` has no `await`; an exception in it is logged and forgotten. -/
def moveToDlq (w : World F H) (serviceName : Str) (event : Event F) (subject reason : Str) :
    World F H :=
  match dlqBytes serviceName event subject reason w.now with
  | .error _ => w
  | .ok bytes => { w with published := w.published ++ [(dlqSubject subject, bytes)] }

def serve (w : World F H) : Cmd F Hd → World F H × Reply
  | .isCached eventId => (w, .bool (w.cache.contains eventId))
  | .markCached eventId maxCacheSize =>
    ({ w with cache := markCached w.cache maxCacheSize eventId w.now }, .done)
  | .redisExists key => (w, .bool (w.redis.get key).isSome)
  | .redisSet key value ttl =>
    let stored := w.redis.set key value
    ({ w with redis := if 0 < ttl then stored.expire key (usPerSecond * ttl.toNat) else stored },
      .done)
  | .isTableEnsured => (w, .bool w.pgTableEnsured)
  | .markTableEnsured => ({ w with pgTableEnsured := true }, .done)
  | .pgExecute sql => ({ w with statements := w.statements ++ [sql] }, .done)
  | .clock => (w, .time w.now)
  | .handle handler event =>
    ({ w with
        outside := (handle handler event w.outside).1
        calls := w.calls ++ [(event, (handle handler event w.outside).2)] },
      .outcome (handle handler event w.outside).2)
  | .sleep seconds => ({ w with redis := w.redis.advance (usPerSecond * seconds.toNat) }, .done)
  | .moveToDlq serviceName event subject reason =>
    (moveToDlq w serviceName event subject reason, .done)

end Serve

/-! ## `IdempotencyChecker` -/

def redisKeyPrefix : Str := lit "isa:idempotency:"

def pgTable : Str := lit "event_idempotency"

/-- The methods of `AsyncPostgresClient` and of its base class. -/
def postgresMethods : Methods := [
  (lit "health_check", ⟨[opt "detailed"], false⟩),
  (lit "query", ⟨[req "sql", opt "params", opt "schema"], false⟩),
  (lit "query_row", ⟨[req "sql", opt "params", opt "schema"], false⟩),
  (lit "execute", ⟨[req "sql", opt "params", opt "schema"], false⟩),
  (lit "execute_batch", ⟨[req "operations", opt "schema"], false⟩),
  (lit "select_from", ⟨[req "table", opt "columns", opt "where", opt "order_by", opt "limit",
    opt "offset", opt "schema"], false⟩),
  (lit "insert_into", ⟨[req "table", req "rows", opt "returning", opt "schema"], false⟩),
  (lit "list_tables", ⟨[opt "schema"], false⟩),
  (lit "table_exists", ⟨[req "table", opt "schema"], false⟩),
  (lit "get_stats", ⟨[], false⟩),
  (lit "transaction", ⟨[], false⟩),
  (lit "execute_in_transaction", ⟨[req "operations", opt "schema"], false⟩),
  (lit "query_many_concurrent", ⟨[req "queries"], false⟩),
  (lit "execute_many_concurrent", ⟨[req "statements"], false⟩),
  (lit "close", ⟨[], false⟩),
  (lit "shutdown", ⟨[], false⟩),
  (lit "reconnect", ⟨[], false⟩),
  (lit "handle_error", ⟨[req "error", req "operation"], false⟩),
  (lit "_connect", ⟨[], false⟩),
  (lit "_disconnect", ⟨[], false⟩),
  (lit "_ensure_connected", ⟨[], false⟩),
  (lit "_get_key_prefix", ⟨[], false⟩),
  (lit "_prefix_key", ⟨[req "key"], false⟩),
  (lit "_unprefix_key", ⟨[req "key"], false⟩)]

def createTableSql : Str := lit "
            CREATE TABLE IF NOT EXISTS " ++ pgTable ++ lit " (
                event_id TEXT PRIMARY KEY,
                processed_at TIMESTAMPTZ NOT NULL DEFAULT NOW(),
                result JSONB
            )
        "

def createIndexSql : Str := lit "
            CREATE INDEX IF NOT EXISTS idx_" ++ pgTable ++ lit "_processed_at
            ON " ++ pgTable ++ lit " (processed_at)
        "

def selectSql : Str := lit "SELECT 1 FROM " ++ pgTable ++ lit " WHERE event_id = $1"

def insertSql : Str := lit "INSERT INTO " ++ pgTable ++ lit " (event_id, processed_at, result)
                    VALUES ($1, $2, $3)
                    ON CONFLICT (event_id) DO NOTHING"

section Pipeline
variable {F Hd Out : Type} [PyFloat F]

abbrev Coroutine (F Hd Out : Type) := Proc (Cmd F Hd) Reply Out

namespace IdempotencyChecker
variable (checker : IdempotencyChecker)

/-- `AsyncRedisClient.exists`, whose handler turns every exception into `False`. -/
def redisExists (key : Str) (k : Bool → Coroutine F Hd Out) : Coroutine F Hd Out :=
  match utf8Encode (checker.redisTenant.prefixKey key) with
  | .error _ => k false
  | .ok _ => .call (.redisExists (checker.redisTenant.prefixKey key)) fun r => k r.isTrue

/-- `AsyncRedisClient.set` with its arguments bound; an exception is turned into `None`. -/
def redisSet (bound : Bound (PyValue F)) (k : Coroutine F Hd Out) : Coroutine F Hd Out :=
  match bound.values with
  | [some (.str key), some (.str value), ttl] =>
    match utf8Encode (checker.redisTenant.prefixKey key), utf8Encode value with
    | .ok _, .ok _ =>
      .call (.redisSet (checker.redisTenant.prefixKey key) value
        (match ttl with
        | some (.int n) => n
        | _ => 0)) fun _ => k
    | _, _ => k
  | _ => k

/-- `_ensure_pg_table`. -/
def ensurePgTable (k : Coroutine F Hd Out) : Coroutine F Hd Out :=
  .call .isTableEnsured fun r =>
    if r.isTrue then k
    else
      .call (.pgExecute createTableSql) fun _ =>
      .call (.pgExecute createIndexSql) fun _ =>
      .call .markTableEnsured fun _ => k

/-- `is_processed`. Binding the arguments of the client's method is part of it. -/
def isProcessed (eventId : Str) (k : Except PyError Bool → Coroutine F Hd Out) :
    Coroutine F Hd Out :=
  match checker.storage with
  | .memory => .call (.isCached eventId) fun r => k (.ok r.isTrue)
  | .redis =>
    match redisMethods.call (lit "exists")
        [(.str (redisKeyPrefix ++ eventId) : PyValue F)] [] with
    | .error e => k (.error e)
    | .ok _ => checker.redisExists (redisKeyPrefix ++ eventId) fun b => k (.ok b)
  | .postgres =>
    ensurePgTable <|
      match postgresMethods.call (lit "query_one")
          [(.str selectSql : PyValue F), .str eventId] [] with
      | .error e => k (.error e)
      | .ok _ => .call (.pgExecute selectSql) fun r => k (.ok r.isTrue)
  | .unknown => k (.ok false)

/-- The JSON text `mark_processed` stores in Redis, for the result `None`. -/
def redisValue (now : Instant) : Except PyError Str :=
  (PyValue.dict [(lit "processed_at", .str (isoformat now)), (lit "result", .none)] :
    PyValue F).dumps

/-- `mark_processed(event_id)`. -/
def markProcessed (eventId : Str) (k : Except PyError Unit → Coroutine F Hd Out) :
    Coroutine F Hd Out :=
  match checker.storage with
  | .memory => .call (.markCached eventId checker.maxCacheSize) fun _ => k (.ok ())
  | .redis =>
    .call .clock fun r =>
      match redisValue (F := F) r.toTime with
      | .error e => k (.error e)
      | .ok value =>
        match redisMethods.call (lit "set") [.str (redisKeyPrefix ++ eventId), .str value]
            [(lit "ex", (.int checker.ttlSeconds : PyValue F))] with
        | .error e => k (.error e)
        | .ok bound => checker.redisSet bound (k (.ok ()))
  | .postgres =>
    ensurePgTable <| .call .clock fun r =>
      match postgresMethods.call (lit "execute") [(.str insertSql : PyValue F), .str eventId,
          .datetime ⟨r.toTime, some 0⟩, .none] [] with
      | .error e => k (.error e)
      | .ok _ => .call (.pgExecute insertSql) fun _ => k (.ok ())
  | .unknown => k (.ok ())

end IdempotencyChecker

/-! ## `process_event` -/

/-- The counters of the subscriber, or what one call adds to them. -/
structure Metrics where
  eventsReceived : Nat
  eventsProcessed : Nat
  eventsFailed : Nat
  eventsSkippedDuplicate : Nat
  deriving DecidableEq, Repr

/-- What `process_event` returns and adds to the metrics. -/
structure Report where
  result : Bool
  metrics : Metrics
  deriving DecidableEq, Repr

def Report.failed : Report := ⟨false, ⟨1, 0, 1, 0⟩⟩
def Report.skipped : Report := ⟨true, ⟨1, 0, 0, 1⟩⟩
def Report.unhandled : Report := ⟨false, ⟨1, 0, 0, 0⟩⟩
def Report.processed : Report := ⟨true, ⟨1, 1, 0, 0⟩⟩

namespace Subscriber
variable (sub : Subscriber Hd)

/-- `_execute_with_retry` with `left` attempts to go. -/
def executeFrom (handler : Hd) (event : Event F) (k : Bool → Coroutine F Hd Out) :
    Nat → Nat → Coroutine F Hd Out
  | 0, _ => k false
  | left + 1, attempt =>
    .call (.handle handler event) fun r =>
      if r.toOutcome = .success then k true
      else if (attempt : Int) < sub.retryPolicy.maxRetries then
        .call (.sleep (sub.retryPolicy.getDelay attempt)) fun _ =>
          executeFrom handler event k left (attempt + 1)
      else executeFrom handler event k left (attempt + 1)

/-- The length of `range(max_retries + 1)`. -/
def attempts : Nat := (sub.retryPolicy.maxRetries + 1).toNat

def executeWithRetry (handler : Hd) (event : Event F) (k : Bool → Coroutine F Hd Out) :
    Coroutine F Hd Out := sub.executeFrom handler event k sub.attempts 0

/-- After the handler succeeded. -/
def finish (event : Event F) : Coroutine F Hd Report :=
  if event.eventId = [] then .ret .processed
  else
    sub.idempotency.markProcessed event.eventId fun r =>
      match r with
      | .ok () => .ret .processed
      | .error _ => .ret .failed

def maxRetriesExceeded : Str := lit "max_retries_exceeded"

/-- After the last attempt failed. -/
def giveUp (event : Event F) (subject : Str) : Coroutine F Hd Report :=
  .call (.moveToDlq sub.serviceName event subject maxRetriesExceeded) fun _ => .ret .failed

def runHandler (event : Event F) (subject : Str) : Coroutine F Hd Report :=
  match sub.handlers.get event.eventType with
  | none => .ret .unhandled
  | some handler =>
    sub.executeWithRetry handler event fun success =>
      if success then sub.finish event else sub.giveUp event subject

/-- `process_event` on a message that was deserialized. -/
def processDecoded (event : Event F) (subject : Str) : Coroutine F Hd Report :=
  if event.eventId = [] then sub.runHandler event subject
  else
    sub.idempotency.isProcessed event.eventId fun r =>
      match r with
      | .error _ => .ret .failed
      | .ok true => .ret .skipped
      | .ok false => sub.runHandler event subject

variable [EventModels F]

def processEvent (nesting : Nat) (eventData : Bytes) (subject : Str) : Coroutine F Hd Report :=
  match deserializeEvent nesting eventData with
  | none => .ret .failed
  | some event => sub.processDecoded event subject

end Subscriber

end Pipeline

attribute [local instance] errorEventModels in
theorem processEvent_failedMessage {Hd : Type} (sub : Subscriber Hd) (subject : Str) :
    sub.processEvent (F := Unit) 10 failedMessage subject =
      sub.processDecoded failedEvent subject := by
  rw [Subscriber.processEvent, deserialize_failedMessage]

end IsaCloud.Events

/-! ## The dead letter queue stays empty

`_move_to_dlq` hands `json.dumps` the Python values of `model_dump()`. Every
event model has a `datetime` among them, for which `json.dumps` has no text, so
the record is never built: no call of `process_event` publishes anything, and an
event that exhausts its retries leaves no trace outside the log.
-/

namespace IsaCloud.Events

set_option autoImplicit false

open Support Support.Text Support.Python Support.Encoding Support.DateTime Support.IsoTime

section
variable {F H Hd : Type} [PyFloat F]

theorem dlqData_refused (serviceName : Str) (event : Event F) (subject reason : Str)
    (now : Instant) : (dlqData serviceName event subject reason now).Refused := by
  have hevent : (PyValue.dict event.modelDump).Refused :=
    PyValue.refused_dict event.timestamp_mem_modelDump (PyValue.refused_datetime event.timestamp)
  exact PyValue.refused_dict List.mem_cons_self hevent

theorem moveToDlq_eq (w : World F H) (serviceName : Str) (event : Event F)
    (subject reason : Str) : moveToDlq w serviceName event subject reason = w := by
  obtain ⟨e, he⟩ := dlqData_refused serviceName event subject reason w.now
  simp only [moveToDlq, dlqBytes, he]

variable (handle : Hd → Event F → H → H × Outcome)

theorem serve_published (w : World F H) (c : Cmd F Hd) :
    (serve handle w c).1.published = w.published := by
  cases c with
  | moveToDlq serviceName event subject reason =>
    show (moveToDlq w serviceName event subject reason).published = w.published
    rw [moveToDlq_eq]
  | _ => rfl

/-- No coroutine of the subscriber ever publishes. -/
theorem exec_published {Out : Type} (p : Coroutine F Hd Out) (w : World F H) :
    (p.exec (serve handle) w).1.published = w.published := by
  induction p generalizing w with
  | ret o => rfl
  | call c k ih =>
    rw [Proc.exec_call, ih]
    exact serve_published handle w c

/-- Between the two worlds one message was published: to the dead letter subject,
with a JSON object that has the fields of the event under `original_event`. -/
def DeadLettered (before after : World F H) (event : Event F) (subject : Str) : Prop :=
  ∃ (body : Bytes) (text : Str) (members fields : Members F) (nesting : Nat),
    after.published = before.published ++ [(dlqSubject subject, body)] ∧
    utf8Decode false body = .ok text ∧ Json.loads nesting text = .ok (.obj members) ∧
    Members.get members (lit "original_event") = some (.obj fields) ∧
    ∀ key ∈ event.modelDump.map Prod.fst, key ∈ Members.keys fields

variable [EventModels F]

theorem process_event_never_dead_letters (sub : Subscriber Hd) (nesting : Nat) (eventData : Bytes)
    (subject : Str) (event : Event F) (w : World F H) :
    ¬ DeadLettered w ((sub.processEvent nesting eventData subject).exec (serve handle) w).1 event
      subject := by
  rintro ⟨body, text, members, fields, limit, hpublished, -⟩
  rw [exec_published handle] at hpublished
  simpa using congrArg List.length hpublished

end

/-! ## A handler that always fails -/

section
attribute [local instance] errorEventModels

/-- A billing service that handles `billing.failed`, with the default policy and
the in-memory store. -/
def billingService : Subscriber Unit where
  serviceName := lit "billing_service"
  idempotency := ⟨.memory, 10000, 86400, ⟨lit "default-org", lit "default"⟩⟩
  retryPolicy := ⟨3, 1, 60, true⟩
  handlers := Dict.empty.set (lit "billing.failed") ()

def alwaysFails (_ : Unit) (_ : Event Unit) (_ : Unit) : Unit × Outcome := ((), .failure)

/-- Four attempts fail, the call reports a failure, and nothing is published. -/
theorem exhausted_event_is_dropped :
    (∀ e h, (alwaysFails () e h).2 = .failure) ∧
    deserializeEvent 10 failedMessage = some (failedEvent (F := Unit)) ∧
    ((billingService.processEvent 10 failedMessage (lit "billing.failed")).exec (serve alwaysFails)
      (.start 0 ())).2 = .failed ∧
    (((billingService.processEvent 10 failedMessage (lit "billing.failed")).exec (serve alwaysFails)
      (.start 0 ())).1.calls.map Prod.snd) = [.failure, .failure, .failure, .failure] ∧
    ¬ DeadLettered (.start 0 ())
      ((billingService.processEvent 10 failedMessage (lit "billing.failed")).exec
        (serve alwaysFails) (.start 0 ())).1 (failedEvent (F := Unit)) (lit "billing.failed") := by
  refine ⟨fun _ _ => rfl, deserialize_failedMessage, ?_, ?_, ?_⟩
  · rw [processEvent_failedMessage]
    decide
  · rw [processEvent_failedMessage]
    decide
  · rintro ⟨body, text, members, fields, limit, hpublished, -⟩
    rw [exec_published alwaysFails] at hpublished
    simpa using congrArg List.length hpublished

end

end IsaCloud.Events
