import IsaCloud.Cache.Isolation
import IsaCloud.Cache.RedisClient
import IsaCloud.Events.StreamSubjects

/-!
# A batch is its commands one by one

`execute_batch` queues its commands in a pipeline, which the server runs as one
transaction: all of them, even after one has failed, and nothing in between. What
is left behind is what the methods of the client leave behind one after the other;
the answer says only whether every command went through.
-/

namespace IsaCloud.Cache

set_option autoImplicit false

open Support Support.Text Support.Python Support.Encoding Support.Redis
open Events (UpperCase upper)

/-- A command of a batch; the dictionary may lack any of its entries. -/
structure BatchCommand where
  operation : Option Str := none
  key : Option Str := none
  value : Option Str := none
  expiration : Option Int := none

/-- What the pipeline holds. -/
inductive Queued where
  | setex (key : Str) (seconds : Int) (value : Str)
  | set (key value : Str)
  | get (key : Str)
  | delete (key : Str)
  | incrby (key : Str) (amount : Int)
  | decrby (key : Str) (amount : Int)

structure BatchResult where
  success : Bool
  executedCount : Nat
  errors : List Str
  deriving DecidableEq

section Batch
variable [UpperCase] (t : Tenant)

/-- One pass through the loop; an unknown operation queues nothing. -/
def BatchCommand.enqueue (cmd : BatchCommand) : Option Queued :=
  let op := upper (cmd.operation.getD [])
  let key := t.prefixKey (cmd.key.getD [])
  let value := cmd.value.getD []
  if op = lit "SET" then
    match cmd.expiration with
    | none => some (.set key value)
    | some expiration => if expiration ≠ 0 then some (.setex key expiration value) else some (.set key value)
  else if op = lit "GET" then some (.get key)
  else if op = lit "DELETE" then some (.delete key)
  else if op = lit "INCR" then some (.incrby key 1)
  else if op = lit "DECR" then some (.decrby key 1)
  else none

/-- The texts that are encoded before anything is sent. -/
def Queued.texts : Queued → List Str
  | .setex key _ value => [key, value]
  | .set key value => [key, value]
  | .get key => [key]
  | .delete key => [key]
  | .incrby key _ => [key]
  | .decrby key _ => [key]

/-- Of the reply only a failure is read. -/
def failureOf {R : Type} : Except Failure R → Option Failure
  | .ok _ => none
  | .error e => some e

def outcome {R : Type} (p : Except Failure R × Server Str Data) : Option Failure × Server Str Data :=
  (failureOf p.1, p.2)

def Queued.serve (s : Server Str Data) : Queued → Option Failure × Server Str Data
  | .setex key seconds value => outcome (s.onKey key (Redis.setex s.now seconds value))
  | .set key value => outcome (s.onKey key (Redis.set value))
  | .get key => outcome (s.onKey key Redis.get)
  | .delete key => outcome (s.onKey key Redis.del)
  | .incrby key amount => outcome (s.onKey key (Redis.incrby amount))
  | .decrby key amount => outcome (s.onKey key (Redis.decrby amount))

/-- `EXEC`: a command that fails does not stop the others. -/
def exec (s : Server Str Data) : List Queued → List (Option Failure) × Server Str Data
  | [] => ([], s)
  | q :: qs => ((q.serve s).1 :: (exec (q.serve s).2 qs).1, (exec (q.serve s).2 qs).2)

/-- `pipe.execute()` raises the first failure after the transaction; the method turns that into `None`. -/
def executeBatch (s : Server Str Data) (commands : List BatchCommand) : Option BatchResult × Server Str Data :=
  let pipe := commands.filterMap (BatchCommand.enqueue t)
  if pipe.all fun q => q.texts.all encodable then
    let results := exec s pipe
    (if results.1.all Option.isNone then some ⟨true, results.1.length, []⟩ else none, results.2)
  else (none, s)

end Batch

/-! ## Methods stay on the tenant's keys -/

section Methods
variable {t : Tenant}

def Tenant.Owned (t : Tenant) (k : Str) : Prop := t.owns k = true

theorem Tenant.owned_prefixKey (t : Tenant) (key : Str) : t.Owned (t.prefixKey key) := t.owns_prefixKey key

theorem onKeys_send {R : Type} {D : Str → Prop} {k : Str} (hk : D k) (texts : List Str)
    (command : Nat → Slot → Except Failure R × Slot) (failed : RedisReply) (reply : R → RedisReply) :
    OnKeys D fun s => send s k texts (command s.now) failed reply where
  frame hother := by
    unfold send
    split
    · exact (OnKeys.onKey hk (command _)).frame hother
    · exact .refl _ _
  clock s := by
    unfold send
    split <;> rfl
  reply {s t} h := by
    have hreply := (OnKeys.onKey hk (command t.now)).reply h
    unfold send
    rw [h.1]
    split
    · simp only [hreply]
    · rfl
  effect h := by
    unfold send
    rw [h.1]
    split
    · exact (OnKeys.onKey hk (command _)).effect h
    · exact h

theorem onKeys_sendAll {D : Str → Prop} {entries : List (Str × Str)} (h : ∀ e ∈ entries, D e.1)
    (command : Str → Slot → Except Failure Unit × Slot) : OnKeys D fun s => ((), sendAll s entries command) := by
  induction entries with
  | nil => exact .pure ()
  | cons e entries ih =>
    have hrest := ih fun e' he' => h e' (List.mem_cons_of_mem _ he')
    exact (OnKeys.onKey (h e List.mem_cons_self) (command e.2)).bind fun _ => hrest

theorem owned_of_mem_prefixed {keyValues : Dict Str Str} : ∀ e ∈ (prefixed t keyValues).entries, t.Owned e.1 := by
  have hfold : ∀ (es : List (Str × Str)) (d : Dict Str Str), (∀ k ∈ d.keys, t.Owned k) →
      ∀ k ∈ (es.foldl (fun d e => d.set (t.prefixKey e.1) e.2) d).keys, t.Owned k := by
    intro es
    induction es with
    | nil => exact fun d h => h
    | cons e es ih =>
      intro d h
      refine ih _ fun k hk => ?_
      rw [Dict.mem_keys, Dict.get_set] at hk
      split at hk
      · rename_i he
        rw [he]
        exact t.owned_prefixKey e.1
      · exact h k (Dict.mem_keys.mpr hk)
  intro e he
  have hnone : ∀ k ∈ (Dict.empty : Dict Str Str).keys, t.Owned k := by
    intro k hk
    rw [Dict.keys_empty] at hk
    cases hk
  exact hfold keyValues.entries Dict.empty hnone e.1 (List.mem_map_of_mem he)

theorem onKeys_performMset (keyValues : Dict Str Str) (ttlSeconds : Int) :
    OnKeys t.Owned fun s => RedisOp.performMset t s keyValues ttlSeconds := by
  unfold RedisOp.performMset
  simp only
  have hall := @onKeys_sendAll t.Owned (prefixed t keyValues).entries owned_of_mem_prefixed
  split
  · split
    · split
      · exact .pure _
      · have hsend : ∀ now, OnKeys t.Owned fun s =>
            if validExpire now ttlSeconds then
              (RedisReply.bool true, sendAll s (prefixed t keyValues).entries fun v => setex now ttlSeconds v)
            else (.none, s) := by
          intro now
          split
          · exact (hall _).map fun _ => RedisReply.bool true
          · exact .pure _
        exact OnKeys.read (fun h => h.1) hsend
    · split
      · exact .pure _
      · exact (hall _).map fun _ => RedisReply.bool true
  · exact .pure _

theorem onKeys_performMget (keys : List Str) : OnKeys t.Owned fun s => (RedisOp.performMget t s keys, s) where
  frame _ := .refl _ _
  clock _ := rfl
  reply h := by
    simp only [RedisOp.performMget, h.lookup (t.owned_prefixKey _)]
  effect h := h

/-- A method of a tenant's client looks at the tenant's keys and writes no other. -/
theorem onKeys_perform (op : RedisOp) : OnKeys t.Owned fun s => op.perform t s := by
  have hkey := t.owned_prefixKey
  cases op with
  | set key value ttlSeconds =>
    simp only [RedisOp.perform]
    split
    · exact onKeys_send (hkey key) [value] (fun now => setex now ttlSeconds value) _ _
    · exact onKeys_send (hkey key) [value] (fun _ => Redis.set value) _ _
  | get key => exact onKeys_send (hkey key) [] (fun _ => Redis.get) _ _
  | delete key => exact onKeys_send (hkey key) [] (fun _ => del) .none fun n => .bool (decide (0 < n))
  | existsKey key => exact onKeys_send (hkey key) [] (fun _ => exist) (.bool false) fun n => .bool (decide (0 < n))
  | mset keyValues ttlSeconds => exact onKeys_performMset keyValues ttlSeconds
  | mget keys => exact onKeys_performMget keys
  | incr key delta => exact onKeys_send (hkey key) [] (fun _ => incrby delta) _ _
  | decr key delta => exact onKeys_send (hkey key) [] (fun _ => decrby delta) _ _
  | expire key seconds => exact onKeys_send (hkey key) [] (fun now => Redis.expire now seconds) _ _
  | ttl key => exact onKeys_send (hkey key) [] (fun now => Redis.ttl now) _ _
  | lpush key values => exact onKeys_send (hkey key) values (fun _ => Redis.lpush values) _ _
  | rpush key values => exact onKeys_send (hkey key) values (fun _ => Redis.rpush values) _ _
  | lrange key start stop => exact onKeys_send (hkey key) [] (fun _ => Redis.lrange start stop) _ _
  | llen key => exact onKeys_send (hkey key) [] (fun _ => Redis.llen) _ _
  | hset key field value => exact onKeys_send (hkey key) [field, value] (fun _ => Redis.hset field value) _ _
  | hget key field => exact onKeys_send (hkey key) [field] (fun _ => Redis.hget field) _ _
  | hgetall key => exact onKeys_send (hkey key) [] (fun _ => Redis.hgetall) _ _

end Methods

/-! ## Calls of several tenants -/

/-- `DEL` of several keys: how many of them there were. -/
def delEach (s : Server Str Data) : List Str → Int × Server Str Data
  | [] => (0, s)
  | key :: keys =>
    let first := s.onKey key fun slot => (if slot.isSome then (1 : Int) else 0, (none : Slot))
    (first.1 + (delEach first.2 keys).1, (delEach first.2 keys).2)

/-- Without any key the command is an error. -/
def deleteMultiple (t : Tenant) (s : Server Str Data) (keys : List Str) : RedisReply × Server Str Data :=
  let prefixedKeys := keys.map t.prefixKey
  if prefixedKeys.all encodable && !prefixedKeys.isEmpty then
    (.int (delEach s prefixedKeys).1, (delEach s prefixedKeys).2)
  else (.none, s)

/-- `RENAME` takes the value with its deadline, over what was there; a key that is not there is an error. -/
def rename (t : Tenant) (s : Server Str Data) (oldKey newKey : Str) : RedisReply × Server Str Data :=
  if encodable (t.prefixKey oldKey) && encodable (t.prefixKey newKey) then
    match s.lookup (t.prefixKey oldKey) with
    | none => (.none, s)
    | some e =>
      let taken := (s.onKey (t.prefixKey oldKey) fun _ => ((), none)).2
      (.bool true, (taken.onKey (t.prefixKey newKey) fun _ => ((), some e)).2)
  else (.none, s)

inductive ClientCall where
  | method (op : RedisOp)
  | deleteMultiple (keys : List Str)
  | rename (oldKey newKey : Str)
  | executeBatch (commands : List BatchCommand)

inductive ClientAnswer where
  | reply (r : RedisReply)
  | batch (result : Option BatchResult)

section Calls
variable [UpperCase]

def ClientCall.perform (t : Tenant) (s : Server Str Data) : ClientCall → ClientAnswer × Server Str Data
  | .method op => (.reply (op.perform t s).1, (op.perform t s).2)
  | .deleteMultiple keys => (.reply (Cache.deleteMultiple t s keys).1, (Cache.deleteMultiple t s keys).2)
  | .rename oldKey newKey => (.reply (Cache.rename t s oldKey newKey).1, (Cache.rename t s oldKey newKey).2)
  | .executeBatch commands => (.batch (Cache.executeBatch t s commands).1, (Cache.executeBatch t s commands).2)

/-- One call of some tenant. -/
def serveCall (s : Server Str Data) (call : Tenant × ClientCall) : Server Str Data := (call.2.perform call.1 s).2

/-- The method that does what the command does. A `SET` with a negative expiration is refused and has none. -/
def BatchCommand.method (cmd : BatchCommand) : Option RedisOp :=
  let op := upper (cmd.operation.getD [])
  let key := cmd.key.getD []
  if op = lit "SET" then
    match cmd.expiration with
    | none => some (.set key (cmd.value.getD []) 0)
    | some expiration => if expiration < 0 then none else some (.set key (cmd.value.getD []) expiration)
  else if op = lit "GET" then some (.get key)
  else if op = lit "DELETE" then some (.delete key)
  else if op = lit "INCR" then some (.incr key 1)
  else if op = lit "DECR" then some (.decr key 1)
  else none

/-- Every text of the batch can be sent. -/
def Sendable (t : Tenant) (commands : List BatchCommand) : Prop :=
  ∀ cmd ∈ commands, ∀ q, cmd.enqueue t = some q → ∀ text ∈ q.texts, encodable text = true

instance (t : Tenant) (commands : List BatchCommand) : Decidable (Sendable t commands) :=
  decidable_of_iff (((commands.filterMap (BatchCommand.enqueue t)).all fun q => q.texts.all encodable) = true) (by
    simp only [Sendable, List.all_eq_true, List.mem_filterMap]
    constructor
    · exact fun h cmd hcmd q hq => h q ⟨cmd, hcmd, hq⟩
    · rintro h q ⟨cmd, hcmd, hq⟩
      exact h cmd hcmd q hq)

/-- The methods in the place of a batch. -/
def unfolded : Tenant × ClientCall → List (Tenant × ClientCall)
  | (t, .executeBatch commands) =>
    if Sendable t commands then (commands.filterMap BatchCommand.method).map fun op => (t, .method op) else []
  | call => [call]

/-- What the server does not refuse. -/
def Queued.Accepted (s : Server Str Data) : Queued → Prop
  | .setex _ seconds _ => 0 < seconds ∧ validExpire s.now seconds = true
  | .set _ _ => True
  | .get key => ∀ e, s.lookup key = some e → ∃ v, e.value = .string v
  | .delete _ => True
  | .incrby key amount => int64 amount = true ∧ ∃ n, current (s.lookup key) = .ok n ∧ int64 (n + amount) = true
  | .decrby key amount =>
    int64 amount = true ∧ amount ≠ -(2 ^ 63) ∧ ∃ n, current (s.lookup key) = .ok n ∧ int64 (n - amount) = true

end Calls

/-! ## The transaction -/

section Transaction
variable {t : Tenant} {s : Server Str Data}

theorem outcome_none_iff {R : Type} {p : Except Failure R × Server Str Data} :
    (outcome p).1 = none ↔ ∃ r, p.1 = .ok r := by
  rcases p with ⟨_ | _, _⟩ <;> simp [outcome, failureOf]

theorem not_ok_of_error {R : Type} {f : Failure} : ¬ ∃ r, (Except.error f : Except Failure R) = .ok r := by
  rintro ⟨r, hr⟩
  cases hr

theorem incrby_ok_iff {n : Int} {slot : Slot} : (∃ r, (incrby n slot).1 = .ok r) ↔
    int64 n = true ∧ ∃ m, current slot = .ok m ∧ int64 (m + n) = true := by
  rw [incrby]
  cases int64 n with
  | false => simp
  | true =>
    rw [if_pos rfl]
    cases hcurrent : current slot with
    | error e => simp
    | ok m =>
      cases hsum : int64 (m + n) <;> simp [hsum]

theorem accepted_iff (q : Queued) : (q.serve s).1 = none ↔ q.Accepted s := by
  cases q with
  | setex key seconds value =>
    rw [Queued.serve, outcome_none_iff, Server.onKey, setex, Queued.Accepted]
    split
    · rename_i h
      exact iff_of_true ⟨_, rfl⟩ h
    · rename_i h
      exact iff_of_false not_ok_of_error h
  | set key value => exact iff_of_true rfl trivial
  | get key =>
    rw [Queued.serve, outcome_none_iff, Server.onKey, Queued.Accepted]
    cases s.lookup key with
    | none => exact iff_of_true ⟨_, rfl⟩ (by simp)
    | some e =>
      rcases e with ⟨v | l | fields, deadline⟩
      · exact iff_of_true ⟨_, rfl⟩ (by simp)
      · exact iff_of_false not_ok_of_error (by simp)
      · exact iff_of_false not_ok_of_error (by simp)
  | delete key => exact iff_of_true rfl trivial
  | incrby key amount => exact outcome_none_iff.trans incrby_ok_iff
  | decrby key amount =>
    rw [Queued.serve, outcome_none_iff, Server.onKey, decrby, Queued.Accepted]
    by_cases hfits : int64 amount = true ∧ amount ≠ -(2 ^ 63)
    · have hneg : int64 (-amount) = true := by
        have h := hfits.1
        simp only [int64, decide_eq_true_eq] at h ⊢
        omega
      simp only [hfits.1, hfits.2, ne_eq, not_false_eq_true, decide_true, Bool.and_self, if_true, true_and]
      rw [incrby_ok_iff]
      simp only [hneg, true_and, Int.sub_eq_add_neg]
    · have hrefused : ¬ ((int64 amount && decide (amount ≠ -(2 ^ 63))) = true) := by simpa using hfits
      rw [if_neg hrefused]
      exact iff_of_false not_ok_of_error fun h => hfits ⟨h.1, h.2.1⟩

theorem send_server {R : Type} {k : Str} {texts : List Str} {command : Slot → Except Failure R × Slot}
    {failed : RedisReply} {reply : R → RedisReply} (h : ∀ text ∈ k :: texts, encodable text = true) :
    (send s k texts command failed reply).2 = (s.onKey k command).2 := by
  rw [send, if_pos (List.all_eq_true.mpr h)]

def runMethods (t : Tenant) (s : Server Str Data) (ops : List RedisOp) : Server Str Data :=
  run (fun s op => (RedisOp.perform t s op).2) s ops

/-- A queued command and the method in its place. -/
inductive Means (t : Tenant) : Option Queued → Option RedisOp → Prop where
  | set (key value : Str) : Means t (some (.set (t.prefixKey key) value)) (some (.set key value 0))
  | setex (key value : Str) {expiration : Int} (h : 0 < expiration) :
      Means t (some (.setex (t.prefixKey key) expiration value)) (some (.set key value expiration))
  | refused (key value : Str) {expiration : Int} (h : expiration < 0) :
      Means t (some (.setex (t.prefixKey key) expiration value)) none
  | get (key : Str) : Means t (some (.get (t.prefixKey key))) (some (.get key))
  | delete (key : Str) : Means t (some (.delete (t.prefixKey key))) (some (.delete key))
  | incr (key : Str) : Means t (some (.incrby (t.prefixKey key) 1)) (some (.incr key 1))
  | decr (key : Str) : Means t (some (.decrby (t.prefixKey key) 1)) (some (.decr key 1))
  | unknown : Means t none none

variable [UpperCase]

theorem BatchCommand.means (t : Tenant) (cmd : BatchCommand) : Means t (cmd.enqueue t) cmd.method := by
  unfold BatchCommand.enqueue BatchCommand.method
  by_cases hset : upper (cmd.operation.getD []) = lit "SET"
  · simp only [hset, if_true]
    cases cmd.expiration with
    | none => exact .set _ _
    | some expiration =>
      rcases lt_trichotomy expiration 0 with hneg | rfl | hpos
      · simp only [hneg.ne, ne_eq, not_false_eq_true, if_true, hneg]
        exact .refused _ _ hneg
      · exact .set _ _
      · simp only [hpos.ne', ne_eq, not_false_eq_true, if_true, not_lt.mpr hpos.le, if_false]
        exact .setex _ _ hpos
  · simp only [hset, if_false]
    split
    · exact .get _
    · split
      · exact .delete _
      · split
        · exact .incr _
        · split
          · exact .decr _
          · exact .unknown

omit [UpperCase] in
theorem Means.of_unknown {op : Option RedisOp} (h : Means t none op) : op = none := by
  cases h
  rfl

omit [UpperCase] in
/-- A command leaves what its method leaves; a refused `SET` leaves everything as it was. -/
theorem Means.serve {q : Queued} {op : Option RedisOp} (h : Means t (some q) op)
    (htexts : ∀ text ∈ q.texts, encodable text = true) (s : Server Str Data) :
    AgreeOn (fun _ => True) (q.serve s).2 (runMethods t s op.toList) := by
  have hsame : ∀ {R : Type} {k : Str} (texts : List Str) (command : Slot → Except Failure R × Slot)
      (failed : RedisReply) (reply : R → RedisReply), (∀ text ∈ k :: texts, encodable text = true) →
      AgreeOn (fun _ => True) (outcome (s.onKey k command)).2 (send s k texts command failed reply).2 := by
    intro R k texts command failed reply h
    rw [send_server h]
    exact .refl _
  cases h with
  | set key value =>
    simp only [Option.toList, runMethods, run, List.foldl, RedisOp.perform, lt_irrefl, if_false]
    exact hsame [value] _ _ _ htexts
  | setex key value hpos =>
    simp only [Option.toList, runMethods, run, List.foldl, RedisOp.perform, if_pos hpos]
    exact hsame [value] _ _ _ htexts
  | refused key value hneg =>
    have hslot : (Redis.setex s.now _ value (s.lookup (t.prefixKey key))).2 = s.lookup (t.prefixKey key) :=
      congrArg Prod.snd (if_neg fun h => absurd h.1 (not_lt.mpr hneg.le))
    exact ⟨rfl, fun k _ => ⟨rfl, lookup_onKey_same s hslot k⟩⟩
  | get key => exact hsame [] _ _ _ htexts
  | delete key => exact hsame [] _ _ _ htexts
  | incr key => exact hsame [] _ _ _ htexts
  | decr key => exact hsame [] _ _ _ htexts

omit [UpperCase] in
theorem everywhere_perform (op : RedisOp) : OnKeys (fun _ => True) fun s => op.perform t s :=
  (onKeys_perform op).mono fun _ _ => trivial

omit [UpperCase] in
theorem agree_runMethods {s s' : Server Str Data} (h : AgreeOn (fun _ => True) s s') (ops : List RedisOp) :
    AgreeOn (fun _ => True) (runMethods t s ops) (runMethods t s' ops) := by
  induction ops generalizing s s' with
  | nil => exact h
  | cons op ops ih => exact ih ((everywhere_perform op).effect h)

theorem enqueue_cons {cmd : BatchCommand} {commands : List BatchCommand} :
    (cmd :: commands).filterMap (BatchCommand.enqueue t) =
      (cmd.enqueue t).toList ++ commands.filterMap (BatchCommand.enqueue t) := by
  rw [List.filterMap_cons]
  cases cmd.enqueue t <;> rfl

theorem method_cons {cmd : BatchCommand} {commands : List BatchCommand} :
    (cmd :: commands).filterMap BatchCommand.method = cmd.method.toList ++ commands.filterMap BatchCommand.method := by
  rw [List.filterMap_cons]
  cases cmd.method <;> rfl

omit [UpperCase] in
theorem runMethods_append (s : Server Str Data) (ops more : List RedisOp) :
    runMethods t s (ops ++ more) = runMethods t (runMethods t s ops) more := run_append _ s ops more

theorem Sendable.of_cons {cmd : BatchCommand} {commands : List BatchCommand} (h : Sendable t (cmd :: commands)) :
    Sendable t commands := fun c hc => h c (List.mem_cons_of_mem _ hc)

/-- The transaction leaves what the methods leave one after the other. -/
theorem exec_as_methods {commands : List BatchCommand} (h : Sendable t commands) (s : Server Str Data) :
    AgreeOn (fun _ => True) (exec s (commands.filterMap (BatchCommand.enqueue t))).2
      (runMethods t s (commands.filterMap BatchCommand.method)) := by
  induction commands generalizing s with
  | nil => exact .refl s
  | cons cmd commands ih =>
    rw [enqueue_cons, method_cons, runMethods_append]
    have hmeans := cmd.means t
    cases hq : cmd.enqueue t with
    | none =>
      rw [hq] at hmeans
      rw [hmeans.of_unknown]
      exact ih h.of_cons s
    | some q =>
      rw [hq] at hmeans
      have hstep := hmeans.serve (h cmd List.mem_cons_self q hq) s
      exact (ih h.of_cons (q.serve s).2).trans (agree_runMethods hstep _)

omit [UpperCase] in
theorem Queued.Accepted.congr {s s' : Server Str Data} (h : AgreeOn (fun _ => True) s s') (q : Queued) :
    q.Accepted s ↔ q.Accepted s' := by
  have hlookup : ∀ k, s.lookup k = s'.lookup k := fun k => h.lookup trivial
  cases q <;> simp only [Queued.Accepted, h.1, hlookup]

/-- Every command went through: each was accepted where the methods before it had led. -/
theorem exec_ok_iff {commands : List BatchCommand} (h : Sendable t commands) (s : Server Str Data) :
    (exec s (commands.filterMap (BatchCommand.enqueue t))).1.all Option.isNone = true ↔
      ∀ pre cmd post q, commands = pre ++ cmd :: post → cmd.enqueue t = some q →
        q.Accepted (runMethods t s (pre.filterMap BatchCommand.method)) := by
  induction commands generalizing s with
  | nil => simp [exec]
  | cons cmd commands ih =>
    have hsplit : (∀ pre c post q, cmd :: commands = pre ++ c :: post → c.enqueue t = some q →
          q.Accepted (runMethods t s (pre.filterMap BatchCommand.method))) ↔
        (∀ q, cmd.enqueue t = some q → q.Accepted s) ∧
          ∀ pre c post q, commands = pre ++ c :: post → c.enqueue t = some q →
            q.Accepted (runMethods t (runMethods t s cmd.method.toList) (pre.filterMap BatchCommand.method)) := by
      constructor
      · intro hall
        refine ⟨fun q hq => hall [] cmd commands q rfl hq, ?_⟩
        rintro pre c post q rfl hq
        rw [← runMethods_append, ← method_cons]
        exact hall (cmd :: pre) c post q rfl hq
      · rintro ⟨hfirst, hrest⟩ pre c post q hlist hq
        cases pre with
        | nil =>
          obtain ⟨rfl, rfl⟩ := List.cons.inj hlist
          exact hfirst q hq
        | cons p pre =>
          obtain ⟨rfl, rfl⟩ := List.cons.inj hlist
          rw [method_cons, runMethods_append]
          exact hrest pre c post q rfl hq
    rw [hsplit, enqueue_cons]
    have hmeans := cmd.means t
    cases hq : cmd.enqueue t with
    | none =>
      rw [hq] at hmeans
      rw [hmeans.of_unknown]
      simp only [Option.toList, List.nil_append, reduceCtorEq, false_implies, implies_true, true_and]
      exact ih h.of_cons s
    | some q =>
      rw [hq] at hmeans
      have hstep := hmeans.serve (h cmd List.mem_cons_self q hq) s
      simp only [Option.toList, List.singleton_append, exec, List.all_cons, Bool.and_eq_true, Option.isNone_iff_eq_none,
        accepted_iff, Option.some.injEq, forall_eq']
      refine and_congr_right fun _ => (ih h.of_cons (q.serve s).2).trans ?_
      refine forall_congr' fun pre => forall_congr' fun c => forall_congr' fun post => forall_congr' fun q' => ?_
      refine imp_congr_right fun _ => imp_congr_right fun _ => ?_
      exact Queued.Accepted.congr (agree_runMethods hstep _) q'

end Transaction

/-! ## Every call stays on the tenant's keys -/

section Calls
variable [UpperCase] {t : Tenant}

omit [UpperCase] in
theorem onKeys_exec {pipe : List Queued} (h : ∀ q ∈ pipe, OnKeys t.Owned fun s => q.serve s) :
    OnKeys t.Owned fun s => exec s pipe := by
  induction pipe with
  | nil => exact .pure []
  | cons q pipe ih =>
    have hrest := ih fun q' hq' => h q' (List.mem_cons_of_mem _ hq')
    exact (h q List.mem_cons_self).bind fun first => hrest.map fun results => first :: results

theorem onKeys_queued {cmd : BatchCommand} {q : Queued} (hq : cmd.enqueue t = some q) :
    OnKeys t.Owned fun s => q.serve s := by
  have hkey := t.owned_prefixKey
  have hmeans := cmd.means t
  rw [hq] at hmeans
  have hserve : ∀ {R : Type} {k : Str} (command : Slot → Except Failure R × Slot), t.Owned k →
      OnKeys t.Owned fun s => outcome (s.onKey k command) := fun command hk => (OnKeys.onKey hk command).map failureOf
  have hsetex : ∀ key seconds value, OnKeys t.Owned fun s =>
      (Queued.setex (t.prefixKey key) seconds value).serve s := fun key seconds value =>
    OnKeys.read (fun h => h.1) fun now => hserve (Redis.setex now seconds value) (hkey key)
  generalize cmd.method = op at hmeans
  cases hmeans with
  | set key value => exact hserve _ (hkey key)
  | setex key value _ => exact hsetex key _ value
  | refused key value _ => exact hsetex key _ value
  | get key => exact hserve _ (hkey key)
  | delete key => exact hserve _ (hkey key)
  | incr key => exact hserve _ (hkey key)
  | decr key => exact hserve _ (hkey key)

theorem onKeys_executeBatch (commands : List BatchCommand) : OnKeys t.Owned fun s => executeBatch t s commands := by
  unfold executeBatch
  simp only
  split
  · refine (onKeys_exec ?_).map fun results =>
      if results.all Option.isNone then some (⟨true, results.length, []⟩ : BatchResult) else none
    intro q hq
    obtain ⟨cmd, _, hq⟩ := List.mem_filterMap.mp hq
    exact onKeys_queued hq
  · exact .pure none

omit [UpperCase] in
theorem onKeys_delEach {keys : List Str} (h : ∀ key ∈ keys, t.Owned key) : OnKeys t.Owned fun s => delEach s keys := by
  induction keys with
  | nil => exact .pure 0
  | cons key keys ih =>
    have hrest := ih fun k hk => h k (List.mem_cons_of_mem _ hk)
    exact (OnKeys.onKey (h key List.mem_cons_self) _).bind fun n => hrest.map fun m => n + m

omit [UpperCase] in
theorem onKeys_deleteMultiple (keys : List Str) : OnKeys t.Owned fun s => deleteMultiple t s keys := by
  unfold deleteMultiple
  simp only
  split
  · refine (onKeys_delEach ?_).map RedisReply.int
    intro k hk
    obtain ⟨key, _, rfl⟩ := List.mem_map.mp hk
    exact t.owned_prefixKey key
  · exact .pure RedisReply.none

omit [UpperCase] in
theorem onKeys_rename (oldKey newKey : Str) : OnKeys t.Owned fun s => rename t s oldKey newKey := by
  unfold rename
  split
  · have hmove : ∀ found : Slot, OnKeys t.Owned fun s =>
        found.elim (RedisReply.none, s) fun e =>
          (RedisReply.bool true, ((s.onKey (t.prefixKey oldKey) fun _ => ((), none)).2.onKey (t.prefixKey newKey)
            fun _ => ((), some e)).2) := by
      intro found
      cases found with
      | none => exact .pure RedisReply.none
      | some e =>
        have htake := OnKeys.onKey (t.owned_prefixKey oldKey) fun _ : Slot => ((), (none : Slot))
        have hput := OnKeys.onKey (t.owned_prefixKey newKey) fun _ : Slot => ((), some e)
        exact (htake.bind fun _ => hput).map fun _ => RedisReply.bool true
    have hread := OnKeys.read (fun h => h.lookup (t.owned_prefixKey oldKey)) hmove
    refine cast (congrArg (OnKeys t.Owned) (funext fun s => ?_)) hread
    cases s.lookup (t.prefixKey oldKey) <;> rfl
  · exact .pure RedisReply.none

theorem onKeys_call (call : ClientCall) : OnKeys t.Owned fun s => call.perform t s := by
  cases call with
  | method op => exact (onKeys_perform op).map ClientAnswer.reply
  | deleteMultiple keys => exact (onKeys_deleteMultiple keys).map ClientAnswer.reply
  | rename oldKey newKey => exact (onKeys_rename oldKey newKey).map ClientAnswer.reply
  | executeBatch commands => exact (onKeys_executeBatch commands).map ClientAnswer.batch

/-! ## Batches among other calls -/

theorem agree_serveCall {s s' : Server Str Data} (h : AgreeOn (fun _ => True) s s') (call : Tenant × ClientCall) :
    AgreeOn (fun _ => True) (serveCall s call) (serveCall s' call) :=
  ((onKeys_call call.2).mono fun _ _ => trivial).effect h

theorem agree_calls {s s' : Server Str Data} (h : AgreeOn (fun _ => True) s s') (calls : List (Tenant × ClientCall)) :
    AgreeOn (fun _ => True) (run serveCall s calls) (run serveCall s' calls) := by
  induction calls generalizing s s' with
  | nil => exact h
  | cons call calls ih => exact ih (agree_serveCall h call)

theorem run_methods (s : Server Str Data) (ops : List RedisOp) :
    run serveCall s (ops.map fun op => (t, ClientCall.method op)) = runMethods t s ops := by
  induction ops generalizing s with
  | nil => rfl
  | cons op ops ih => exact ih _

theorem executeBatch_of_sendable {commands : List BatchCommand} (h : Sendable t commands) (s : Server Str Data) :
    executeBatch t s commands =
      (if (exec s (commands.filterMap (BatchCommand.enqueue t))).1.all Option.isNone then
        some ⟨true, (exec s (commands.filterMap (BatchCommand.enqueue t))).1.length, []⟩ else none,
      (exec s (commands.filterMap (BatchCommand.enqueue t))).2) := by
  rw [executeBatch, if_pos]
  simp only [List.all_eq_true, List.mem_filterMap]
  rintro q ⟨cmd, hcmd, hq⟩
  exact h cmd hcmd q hq

theorem executeBatch_of_not_sendable {commands : List BatchCommand} (h : ¬ Sendable t commands)
    (s : Server Str Data) : executeBatch t s commands = (none, s) := by
  rw [executeBatch, if_neg]
  intro hall
  simp only [List.all_eq_true, List.mem_filterMap] at hall
  exact h fun cmd hcmd q hq => hall q ⟨cmd, hcmd, hq⟩

omit [UpperCase] in
theorem length_exec (s : Server Str Data) (pipe : List Queued) : (exec s pipe).1.length = pipe.length := by
  induction pipe generalizing s with
  | nil => rfl
  | cons q pipe ih => rw [exec, List.length_cons, List.length_cons, ih]

theorem serve_unfolded (s : Server Str Data) (call : Tenant × ClientCall) :
    AgreeOn (fun _ => True) (serveCall s call) (run serveCall s (unfolded call)) := by
  rcases call with ⟨t, call⟩
  cases call with
  | executeBatch commands =>
    by_cases hsend : Sendable t commands
    · simp only [serveCall, ClientCall.perform, executeBatch_of_sendable hsend, unfolded, if_pos hsend, run_methods]
      exact exec_as_methods hsend s
    · simp only [serveCall, ClientCall.perform, executeBatch_of_not_sendable hsend, unfolded, if_neg hsend]
      exact .refl s
  | method op => exact .refl _
  | deleteMultiple keys => exact .refl _
  | rename oldKey newKey => exact .refl _

/-- Among any calls of any tenants, a batch leaves what its methods leave without a pause between them, and it
reports success exactly if each of its commands was accepted where the ones before it had led. -/
theorem batches_as_methods (s : Server Str Data) (calls : List (Tenant × ClientCall)) :
    AgreeOn (fun _ => True) (run serveCall s calls) (run serveCall s (calls.flatMap unfolded)) ∧
      ∀ t commands result, (executeBatch t (run serveCall s calls) commands).1 = some result ↔
        result = ⟨true, (commands.filterMap (BatchCommand.enqueue t)).length, []⟩ ∧ Sendable t commands ∧
          ∀ pre cmd post q, commands = pre ++ cmd :: post → cmd.enqueue t = some q →
            q.Accepted (runMethods t (run serveCall s calls) (pre.filterMap BatchCommand.method)) := by
  constructor
  · induction calls generalizing s with
    | nil => exact .refl s
    | cons call calls ih =>
      rw [List.flatMap_cons, run_append]
      exact (ih (serveCall s call)).trans (agree_calls (serve_unfolded s call) _)
  · intro t commands result
    by_cases hsend : Sendable t commands
    · rw [executeBatch_of_sendable hsend, ← exec_ok_iff hsend, length_exec]
      split
      · rename_i hall
        simp [hall, hsend, eq_comm]
      · rename_i hall
        simp [hall]
    · rw [executeBatch_of_not_sendable hsend]
      simp [hsend]

end Calls

section Example
attribute [local instance] Events.asciiUpperCase

/-- `INCR` on a text fails, and the `SET` after it is run nevertheless. -/
def mixedBatch : List BatchCommand :=
  [⟨some (lit "set"), some (lit "k"), some (lit "x"), none⟩, ⟨some (lit "incr"), some (lit "k"), none, none⟩,
    ⟨some (lit "SET"), some (lit "j"), some (lit "1"), some 60⟩]

example : (executeBatch userOne (Server.empty 0) mixedBatch).1 = none ∧
    stringOf ((executeBatch userOne (Server.empty 0) mixedBatch).2.lookup (userOne.prefixKey (lit "j"))) =
      some (lit "1") := by decide

end Example

end IsaCloud.Cache
