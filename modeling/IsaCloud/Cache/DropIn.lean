import IsaCloud.Cache.Interface
import IsaCloud.Cache.Cells
import IsaCloud.Cache.RedisClient
import IsaCloud.Support.JsonSpelling

/-!
# The in-memory client in place of the Redis client

Both clients get the same calls, in the form the Redis client's signatures take.
`Fits` collects, method by method, when the in-memory client gives the same
answer; along a run of such calls the two stores stay linked key by key.
-/

namespace IsaCloud.Cache

set_option autoImplicit false

open Support Support.Text Support.Python Support.Encoding Support.Redis

/-! ## Calls -/

inductive Arg where
  | text (s : Str)
  | int (n : Int)
  | mapping (d : Dict Str Str)
  | texts (l : List Str)
  deriving DecidableEq

inductive Method where
  | set | get | delete | existsKey | mset | mget | incr | decr | expire | ttl
  | lpush | rpush | lrange | llen | hset | hget | hgetall
  deriving DecidableEq, Repr

def Method.name : Method → Str
  | set => lit "set"
  | get => lit "get"
  | delete => lit "delete"
  | existsKey => lit "exists"
  | mset => lit "mset"
  | mget => lit "mget"
  | incr => lit "incr"
  | decr => lit "decr"
  | expire => lit "expire"
  | ttl => lit "ttl"
  | lpush => lit "lpush"
  | rpush => lit "rpush"
  | lrange => lit "lrange"
  | llen => lit "llen"
  | hset => lit "hset"
  | hget => lit "hget"
  | hgetall => lit "hgetall"

structure Call where
  method : Method
  args : List Arg
  kwargs : Dict Str Arg

/-- An integer parameter with its default. -/
def intArg (default : Int) : Option Arg → Option Int
  | none => some default
  | some (.int n) => some n
  | some _ => none

/-- The call as a method of the Redis client, if its arguments have the types it takes. -/
def RedisOp.ofValues : Method → List (Option Arg) → Option RedisOp
  | .set, [some (.text key), some (.text value), n] => (intArg 0 n).map (RedisOp.set key value)
  | .get, [some (.text key)] => some (.get key)
  | .delete, [some (.text key)] => some (.delete key)
  | .existsKey, [some (.text key)] => some (.existsKey key)
  | .mset, [some (.mapping d), n] => (intArg 0 n).map (RedisOp.mset d)
  | .mget, [some (.texts keys)] => some (.mget keys)
  | .incr, [some (.text key), delta] => (intArg 1 delta).map (RedisOp.incr key)
  | .decr, [some (.text key), delta] => (intArg 1 delta).map (RedisOp.decr key)
  | .expire, [some (.text key), some (.int n)] => some (.expire key n)
  | .ttl, [some (.text key)] => some (.ttl key)
  | .lpush, [some (.text key), some (.texts values)] => some (.lpush key values)
  | .rpush, [some (.text key), some (.texts values)] => some (.rpush key values)
  | .lrange, [some (.text key), start, stop] =>
    (intArg 0 start).bind fun a => (intArg (-1) stop).map fun b => RedisOp.lrange key a b
  | .llen, [some (.text key)] => some (.llen key)
  | .hset, [some (.text key), some (.text field), some (.text value)] => some (.hset key field value)
  | .hget, [some (.text key), some (.text field)] => some (.hget key field)
  | .hgetall, [some (.text key)] => some (.hgetall key)
  | _, _ => none

def Arg.item : Arg → Option Item
  | .text s => some (.text s)
  | .texts l => some (.texts l)
  | _ => none

/-- The same call as an operation of the in-memory client. -/
def Op.ofBound : Method → Bound Arg → Option Op
  | .set, ⟨[some (.text key), some (.text value), n], _⟩ => (intArg 0 n).map (Op.set key value)
  | .get, ⟨[some (.text key)], _⟩ => some (.get key)
  | .delete, ⟨[some (.text key)], _⟩ => some (.delete key)
  | .existsKey, ⟨[some (.text key)], _⟩ => some (.existsKey key)
  | .mset, ⟨[some (.mapping d)], _⟩ => some (.mset d)
  | .mget, ⟨[some (.texts ks)], _⟩ => some (.mget ks)
  | .incr, ⟨[some (.text key), amount], _⟩ => (intArg 1 amount).map (Op.incr key)
  | .decr, ⟨[some (.text key), amount], _⟩ => (intArg 1 amount).map (Op.decr key)
  | .expire, ⟨[some (.text key), some (.int n)], _⟩ => some (.expire key n)
  | .ttl, ⟨[some (.text key)], _⟩ => some (.ttl key)
  | .lpush, ⟨[some (.text key)], values⟩ => (values.mapM Arg.item).map (Op.lpush key)
  | .rpush, ⟨[some (.text key)], values⟩ => (values.mapM Arg.item).map (Op.rpush key)
  | .lrange, ⟨[some (.text key), some (.int a), some (.int b)], _⟩ => some (.lrange key a b)
  | .llen, ⟨[some (.text key)], _⟩ => some (.llen key)
  | .hset, ⟨[some (.text name), some (.text key), some (.text value)], _⟩ => some (.hset name key value)
  | .hget, ⟨[some (.text name), some (.text key)], _⟩ => some (.hget name key)
  | .hgetall, ⟨[some (.text name)], _⟩ => some (.hgetall name)
  | _, _ => none

def Call.redisOp (c : Call) : Option RedisOp :=
  match redisMethods.call c.method.name c.args c.kwargs.entries with
  | .error _ => none
  | .ok bound => RedisOp.ofValues c.method bound.values

def Call.memoryOp (c : Call) : Except PyError Op :=
  match memoryMethods.call c.method.name c.args c.kwargs.entries with
  | .error e => .error e
  | .ok bound =>
    match Op.ofBound c.method bound with
    | none => .error (typeError (lit "argument of another type"))
    | some op => .ok op

/-- The operation of the in-memory client with the same arguments in the same places. -/
def RedisOp.counterpart : RedisOp → Op
  | .set key value ttlSeconds => .set key value ttlSeconds
  | .get key => .get key
  | .delete key => .delete key
  | .existsKey key => .existsKey key
  | .mset keyValues _ => .mset keyValues
  | .mget keys => .mget keys
  | .incr key delta => .incr key delta
  | .decr key delta => .decr key delta
  | .expire key seconds => .expire key seconds
  | .ttl key => .ttl key
  | .lpush key values => .lpush key [.texts values]
  | .rpush key values => .rpush key [.texts values]
  | .lrange key start stop => .lrange key start stop
  | .llen key => .llen key
  | .hset key field value => .hset key field value
  | .hget key field => .hget key field
  | .hgetall key => .hgetall key

/-! ## Two clients, one sequence of calls -/

/-- Python's `==` on what the two clients return. -/
def Same : Reply → RedisReply → Prop
  | .none, .none => True
  | .bool b, .bool b' => b = b'
  | .int n, .int n' => n = n'
  | .value (.text s), .str s' => s = s'
  | .items l, .list l' => l = l'.map Item.text
  | .fields h, .dict f => ∀ x, h.get x = f x
  | _, _ => False

structure Pair (T : Type) where
  memory : Memory T
  server : Server Str Data

/-- A call with what the two clocks read at it, the server's in milliseconds. -/
structure Timed (T : Type) where
  call : Call
  now : T
  serverNow : Nat

def Pair.empty {T : Type} : Pair T := ⟨Memory.empty, Server.empty 0⟩

section Runs
variable {T : Type} [Clock T] [Unicode] (t : Tenant)

def memoryResult (w : Pair T) (c : Timed T) : Except PyError (Reply × Memory T) :=
  c.call.memoryOp.map fun op => op.perform t c.now w.memory

def Pair.step (w : Pair T) (c : Timed T) : Pair T :=
  match c.call.redisOp with
  | none => w
  | some op =>
    ⟨match memoryResult t w c with
      | .ok r => r.2
      | .error _ => w.memory,
     (op.perform t { w.server with now := c.serverNow }).2⟩

/-- Both clients return equal results. -/
def Agree (w : Pair T) (c : Timed T) : Prop :=
  ∀ op, c.call.redisOp = some op →
    ∃ r, memoryResult t w c = .ok r ∧ Same r.1 (op.perform t { w.server with now := c.serverNow }).1

/-- No key is expired in either store, and none is made to expire at once. -/
structure NoneExpires (w : Pair T) (c : Timed T) : Prop where
  memory : ∀ k, w.memory.isExpired c.now k = false
  server : ∀ k e, w.server.store k = some e → e.live c.serverNow = true
  later : ∀ key n, c.call.redisOp = some (.expire key n) →
    w.memory.store.contains (t.prefixKey key) = true → 0 < n

/-- `now + ttl_seconds` is an instant on the clock. -/
def Dated (now : T) (ttlSeconds : Int) : Prop := ∃ d, Clock.after now ttlSeconds = some d ∧ 0 < d

/-- A counter both clients read alike: a canonical 64-bit number or nothing, and a sum that stays in
range; or a hash or a list; or a sum too long to write. -/
def Counts (k : Str) (v : Option Value) (inRange : Prop) (amount : Int) : Prop :=
  match v with
  | some (.hash _) => True
  | some (.list _) => True
  | some (.text s) => (∃ n, integerOf s = some n ∧ inRange ∧ int64 (n + amount) = true) ∨
      ∃ n, Memory.newValue (.text s) amount = .ok n ∧ TooLong n
  | none => (encodable k = true ∧ inRange ∧ int64 amount = true) ∨ TooLong amount

/-- When the in-memory client answers as the Redis client does. -/
def Fits (w : Pair T) (now : T) (serverNow : Nat) : RedisOp → Prop
  | .set key value ttlSeconds => encodable (t.prefixKey key) = true ∧ encodable value = true ∧
      (0 < ttlSeconds → validExpire serverNow ttlSeconds = true ∧ Dated now ttlSeconds)
  | .get key => ∀ v, w.memory.store.get (t.prefixKey key) = some v → ∃ s, v = .text s
  | .delete key => encodable (t.prefixKey key) = true
  | .existsKey _ => True
  | .mset keyValues ttlSeconds => ttlSeconds ≤ 0 ∧ keyValues.entries ≠ [] ∧
      ∀ e ∈ keyValues.entries, encodable (t.prefixKey e.1) = true ∧ encodable e.2 = true
  | .mget _ => False
  | .incr key delta =>
    Counts (t.prefixKey key) (w.memory.store.get (t.prefixKey key)) (int64 delta = true) delta
  | .decr key delta => Counts (t.prefixKey key) (w.memory.store.get (t.prefixKey key))
      (int64 delta = true ∧ int64 (-delta) = true) (-delta)
  | .expire key seconds =>
    (encodable (t.prefixKey key) = true ∧ validExpire serverNow seconds = true ∧
      (w.memory.store.contains (t.prefixKey key) = true → Dated now seconds)) ∨
    (w.memory.store.contains (t.prefixKey key) = true ∧ Clock.after now seconds = none ∧
      validExpire serverNow seconds = false)
  | .ttl key => w.memory.store.contains (t.prefixKey key) = true ∧
      ∀ d, deadlineOf (w.server.store (t.prefixKey key)) = some d →
        Clock.secondsLeft (w.memory.expTime (t.prefixKey key)) now = ((d - serverNow + 500) / 1000 : Nat)
  | .lpush key values => encodable (t.prefixKey key) = true ∧
      (∀ v, w.memory.store.get (t.prefixKey key) = some v → ∃ l, v = .list l) ∧
      ∃ v, values = [v] ∧ encodable v = true
  | .rpush key values => encodable (t.prefixKey key) = true ∧
      (∀ v, w.memory.store.get (t.prefixKey key) = some v → ∃ l, v = .list l) ∧
      ∃ v, values = [v] ∧ encodable v = true
  | .lrange key start stop => ∀ l, w.memory.store.get (t.prefixKey key) = some (.list l) →
      (if stop = -1 then sliceFrom l start else slice l start (stop + 1)) = []
  | .llen key => encodable (t.prefixKey key) = true ∧
      ∀ v, w.memory.store.get (t.prefixKey key) = some v → ∃ l, v = .list l
  | .hset key field value => (encodable (t.prefixKey key) = true ∧ encodable field = true ∧
      encodable value = true) ∧ ∀ v, w.memory.store.get (t.prefixKey key) = some v → ∃ h, v = .hash h
  | .hget _ _ => True
  | .hgetall _ => True

/-- The in-memory client takes the call, and it fits. -/
def Compatible (w : Pair T) (c : Timed T) : Prop :=
  ∀ op, c.call.redisOp = some op →
    c.call.memoryOp = .ok op.counterpart ∧ Fits t w c.now c.serverNow op

end Runs

end IsaCloud.Cache
