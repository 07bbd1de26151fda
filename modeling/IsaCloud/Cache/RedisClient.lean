import IsaCloud.Cache.Interface
import IsaCloud.Support.RedisTypes
import IsaCloud.Support.Encoding
import IsaCloud.Support.Dict

/-!
# The Redis client

`AsyncRedisClient` on the methods it shares with the in-memory client. The
library underneath encodes every text argument as UTF-8 before it sends
anything and turns an error reply into an exception; a method catches both and
returns `None`, `False` or something empty.
-/

namespace IsaCloud.Cache

set_option autoImplicit false

open Support Support.Text Support.Python Support.Encoding Support.Redis

/-- What a method of the client returns. -/
inductive RedisReply where
  | none
  | bool (b : Bool)
  | int (n : Int)
  | str (s : Str)
  | list (l : List Str)
  | dict (fields : Str → Option Str)

def RedisReply.ofStr : Option Str → RedisReply
  | Option.none => none
  | some s => str s

/-- `str.encode()` succeeds. -/
def encodable (s : Str) : Bool := s.all fun c => !isSurrogate c.val

inductive RedisOp where
  | set (key value : Str) (ttlSeconds : Int)
  | get (key : Str)
  | delete (key : Str)
  | existsKey (key : Str)
  | mset (keyValues : Dict Str Str) (ttlSeconds : Int)
  | mget (keys : List Str)
  | incr (key : Str) (delta : Int)
  | decr (key : Str) (delta : Int)
  | expire (key : Str) (seconds : Int)
  | ttl (key : Str)
  | lpush (key : Str) (values : List Str)
  | rpush (key : Str) (values : List Str)
  | lrange (key : Str) (start stop : Int)
  | llen (key : Str)
  | hset (key field value : Str)
  | hget (key field : Str)
  | hgetall (key : Str)
  deriving DecidableEq

/-- A command on one key with the texts it carries, and the `except` clause around it. -/
def send {R : Type} (s : Server Str Data) (k : Str) (texts : List Str)
    (command : Slot → Except Failure R × Slot) (failed : RedisReply) (reply : R → RedisReply) :
    RedisReply × Server Str Data :=
  if (k :: texts).all encodable then
    (match (s.onKey k command).1 with
      | .ok r => reply r
      | .error _ => failed,
     (s.onKey k command).2)
  else (failed, s)

/-- The dictionary comprehension of `mset`. -/
def prefixed (t : Tenant) (keyValues : Dict Str Str) : Dict Str Str :=
  keyValues.entries.foldl (fun d e => d.set (t.prefixKey e.1) e.2) Dict.empty

def sendAll (s : Server Str Data) (entries : List (Str × Str))
    (command : Str → Slot → Except Failure Unit × Slot) : Server Str Data :=
  entries.foldl (fun s e => (s.onKey e.1 (command e.2)).2) s

/-- `MSET`, or a transaction of `SETEX` commands; without any key the first is an error. -/
def RedisOp.performMset (t : Tenant) (s : Server Str Data) (keyValues : Dict Str Str) (ttlSeconds : Int) :
    RedisReply × Server Str Data :=
  let entries := (prefixed t keyValues).entries
  if entries.all fun e => encodable e.1 && encodable e.2 then
    if 0 < ttlSeconds then
      if entries.isEmpty then (.bool true, s)
      else if validExpire s.now ttlSeconds then
        (.bool true, sendAll s entries fun v => setex s.now ttlSeconds v)
      else (.none, s)
    else if entries.isEmpty then (.none, s)
    else (.bool true, sendAll s entries fun v => Redis.set v)
  else (.none, s)

/-- A key of another type reads as missing. -/
def stringOf : Slot → Option Str
  | some ⟨.string s, _⟩ => some s
  | _ => none

def RedisOp.performMget (t : Tenant) (s : Server Str Data) (keys : List Str) : RedisReply :=
  if keys.all fun key => encodable (t.prefixKey key) then
    .dict fun key => if key ∈ keys then stringOf (s.lookup (t.prefixKey key)) else none
  else .dict fun _ => none

/-- One method of a tenant's client. -/
def RedisOp.perform (t : Tenant) (s : Server Str Data) : RedisOp → RedisReply × Server Str Data
  | .set key value ttlSeconds =>
    if 0 < ttlSeconds then
      send s (t.prefixKey key) [value] (setex s.now ttlSeconds value) .none fun _ => .bool true
    else send s (t.prefixKey key) [value] (Redis.set value) .none fun _ => .bool true
  | .get key => send s (t.prefixKey key) [] Redis.get .none .ofStr
  | .delete key => send s (t.prefixKey key) [] del .none fun n => .bool (decide (0 < n))
  | .existsKey key => send s (t.prefixKey key) [] exist (.bool false) fun n => .bool (decide (0 < n))
  | .mset keyValues ttlSeconds => RedisOp.performMset t s keyValues ttlSeconds
  | .mget keys => (RedisOp.performMget t s keys, s)
  | .incr key delta => send s (t.prefixKey key) [] (incrby delta) .none .int
  | .decr key delta => send s (t.prefixKey key) [] (decrby delta) .none .int
  | .expire key seconds => send s (t.prefixKey key) [] (Redis.expire s.now seconds) .none .bool
  | .ttl key => send s (t.prefixKey key) [] (Redis.ttl s.now) .none .int
  | .lpush key values => send s (t.prefixKey key) values (Redis.lpush values) .none .int
  | .rpush key values => send s (t.prefixKey key) values (Redis.rpush values) .none .int
  | .lrange key start stop => send s (t.prefixKey key) [] (Redis.lrange start stop) (.list []) .list
  | .llen key => send s (t.prefixKey key) [] Redis.llen .none .int
  | .hset key field value =>
    send s (t.prefixKey key) [field, value] (Redis.hset field value) .none fun _ => .bool true
  | .hget key field => send s (t.prefixKey key) [field] (Redis.hget field) .none .ofStr
  | .hgetall key => send s (t.prefixKey key) [] Redis.hgetall (.dict fun _ => none) .dict

end IsaCloud.Cache
