import IsaCloud.Cache.Interface
import IsaCloud.Support.Dict
import IsaCloud.Support.Glob
import IsaCloud.Support.PyBuiltins
import IsaCloud.Support.PyCall
import Mathlib.Order.Defs.LinearOrder

/-!
# The in-memory cache

The operations of `AsyncMemoryClient` on its two dictionaries. Each of them runs
under the lock and awaits nothing there, so it is one step of the shared store;
it reads the clock at one instant `now`. An exception ends the operation where
it is raised, keeps what was written before, and the caller gets `None`.
-/

namespace IsaCloud.Cache

set_option autoImplicit false

open Support Support.Text Support.Python Support.Glob

/-- What `time.time()` reads, with the arithmetic the store does on it. -/
class Clock (T : Type) extends LinearOrder T, Zero T where
  /-- `time.time() + ttl_seconds`; `none` is the `OverflowError`. -/
  after : T → Int → Option T
  /-- `int(exp_time - time.time())`. -/
  secondsLeft : T → T → Int

/-- A clock that counts whole seconds. -/
@[reducible] def wholeSeconds : Clock Int where
  after now ttlSeconds := some (now + ttlSeconds)
  secondsLeft expTime now := expTime - now

/-- An element of a list: a string, or a whole list that was pushed as one value. -/
inductive Item where
  | text (s : Str)
  | texts (l : List Str)
  deriving DecidableEq

inductive Value where
  | text (s : Str)
  | hash (fields : Dict Str Str)
  | list (items : List Item)
  deriving DecidableEq

/-- What a method returns. -/
inductive Reply where
  | none
  | bool (b : Bool)
  | int (n : Int)
  | value (v : Value)
  | values (vs : List (Option Value))
  | items (l : List Item)
  | fields (h : Dict Str Str)
  | names (l : List Str)
  | page (cursor : Int) (l : List Str)
  deriving DecidableEq

def Reply.ofValue : Option Value → Reply
  | Option.none => none
  | some v => value v

structure Memory (T : Type) where
  store : Dict Str Value
  expiry : Dict Str T

namespace Memory

def empty {T : Type} : Memory T := ⟨Dict.empty, Dict.empty⟩

section Expiry
variable {T : Type} [Clock T] (m : Memory T)

/-- `self._expiry.get(key, 0)`. -/
def expTime (k : Str) : T := (m.expiry.get k).getD 0

def isExpired (now : T) (k : Str) : Bool := decide (0 < m.expTime k ∧ m.expTime k < now)

/-- Both `pop` calls. -/
def drop {T : Type} (m : Memory T) (k : Str) : Memory T := ⟨m.store.pop k, m.expiry.pop k⟩

def removeExpired (now : T) : Memory T := (m.expiry.keys.filter (m.isExpired now)).foldl drop m

end Expiry

/-! ## Strings -/

section Strings
variable {T : Type} [Clock T] (m : Memory T) (now : T)

def set (k value : Str) (ttlSeconds : Int) : Reply × Memory T :=
  let stored := m.store.set k (.text value)
  if 0 < ttlSeconds then
    match Clock.after now ttlSeconds with
    | none => (.none, ⟨stored, m.expiry⟩)
    | some t => (.bool true, ⟨stored, m.expiry.set k t⟩)
  else (.bool true, ⟨stored, m.expiry.set k 0⟩)

def get (k : Str) : Reply × Memory T :=
  if m.isExpired now k then (.none, m.drop k) else (.ofValue (m.store.get k), m)

def delete {T : Type} (m : Memory T) (k : Str) : Reply × Memory T :=
  (.bool (m.store.contains k), m.drop k)

def existsKey (k : Str) : Reply × Memory T :=
  if m.isExpired now k then (.bool false, m.drop k) else (.bool (m.store.contains k), m)

def ttl (k : Str) : Reply :=
  if m.expTime k = 0 then .int (-1)
  else if m.expTime k < now then .int (-2)
  else .int (Clock.secondsLeft (m.expTime k) now)

def expire (k : Str) (ttlSeconds : Int) : Reply × Memory T :=
  if m.store.contains k then
    match Clock.after now ttlSeconds with
    | none => (.none, m)
    | some t => (.bool true, ⟨m.store, m.expiry.set k t⟩)
  else (.bool false, m)

end Strings

section Counters
variable [Unicode]

/-- `int(current)`; of a list or a dictionary it is a `TypeError`. -/
def intOfValue : Value → Except PyError Int
  | .text s => intOfStr s
  | .hash _ => .error (typeError (lit "int() argument must be a string"))
  | .list _ => .error (typeError (lit "int() argument must be a string"))

/-- The sum that is written back: a text that is no number counts as nothing. -/
def newValue (current : Value) (amount : Int) : Except PyError Int :=
  match intOfValue current with
  | .ok n => .ok (n + amount)
  | .error e => if e.kind.isValueError then .ok amount else .error e

def incr {T : Type} (m : Memory T) (k : Str) (amount : Int) : Reply × Memory T :=
  match newValue ((m.store.get k).getD (.text (lit "0"))) amount with
  | .error _ => (.none, m)
  | .ok n =>
    match strOfInt n with
    | .error _ => (.none, m)
    | .ok text => (.int n, ⟨m.store.set k (.text text), m.expiry⟩)

def decr {T : Type} (m : Memory T) (k : Str) (amount : Int) : Reply × Memory T := m.incr k (-amount)

end Counters

/-! ## Several keys -/

section Many
variable {T : Type} [Clock T] (t : Tenant) (m : Memory T) (now : T)

def mset (mapping : Dict Str Str) : Reply × Memory T :=
  (.bool true, mapping.entries.foldl (fun m e =>
    ⟨m.store.set (t.prefixKey e.1) (.text e.2), m.expiry.set (t.prefixKey e.1) 0⟩) m)

/-- The loop of `mget` from a state of the store. -/
def mgetLoop : List Str → Memory T → List (Option Value) × Memory T
  | [], m => ([], m)
  | key :: keys, m =>
    let k := t.prefixKey key
    if m.isExpired now k then
      let rest := mgetLoop keys (m.drop k)
      (none :: rest.1, rest.2)
    else
      let rest := mgetLoop keys m
      (m.store.get k :: rest.1, rest.2)

def mget (keys : List Str) : Reply × Memory T :=
  (.values (mgetLoop t now keys m).1, (mgetLoop t now keys m).2)

/-- The loop of `delete_many`: the count so far and the store. -/
def deleteLoop {T : Type} (t : Tenant) : List Str → Nat → Memory T → Nat × Memory T
  | [], count, m => (count, m)
  | key :: keys, count, m =>
    let k := t.prefixKey key
    if m.store.contains k then deleteLoop t keys (count + 1) (m.drop k)
    else deleteLoop t keys count m

def deleteMany {T : Type} (t : Tenant) (m : Memory T) (keys : List Str) : Reply × Memory T :=
  (.int (deleteLoop t keys 0 m).1, (deleteLoop t keys 0 m).2)

/-- The stored keys that pass `fnmatch` and are not expired, in the dictionary's order. -/
def matching (pattern : Str) : List Str :=
  m.store.keys.filter fun k => fnmatch k (t.prefixKey pattern) && !m.isExpired now k

def keys (pattern : Str) : Reply := .names ((m.matching t now pattern).map t.unprefixKey)

def scan (cursor : Int) (pattern : Str) (count : Int) : Reply :=
  let allKeys := m.matching t now pattern
  let stop := min (cursor + count) allKeys.length
  .page (if stop < allKeys.length then stop else 0)
    ((slice allKeys cursor stop).map t.unprefixKey)

def flush {T : Type} (t : Tenant) (m : Memory T) : Reply × Memory T :=
  (.bool true, (m.store.keys.filter fun k => decide (t.getKeyPrefix <+: k)).foldl drop m)

end Many

/-! ## Hashes and lists -/

section Nested
variable {T : Type} [Clock T] (m : Memory T) (now : T)

/-- `if name not in self._store` of `hset`, `lpush` and `rpush`. -/
def create (k : Str) (v : Value) : Memory T :=
  if m.store.contains k then m else ⟨m.store.set k v, m.expiry.set k 0⟩

/-- The dictionary under a key, a fresh one in place of any other value. -/
def hashData : Option Value → Dict Str Str
  | some (.hash h) => h
  | _ => Dict.empty

def hset (k field value : Str) : Reply × Memory T :=
  let m' := m.create k (.hash Dict.empty)
  let h := hashData (m'.store.get k)
  (.bool true, ⟨m'.store.set k (.hash (h.set field value)), m'.expiry⟩)

def hget (k field : Str) : Reply × Memory T :=
  if m.isExpired now k then (.none, m.drop k)
  else (.ofValue (((hashData (m.store.get k)).get field).map .text), m)

def hgetall (k : Str) : Reply × Memory T :=
  if m.isExpired now k then (.fields Dict.empty, m.drop k)
  else (.fields (hashData (m.store.get k)), m)

def hdel {T : Type} (m : Memory T) (k field : Str) : Reply × Memory T :=
  match m.store.get k with
  | some (.hash h) =>
    if h.contains field then (.bool true, ⟨m.store.set k (.hash (h.pop field)), m.expiry⟩)
    else (.bool false, m)
  | _ => (.bool false, m)

/-- The list under a key, a fresh one in place of any other value. -/
def listData : Option Value → List Item
  | some (.list l) => l
  | _ => []

/-- `lpush` and `rpush` with the list they leave. -/
def push (k : Str) (put : List Item → List Item) : Reply × Memory T :=
  let m' := m.create k (.list [])
  let l := put (listData (m'.store.get k))
  (.int l.length, ⟨m'.store.set k (.list l), m'.expiry⟩)

/-- Each value of `reversed(values)` is inserted at index 0. -/
def lpush (k : Str) (values : List Item) : Reply × Memory T :=
  m.push k fun l => values.reverse.foldl (fun l v => v :: l) l

def rpush (k : Str) (values : List Item) : Reply × Memory T := m.push k fun l => l ++ values

def lrange (k : Str) (start stop : Int) : Reply × Memory T :=
  if m.isExpired now k then (.items [], m.drop k)
  else
    let l := listData (m.store.get k)
    (.items (if stop = -1 then sliceFrom l start else slice l start (stop + 1)), m)

def llen (k : Str) : Reply :=
  if m.isExpired now k then .int 0 else .int (listData (m.store.get k)).length

end Nested

end Memory

/-! ## Operations by a tenant -/

inductive Op where
  | set (key value : Str) (ttlSeconds : Int)
  | get (key : Str)
  | delete (key : Str)
  | existsKey (key : Str)
  | ttl (key : Str)
  | expire (key : Str) (ttlSeconds : Int)
  | incr (key : Str) (amount : Int)
  | decr (key : Str) (amount : Int)
  | mset (mapping : Dict Str Str)
  | mget (keys : List Str)
  | deleteMany (keys : List Str)
  | keys (pattern : Str)
  | scan (cursor : Int) (pattern : Str) (count : Int)
  | flush
  | flushAll
  | hset (name key value : Str)
  | hget (name key : Str)
  | hgetall (name : Str)
  | hdel (name key : Str)
  | lpush (key : Str) (values : List Item)
  | rpush (key : Str) (values : List Item)
  | lrange (key : Str) (start stop : Int)
  | llen (key : Str)
  deriving DecidableEq

variable {T : Type} [Clock T] [Unicode]

/-- One operation of a tenant's client on the store it shares. -/
def Op.perform (t : Tenant) (now : T) (m : Memory T) : Op → Reply × Memory T
  | .set key value ttlSeconds => m.set now (t.prefixKey key) value ttlSeconds
  | .get key => m.get now (t.prefixKey key)
  | .delete key => m.delete (t.prefixKey key)
  | .existsKey key => m.existsKey now (t.prefixKey key)
  | .ttl key => (m.ttl now (t.prefixKey key), m)
  | .expire key ttlSeconds => m.expire now (t.prefixKey key) ttlSeconds
  | .incr key amount => m.incr (t.prefixKey key) amount
  | .decr key amount => m.decr (t.prefixKey key) amount
  | .mset mapping => m.mset t mapping
  | .mget ks => m.mget t now ks
  | .deleteMany ks => m.deleteMany t ks
  | .keys pattern => (m.keys t now pattern, m)
  | .scan cursor pattern count => (m.scan t now cursor pattern count, m)
  | .flush => m.flush t
  | .flushAll => (.bool true, .empty)
  | .hset name key value => m.hset (t.prefixKey name) key value
  | .hget name key => m.hget now (t.prefixKey name) key
  | .hgetall name => m.hgetall now (t.prefixKey name)
  | .hdel name key => m.hdel (t.prefixKey name) key
  | .lpush key values => m.lpush (t.prefixKey key) values
  | .rpush key values => m.rpush (t.prefixKey key) values
  | .lrange key start stop => m.lrange now (t.prefixKey key) start stop
  | .llen key => (m.llen now (t.prefixKey key), m)

/-- What can happen to the shared store: an operation at some time, or the sweeper. -/
inductive Event (T : Type) where
  | operation (t : Tenant) (now : T) (op : Op)
  | sweep (now : T)

def Event.apply (m : Memory T) : Event T → Memory T
  | .operation t now op => (op.perform t now m).2
  | .sweep now => m.removeExpired now

end IsaCloud.Cache
