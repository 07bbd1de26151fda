import IsaCloud.Support.PyCall

/-!
# What the two cache clients share

The helpers of `AsyncBaseClient` put a tenant before every key: organization, user
and key are separated by colons. The methods `AsyncRedisClient` and
`AsyncMemoryClient` both define stand with the parameters each of them gives them.
They agree on the names of the methods, not on the names of the parameters, their
defaults or the form of list arguments.
-/

namespace IsaCloud.Cache

set_option autoImplicit false

open Support Support.Text Support.Python

/-! ## The tenant prefix of a key -/

structure Tenant where
  organizationId : Str
  userId : Str
  deriving DecidableEq

def tenantSeparator : Str := lit ":"

namespace Tenant
variable (t : Tenant)

def getKeyPrefix : Str :=
  t.organizationId ++ tenantSeparator ++ t.userId ++ tenantSeparator

def prefixKey (key : Str) : Str :=
  if t.getKeyPrefix <+: key then key else t.getKeyPrefix ++ key

def unprefixKey (key : Str) : Str :=
  if t.getKeyPrefix <+: key then key.drop t.getKeyPrefix.length else key

end Tenant

/-- `user_id or "default"` and `organization_id or "default-org"`. -/
def makeTenant (userId organizationId : Option Str) : Tenant where
  organizationId :=
    match organizationId with
    | none | some [] => lit "default-org"
    | some o => o
  userId :=
    match userId with
    | none | some [] => lit "default"
    | some u => u

/-! ## Signatures -/

def redisMethods : Methods := [
  (lit "set", ⟨[req "key", req "value", opt "ttl_seconds"], false⟩),
  (lit "get", ⟨[req "key"], false⟩),
  (lit "delete", ⟨[req "key"], false⟩),
  (lit "exists", ⟨[req "key"], false⟩),
  (lit "mset", ⟨[req "key_values", opt "ttl_seconds"], false⟩),
  (lit "mget", ⟨[req "keys"], false⟩),
  (lit "incr", ⟨[req "key", opt "delta"], false⟩),
  (lit "decr", ⟨[req "key", opt "delta"], false⟩),
  (lit "expire", ⟨[req "key", req "seconds"], false⟩),
  (lit "ttl", ⟨[req "key"], false⟩),
  (lit "lpush", ⟨[req "key", req "values"], false⟩),
  (lit "rpush", ⟨[req "key", req "values"], false⟩),
  (lit "lrange", ⟨[req "key", opt "start", opt "stop"], false⟩),
  (lit "llen", ⟨[req "key"], false⟩),
  (lit "hset", ⟨[req "key", req "field", req "value"], false⟩),
  (lit "hget", ⟨[req "key", req "field"], false⟩),
  (lit "hgetall", ⟨[req "key"], false⟩)]

def memoryMethods : Methods := [
  (lit "set", ⟨[req "key", req "value", opt "ttl_seconds"], false⟩),
  (lit "get", ⟨[req "key"], false⟩),
  (lit "delete", ⟨[req "key"], false⟩),
  (lit "exists", ⟨[req "key"], false⟩),
  (lit "ttl", ⟨[req "key"], false⟩),
  (lit "expire", ⟨[req "key", req "ttl_seconds"], false⟩),
  (lit "incr", ⟨[req "key", opt "amount"], false⟩),
  (lit "decr", ⟨[req "key", opt "amount"], false⟩),
  (lit "mset", ⟨[req "mapping"], false⟩),
  (lit "mget", ⟨[req "keys"], false⟩),
  (lit "hset", ⟨[req "name", req "key", req "value"], false⟩),
  (lit "hget", ⟨[req "name", req "key"], false⟩),
  (lit "hgetall", ⟨[req "name"], false⟩),
  (lit "lpush", ⟨[req "key"], true⟩),
  (lit "rpush", ⟨[req "key"], true⟩),
  (lit "lrange", ⟨[req "key", req "start", req "end"], false⟩),
  (lit "llen", ⟨[req "key"], false⟩)]

end IsaCloud.Cache
