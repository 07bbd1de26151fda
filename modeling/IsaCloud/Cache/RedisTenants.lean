import IsaCloud.Cache.RedisBatch
import IsaCloud.Support.Confinement

/-!
# Tenants of one Redis

All tenants share one server. As long as no tenant's prefix begins another's,
what the others call, and whichever of their commands are lost, makes no
difference to what a tenant's own calls answer and to the keys under its prefix.
-/

namespace IsaCloud.Cache

set_option autoImplicit false

open Support Support.Text Support.Python Support.Redis
open Events (UpperCase)

/-- What a method answers to an exception. -/
def RedisOp.failed : RedisOp → RedisReply
  | .existsKey _ => .bool false
  | .mget _ => .dict fun _ => none
  | .lrange _ _ _ => .list []
  | .hgetall _ => .dict fun _ => none
  | _ => .none

def ClientCall.failed : ClientCall → ClientAnswer
  | .method op => .reply op.failed
  | .executeBatch _ => .batch none
  | _ => .reply .none

section Tenants
variable [UpperCase] {I : Type} (tenant : I → Tenant)

/-- One trip to the server; a driver that gets no answer raises. -/
def clientCode (i : I) (call : ClientCall) : Proc (Tenant × ClientCall) (Option ClientAnswer) ClientAnswer :=
  .call (tenant i, call) fun answer => .ret (answer.getD call.failed)

omit [UpperCase] in
theorem agree_of_same {t : Tenant} {s s' : Server Str Data} (h : ∀ k, t.Owned k → Server.Same k s s') :
    AgreeOn t.Owned s s' := ⟨(h _ (t.owned_prefixKey [])).1, h⟩

/-- The server as the tenants see it; the environment lets time pass. -/
def sharedRedis : TenantSystem (Server Str Data) Nat Str I ClientCall (Tenant × ClientCall) (Option ClientAnswer)
    ClientAnswer where
  serve s c := ((c.2.perform c.1 s).2, some (c.2.perform c.1 s).1)
  env s d := s.advance d
  Touches c k := c.1.Owned k
  Same := Server.Same
  refl := .refl
  symm := .symm
  trans := .trans
  frame h := (onKeys_call _).frame h
  reply h := congrArg some ((onKeys_call _).reply (agree_of_same h))
  effect h hk := ((onKeys_call _).effect (agree_of_same h)).2 _ hk
  passing d h := h.advance d
  code := clientCode tenant
  failure := none

variable [DecidableEq I] {tenant}

end Tenants

section Example
open Events (asciiUpperCase)
attribute [local instance] asciiUpperCase

/-- Two users of one organization. -/
def userOf (second : Bool) : Tenant := if second then userTwo else userOne

/-- One user counts, while the other's batch is lost on its way and then sent again. -/
def twoUsers : List (TenantAction Nat Bool ClientCall) :=
  [.invoke true 0 (.executeBatch [⟨some (lit "incr"), some (lit "k"), none, none⟩]),
    .invoke false 0 (.method (.incr (lit "k") 1)), .step true 0 .unsent, .step false 0 .answered, .env 1,
    .invoke true 0 (.executeBatch [⟨some (lit "incr"), some (lit "k"), none, none⟩]), .step true 0 .answered]

end Example

end IsaCloud.Cache
