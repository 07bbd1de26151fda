import IsaCloud.Quota.CounterKeys
import IsaCloud.Support.Confinement

/-!
# Organizations do not see each other

All organizations count in one Redis. Whatever the calls of the others do, and
whichever of their commands are lost, an organization's own calls return what
they would return if it were alone, and its counters are what they would be.
-/

namespace IsaCloud.Quota

set_option autoImplicit false

open Support Support.Text Support.Python Support.DateTime

/-! ## Every command looks at its own keys -/

section OneKey
variable (key : Str) (amount limit : Int) (ttl : Nat)

theorem onKey_charge (granted : Int) (answer : Int → List Int) : Redis.Server.OnKey key fun s : Redis =>
    (s.incrBy key granted).bind fun p =>
      some (if tonumber p.2 = granted then p.1.expire key ttl else p.1, answer p.2) := by
  have hnext : ∀ total, Redis.Server.OnKey key fun s : Redis =>
      some (if tonumber total = granted then s.expire key ttl else s, answer total) := by
    intro total
    by_cases hfirst : tonumber total = granted
    · simp only [hfirst, if_true]
      exact (Redis.Server.onKey_expire key ttl).bind fun _ => .pure key (answer total)
    · simp only [hfirst, if_false]
      exact .pure key _
  exact (Redis.Server.onKey_incrBy key granted).bind hnext

theorem onKey_windowedConsume : Redis.Server.OnKey key fun s : Redis => luaWindowedConsume s key amount limit ttl := by
  have hscript : ∀ current, Redis.Server.OnKey key fun s : Redis =>
      if exceeds current amount limit then some (s, [0, tonumber current, tonumber limit])
      else (s.incrBy key (tonumber amount)).bind fun p =>
        some (if tonumber p.2 = tonumber amount then p.1.expire key (ttl * usPerSecond) else p.1,
          [1, tonumber p.2, tonumber limit]) := by
    intro current
    cases exceeds current amount limit with
    | true => exact .pure key [0, tonumber current, tonumber limit]
    | false => exact onKey_charge key (ttl * usPerSecond) (tonumber amount) fun total => [1, tonumber total, tonumber limit]
  refine cast (congrArg (Redis.Server.OnKey key) (funext fun s => ?_)) (Redis.Server.OnKey.read hscript)
  simp only [luaWindowedConsume]
  cases s.incrBy key (tonumber amount) <;> rfl

theorem onKey_gaugeAcquire : Redis.Server.OnKey key fun s : Redis => luaGaugeAcquire s key amount limit := by
  have hscript : ∀ current, Redis.Server.OnKey key fun s : Redis =>
      if exceeds current amount limit then some (s, [0, tonumber current, tonumber limit])
      else (s.incrBy key (tonumber amount)).bind fun p => some (p.1, [1, tonumber p.2, tonumber limit]) := by
    intro current
    cases exceeds current amount limit with
    | true => exact .pure key [0, tonumber current, tonumber limit]
    | false =>
      exact (Redis.Server.onKey_incrBy key (tonumber amount)).bind fun total => .pure key [1, tonumber total, tonumber limit]
  refine cast (congrArg (Redis.Server.OnKey key) (funext fun s => ?_)) (Redis.Server.OnKey.read hscript)
  simp only [luaGaugeAcquire]
  cases s.incrBy key (tonumber amount) <;> rfl

theorem onKey_partialConsume : Redis.Server.OnKey key fun s : Redis => luaPartialConsume s key amount limit ttl := by
  have hscript : ∀ current, Redis.Server.OnKey key fun s : Redis =>
      if partialGrant current amount limit ≤ 0 then some (s, [0, 0, tonumber current, tonumber limit])
      else (s.incrBy key (partialGrant current amount limit)).bind fun p =>
        some (if tonumber p.2 = partialGrant current amount limit then p.1.expire key (ttl * usPerSecond) else p.1,
          [1, partialGrant current amount limit, tonumber p.2, tonumber limit]) := by
    intro current
    by_cases hnone : partialGrant current amount limit ≤ 0
    · simp only [hnone, if_true]
      exact .pure key [0, 0, tonumber current, tonumber limit]
    · simp only [hnone, if_false]
      exact onKey_charge key (ttl * usPerSecond) (partialGrant current amount limit) fun total =>
        [1, partialGrant current amount limit, tonumber total, tonumber limit]
  refine cast (congrArg (Redis.Server.OnKey key) (funext fun s => ?_)) (Redis.Server.OnKey.read hscript)
  simp only [luaPartialConsume]
  cases s.incrBy key (partialGrant (s.counter key) amount limit) <;> rfl

theorem onKey_script (script : Script) : Redis.Server.OnKey key fun s : Redis => script.run s key amount limit ttl := by
  cases script with
  | windowedConsume => exact onKey_windowedConsume key amount limit ttl
  | gaugeAcquire => exact onKey_gaugeAcquire key amount limit
  | partialConsume => exact onKey_partialConsume key amount limit ttl

end OneKey

def Cmd.Touches : Cmd → Str → Prop
  | .get key, k => k = key
  | .mget keys, k => k ∈ keys
  | .eval _ key _ _ _, k => k = key
  | .decrBy key _, k => k = key
  | .set key _, k => k = key

/-- The answer to a command whose failure leaves the store alone. -/
def settle {R : Type} (s : Redis) (reply : R → Reply) (outcome : Option (Redis × R)) : Redis × Reply :=
  (outcome.elim s Prod.fst, outcome.elim .error fun p => reply p.2)

theorem serve_eval (s : Redis) (script : Script) (key : Str) (amount limit : Int) (ttl : Nat) :
    serve s (.eval script key amount limit ttl) = settle s .array (script.run s key amount limit ttl) := by
  simp only [serve]
  cases script.run s key amount limit ttl <;> rfl

theorem serve_decrBy (s : Redis) (key : Str) (amount : Int) :
    serve s (.decrBy key amount) = settle s .int (s.decrBy key amount) := by
  simp only [serve]
  cases s.decrBy key amount <;> rfl

section Settle
variable {R : Type} {key : Str} {op : Redis → Option (Redis × R)} (h : Redis.Server.OnKey key op)
include h

theorem settle_frame (s : Redis) (reply : R → Reply) {k : Str} (hne : k ≠ key) :
    Redis.Server.Same k (settle s reply (op s)).1 s := by
  cases hop : op s with
  | none => exact .refl k s
  | some p => exact h.frame hop hne

theorem settle_same {s t : Redis} (hsame : Redis.Server.Same key s t) (reply : R → Reply) :
    (settle s reply (op s)).2 = (settle t reply (op t)).2 ∧
      Redis.Server.Same key (settle s reply (op s)).1 (settle t reply (op t)).1 := by
  have hrel := h.same hsame
  revert hrel
  generalize op s = x
  generalize op t = y
  rintro (⟨hst, hanswer⟩ | _)
  · exact ⟨congrArg reply hanswer, hst⟩
  · exact ⟨rfl, hsame⟩

end Settle

/-- A command leaves the keys of others alone. -/
theorem serve_frame {s : Redis} {c : Cmd} {k : Str} (h : ¬ c.Touches k) : Redis.Server.Same k (serve s c).1 s := by
  cases c with
  | get key => exact .refl k s
  | mget keys => exact .refl k s
  | eval script key amount limit ttl =>
    rw [serve_eval]
    exact settle_frame (onKey_script key amount limit ttl script) s _ h
  | decrBy key amount =>
    rw [serve_decrBy]
    exact settle_frame (Redis.Server.onKey_decrBy key amount) s _ h
  | set key value => exact Redis.Server.same_put_of_ne s h _

/-- What a command answers, and what it leaves behind, depends on its keys only. -/
theorem serve_same {s t : Redis} {c : Cmd} (h : ∀ k, c.Touches k → Redis.Server.Same k s t) :
    (serve s c).2 = (serve t c).2 ∧ ∀ k, c.Touches k → Redis.Server.Same k (serve s c).1 (serve t c).1 := by
  cases c with
  | get key => exact ⟨congrArg Reply.bulk (h key rfl).get, h⟩
  | mget keys => exact ⟨congrArg Reply.bulks (List.map_congr_left fun k hk => (h k hk).get), h⟩
  | eval script key amount limit ttl =>
    have hsettle := settle_same (onKey_script key amount limit ttl script) (h key rfl) .array
    rw [serve_eval, serve_eval]
    refine ⟨hsettle.1, ?_⟩
    rintro k rfl
    exact hsettle.2
  | decrBy key amount =>
    have hsettle := settle_same (Redis.Server.onKey_decrBy key amount) (h key rfl) .int
    rw [serve_decrBy, serve_decrBy]
    refine ⟨hsettle.1, ?_⟩
    rintro k rfl
    exact hsettle.2
  | set key value =>
    refine ⟨rfl, ?_⟩
    rintro k rfl
    exact (h k rfl).put _

def redisServer : KeyedServer Redis Nat Str Cmd Reply where
  serve := serve
  env := Redis.Server.advance
  Touches := Cmd.Touches
  Same := Redis.Server.Same
  refl := Redis.Server.Same.refl
  symm := Redis.Server.Same.symm
  trans := Redis.Server.Same.trans
  frame := serve_frame
  reply h := (serve_same h).1
  effect h hk := (serve_same h).2 _ hk
  passing d h := h.advance d

/-! ## The calls of an organization -/

/-- The public methods, each with the client's clock, the caller's tier and what it asks for. -/
inductive QuotaCall where
  | check (now : Instant) (tier : TierQuota) (quotaType : QuotaKey) (amount : Int)
  | checkAndConsume (now : Instant) (tier : TierQuota) (quotaType : QuotaKey) (amount : Int)
  | enforce (now : Instant) (tier : TierQuota) (quotaType : QuotaKey) (amount : Int)
  | consumePartial (now : Instant) (tier : TierQuota) (quotaType : QuotaKey) (amount : Int)
  | release (now : Instant) (tier : TierQuota) (quotaType : QuotaKey) (amount : Int)
  | getUsage (now : Instant) (tier : TierQuota)

inductive QuotaAnswer where
  | decision (answer : Except PyError QuotaDecision)
  | enforced (answer : Except QuotaEnforcer.EnforceError QuotaDecision)
  | portion (answer : Except PyError PartialConsumption)
  | released (answer : Except PyError Bool)
  | usage (answer : Except PyError (List QuotaDecision))

namespace QuotaEnforcer
variable (e : QuotaEnforcer)

def perform (organizationId : Str) : QuotaCall → Proc Cmd Reply QuotaAnswer
  | .check now tier quotaType amount => (e.check now tier organizationId quotaType amount).map .decision
  | .checkAndConsume now tier quotaType amount =>
    (e.checkAndConsume now tier organizationId quotaType amount).map .decision
  | .enforce now tier quotaType amount => (e.enforce now tier organizationId quotaType amount).map .enforced
  | .consumePartial now tier quotaType amount =>
    (e.consumePartial now tier organizationId quotaType amount).map .portion
  | .release now tier quotaType amount => (e.release now tier organizationId quotaType amount).map .released
  | .getUsage now tier => (e.getUsage now tier organizationId).map .usage

/-- A counter of the organization, of any quota and any window. -/
def Counts (organizationId key : Str) : Prop := ∃ qt now, key = e.key organizationId qt now

/-- One Redis, the enforcer's calls on behalf of each organization, and the driver's exception. -/
def organizations : TenantSystem Redis Nat Str Str QuotaCall Cmd Reply QuotaAnswer where
  toKeyedServer := redisServer
  code := e.perform
  failure := .error

variable {e}

/-- Organizations share no counter. -/
theorem counts_apart {org org' key : Str} (h : e.Counts org key) (h' : e.Counts org' key) : org = org' := by
  obtain ⟨qt, t, rfl⟩ := h
  obtain ⟨qt', t', hkey⟩ := h'
  rw [key_eq, key_eq] at hkey
  have hfront := (Delimited.last_field_inj (colon_not_mem_windowBucket qt t) (colon_not_mem_windowBucket qt' t') hkey).1
  exact List.append_cancel_left
    (Delimited.last_field_inj qt.colon_not_mem_value qt'.colon_not_mem_value hfront).1

section Confined
variable {now : Instant} {tier : TierQuota} {org : Str} {quotaType : QuotaKey} {amount : Int}

theorem confined_gated {Y : Type} {p : QuotaType → Client Y}
    (h : ∀ qt, Confined Cmd.Touches (e.Counts org) (p qt)) :
    Confined Cmd.Touches (e.Counts org)
      (.attempt (coerceQuotaType quotaType) fun qt => .attempt (validate org amount) fun _ => p qt) :=
  .attempt fun qt _ => .attempt fun _ _ => h qt

theorem confined_key {Y : Type} {qt : QuotaType} {c : Cmd} {k : Reply → Client Y}
    (hc : ∀ key, c.Touches key → key = e.key org qt now) (hk : ∀ r, Confined Cmd.Touches (e.Counts org) (k r)) :
    Confined Cmd.Touches (e.Counts org) (.call c k) :=
  .call (fun key hkey => ⟨qt, now, hc key hkey⟩) hk

theorem confined_check : Confined Cmd.Touches (e.Counts org) (e.check now tier org quotaType amount) := by
  refine confined_gated fun qt => ?_
  split
  · exact .ret _
  · refine confined_key (fun key hkey => hkey) fun r => ?_
    cases r <;> exact .ret _

theorem confined_checkAndConsume :
    Confined Cmd.Touches (e.Counts org) (e.checkAndConsume now tier org quotaType amount) := by
  refine confined_gated fun qt => ?_
  split
  · exact .ret _
  · refine confined_key (fun key hkey => hkey) fun r => ?_
    unfold afterConsume
    split <;> exact .ret _

theorem confined_consumePartial :
    Confined Cmd.Touches (e.Counts org) (e.consumePartial now tier org quotaType amount) := by
  refine confined_gated fun qt => ?_
  split
  · exact .ret _
  · refine confined_key (fun key hkey => hkey) fun r => ?_
    unfold afterPartial
    split <;> exact .ret _

theorem confined_release : Confined Cmd.Touches (e.Counts org) (e.release now tier org quotaType amount) := by
  refine confined_gated fun qt => ?_
  split
  · exact .ret _
  split
  · exact .ret _
  refine confined_key (fun key hkey => hkey) fun r => ?_
  unfold afterDecr
  split
  · split
    · refine confined_key (fun key hkey => hkey) fun r => ?_
      cases r <;> exact .ret _
    · exact .ret _
  · exact .ret _

theorem confined_getUsage : Confined Cmd.Touches (e.Counts org) (e.getUsage now tier org) := by
  refine .attempt fun _ _ => .call ?_ fun r => ?_
  · intro key hkey
    obtain ⟨qt, _, rfl⟩ := List.mem_map.mp hkey
    exact ⟨qt, now, rfl⟩
  · cases r <;> exact .ret _

theorem confined_perform (org : Str) (call : QuotaCall) :
    Confined Cmd.Touches (e.Counts org) (e.perform org call) := by
  cases call with
  | check => exact confined_check.map _
  | checkAndConsume => exact confined_checkAndConsume.map _
  | enforce => exact (confined_checkAndConsume.map _).map _
  | consumePartial => exact confined_consumePartial.map _
  | release => exact confined_release.map _
  | getUsage => exact confined_getUsage.map _

end Confined

/-- The calls of an organization return, and its counters end, as if the other organizations had never called. -/
theorem organizations_isolated (e : QuotaEnforcer) (org : Str) (redis : Redis) (as : List (TenantAction Nat Str QuotaCall)) :
    observe e.organizations.step e.organizations.returned (TenantAction.foreign org) (Tenants.init redis) as =
        observe e.organizations.step e.organizations.returned (TenantAction.foreign org) (Tenants.init redis)
          (as.filter fun a => !a.foreign org) ∧
      ∀ qt now, (run e.organizations.step (Tenants.init redis) as).server.lookup (e.key org qt now) =
        (run e.organizations.step (Tenants.init redis) (as.filter fun a => !a.foreign org)).server.lookup
          (e.key org qt now) := by
  have hapart : ∀ o o' k, e.Counts o k → e.Counts o' k → o = o' := fun _ _ _ => counts_apart
  have htame : e.organizations.Tame e.Counts (Tenants.init redis) := TenantSystem.tame_init redis
  have halike : e.organizations.Alike e.Counts org (Tenants.init redis) (Tenants.init redis) :=
    ⟨fun key _ => .refl key redis, rfl⟩
  have halone := TenantSystem.alone hapart confined_perform htame htame halike as
  exact ⟨halone.1, fun qt now => (halone.2.server _ ⟨qt, now, rfl⟩).2⟩

end QuotaEnforcer

end IsaCloud.Quota
