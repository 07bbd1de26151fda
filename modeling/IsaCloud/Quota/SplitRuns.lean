import IsaCloud.Quota.WindowRuns
import IsaCloud.Support.RateLimit

/-!
# Consuming a window piece by piece

A stream calls `consume_partial` for one portion after the other. While all of
it falls into one window, the scripts keep the account of `Headroom`: how the
total is cut into portions does not matter, and `check_and_consume` draws the
line where `consume_partial` does.
-/

namespace IsaCloud.Quota

set_option autoImplicit false

open Support Support.Text Support.Python Support.DateTime

/-! ## The scripts for every counter -/

theorem luaPartialConsume_above (s : Redis) (key : Str) (amount : Int) {limit : Int} (ttl : Nat)
    (hc : 2 ^ 53 < s.counter key) (hl : limit < 2 ^ 53) :
    luaPartialConsume s key amount limit ttl = some (s, [0, 0, tonumber (s.counter key), tonumber limit]) := by
  have hle : tonumber limit ≤ tonumber (s.counter key) := tonumber_mono (by omega)
  have hsub : Binary64.sub (tonumber limit) (tonumber (s.counter key)) ≤ 0 := by
    have := tonumber_mono (m := tonumber limit - tonumber (s.counter key)) (n := 0) (by omega)
    rwa [tonumber_of_le le_rfl (by omega)] at this
  have hgrant : partialGrant (s.counter key) amount limit ≤ 0 := by
    unfold partialGrant
    omega
  simp only [luaPartialConsume]
  rw [if_pos hgrant]

theorem luaWindowedConsume_above (s : Redis) (key : Str) {amount limit : Int} (ttl : Nat)
    (hc : 2 ^ 53 < s.counter key) (hl : limit < 2 ^ 53) (ha : 0 ≤ amount) :
    luaWindowedConsume s key amount limit ttl = some (s, [0, tonumber (s.counter key), tonumber limit]) := by
  have hcur : 2 ^ 53 ≤ tonumber (s.counter key) := le_tonumber (by omega) le_rfl (by omega)
  have hamt : 0 ≤ tonumber amount := le_tonumber le_rfl (by omega) ha
  have hsum : 2 ^ 53 ≤ tonumber (tonumber (s.counter key) + tonumber amount) :=
    le_tonumber (by omega) le_rfl (by omega)
  have hlim : tonumber limit < 2 ^ 53 := by
    by_cases hneg : limit < 0
    · have := tonumber_neg hneg
      omega
    · rwa [tonumber_of_le (by omega) (by omega)]
  have hex : exceeds (s.counter key) amount limit = true := decide_eq_true (lt_of_lt_of_le hlim hsum)
  simp only [luaWindowedConsume]
  rw [if_pos hex]

namespace Window
variable (w : Window) (t : FiniteTier w.qt)

structure Portion where
  pause : Nat
  amount : Nat

def consume (redis : Redis) (amount : Nat) : Redis × Except PyError PartialConsumption :=
  (w.enforcer.consumePartial redis.now t.tier w.org (.inl w.qt) amount).exec serve redis

def gate (redis : Redis) (amount : Nat) : Redis × Except PyError QuotaDecision :=
  (w.enforcer.checkAndConsume redis.now t.tier w.org (.inl w.qt) amount).exec serve redis

/-- One `consume_partial` for each portion. -/
def consumeAll (redis : Redis) : List Portion → Redis × List (Except PyError PartialConsumption)
  | [] => (redis, [])
  | p :: portions =>
    let first := w.consume t (redis.advance p.pause) p.amount
    let rest := consumeAll first.1 portions
    (rest.1, first.2 :: rest.2)

def counterNow (redis : Redis) : Int := redis.counter (w.key redis.now)

/-- The window and the counter of now are still there after `d` microseconds. -/
def Within (redis : Redis) (d : Nat) : Prop :=
  redis.now + d < w.windowEnd redis.now ∧
    ∀ deadline, redis.deadline (w.key redis.now) = some deadline → redis.now + d < deadline

def duration (portions : List Portion) : Nat := (portions.map Portion.pause).sum

def demand (portions : List Portion) : Nat := (portions.map Portion.amount).sum

/-- The account of a stream: the total is what fits, whole or in portions; each
grant is between zero and its request; after a cut one there is nothing left. -/
structure Accounted (redis : Redis) (portions : List Portion) (ps : List PartialConsumption) : Prop where
  answers : (w.consumeAll t redis portions).2 = ps.map .ok
  requests : ps.map PartialConsumption.requested = portions.map fun p => (p.amount : Int)
  total : (ps.map PartialConsumption.granted).sum =
    min (demand portions : Int) (max 0 (t.limit - w.counterNow redis))
  whole : ∃ p, (w.consume t redis (demand portions)).2 = .ok p ∧
    p.granted = (ps.map PartialConsumption.granted).sum
  bounded : ∀ p ∈ ps, 0 ≤ p.granted ∧ p.granted ≤ p.requested
  exhausted : ps.Pairwise fun p q => p.granted < p.requested → q.granted = 0

/-- `check_and_consume` allows what `consume_partial` would grant in full, and then leaves the same counter. -/
structure GateAgrees (redis : Redis) (amount : Nat) : Prop where
  allowed : ∃ d p, (w.gate t redis amount).2 = .ok d ∧ (w.consume t redis amount).2 = .ok p ∧
    (d.allowed = true ↔ p.granted = amount)
  counter : ∀ d, (w.gate t redis amount).2 = .ok d → d.allowed = true →
    w.counterNow (w.gate t redis amount).1 = w.counterNow (w.consume t redis amount).1

variable {w t}

/-! ## One call -/

/-- A grant, or none, of the room left; the counter moves by it and stays for the window. -/
structure Charges (redis redis' : Redis) (granted : Int) : Prop where
  now : redis'.now = redis.now
  counter : w.counterNow redis' = w.counterNow redis + granted
  within : ∀ d, w.Within redis d → w.Within redis' d

theorem charges_zero (redis : Redis) : Charges (w := w) redis redis 0 where
  now := rfl
  counter := (Int.add_zero _).symm
  within _ h := h

theorem charges_put (redis : Redis) (granted : Int) :
    Charges (w := w) redis (redis.put (w.key redis.now) (charged redis (w.key redis.now) granted w.qt.windowSeconds))
      granted where
  now := rfl
  counter := by
    have hpos : 0 < w.qt.windowSeconds := Nat.pos_of_mul_pos_right w.length_pos
    exact Redis.Server.counter_put_self (charged_live redis (w.key redis.now) granted hpos)
  within d h := by
    have hpos : 0 < w.qt.windowSeconds := Nat.pos_of_mul_pos_right w.length_pos
    refine ⟨h.1, ?_⟩
    intro deadline hd
    have hput := Redis.Server.deadline_put_self (k := w.key redis.now) (charged_live redis (w.key redis.now) granted hpos)
    rw [Redis.Server.put_now, hput] at hd
    have hend := w.windowEnd_le redis.now
    have hlt := h.1
    unfold charged at hd
    dsimp only at hd
    split at hd
    · cases hd
      exact Nat.lt_of_lt_of_le hlt hend
    · exact h.2 deadline hd

theorem consume_spec {redis : Redis} (amount : Nat) (hc : 0 ≤ w.counterNow redis)
    (hx : Exact (w.counterNow redis) amount t.limit) :
    ∃ p, (w.consume t redis amount).2 = .ok p ∧ p.requested = amount ∧
      p.granted = Headroom.granted t.limit (w.counterNow redis) amount ∧
      Charges (w := w) redis (w.consume t redis amount).1 p.granted := by
  have hamt := Int.natCast_nonneg amount
  have hk : w.enforcer.key w.org w.qt redis.now = w.key redis.now := rfl
  have ht : t.tier.quota w.qt = t.limit := rfl
  have hmin : min (amount : Int) (max 0 (t.limit - redis.counter (w.key redis.now))) =
      Headroom.granted t.limit (w.counterNow redis) amount := rfl
  have hnn : 0 ≤ Headroom.granted t.limit (w.counterNow redis) amount := Headroom.granted_nonneg hamt
  by_cases hc' : w.counterNow redis ≤ 2 ^ 53
  · simp only [consume, QuotaEnforcer.consumePartial_eq_call w.org_ne hamt t.finite, partialTtl_eq, hk, ht,
      Proc.exec_call, serve, Script.run, luaPartialConsume_eq hc hc' hamt hx, hmin]
    generalize Headroom.granted t.limit (w.counterNow redis) amount = granted at hnn ⊢
    by_cases hb : granted ≤ 0
    · have hzero : granted = 0 := by omega
      subst hzero
      simp only [le_refl, if_true, QuotaEnforcer.afterPartial, Proc.exec_ret]
      exact ⟨_, rfl, rfl, rfl, charges_zero redis⟩
    · simp only [hb, if_false, QuotaEnforcer.afterPartial, Proc.exec_ret]
      exact ⟨_, rfl, rfl, rfl, charges_put redis granted⟩
  · have hl : t.limit < 2 ^ 53 := hx.resolve_right (by omega)
    have hzero : Headroom.granted t.limit (w.counterNow redis) amount = 0 := by
      unfold Headroom.granted
      omega
    have hlua := luaPartialConsume_above redis (w.key redis.now) amount w.qt.windowSeconds (Int.not_le.mp hc') hl
    simp only [consume, QuotaEnforcer.consumePartial_eq_call w.org_ne hamt t.finite, partialTtl_eq, hk, ht,
      Proc.exec_call, serve, Script.run, hlua, QuotaEnforcer.afterPartial, Proc.exec_ret]
    exact ⟨_, rfl, rfl, hzero.symm, charges_zero redis⟩

theorem gate_spec {redis : Redis} {amount : Nat} (hc : 0 ≤ w.counterNow redis)
    (hx : Exact (w.counterNow redis) amount t.limit) :
    ∃ d, (w.gate t redis amount).2 = .ok d ∧ (d.allowed = true ↔ w.counterNow redis + amount ≤ t.limit) ∧
      (d.allowed = true → Charges (w := w) redis (w.gate t redis amount).1 amount) := by
  have hamt := Int.natCast_nonneg amount
  have hk : w.enforcer.key w.org w.qt redis.now = w.key redis.now := rfl
  have ht : t.tier.quota w.qt = t.limit := rfl
  have hscript : QuotaEnforcer.consumeScript w.qt = .windowedConsume := by
    rw [QuotaEnforcer.consumeScript, w.windowed]
    rfl
  by_cases hc' : w.counterNow redis ≤ 2 ^ 53
  · simp only [gate, QuotaEnforcer.checkAndConsume_eq_call w.org_ne hamt t.finite, hscript, hk, ht,
      Proc.exec_call, serve, Script.run, luaWindowedConsume_eq hc hc' hamt hx]
    by_cases hb : t.limit < redis.counter (w.key redis.now) + amount
    · simp only [hb, if_true, QuotaEnforcer.afterConsume, Proc.exec_ret]
      refine ⟨_, rfl, ?_, ?_⟩
      · exact ⟨fun hno => absurd hno (by simp [QuotaEnforcer.decision]), fun hle => absurd hb (Int.not_lt.mpr hle)⟩
      · intro hno
        exact absurd hno (by simp [QuotaEnforcer.decision])
    · simp only [hb, if_false, QuotaEnforcer.afterConsume, Proc.exec_ret]
      refine ⟨_, rfl, ?_, fun _ => charges_put redis amount⟩
      exact ⟨fun _ => Int.not_lt.mp hb, fun _ => by simp [QuotaEnforcer.decision]⟩
  · have hl : t.limit < 2 ^ 53 := hx.resolve_right (by omega)
    have hlua := luaWindowedConsume_above redis (w.key redis.now) w.qt.windowSeconds (Int.not_le.mp hc') hl hamt
    simp only [gate, QuotaEnforcer.checkAndConsume_eq_call w.org_ne hamt t.finite, hscript, hk, ht,
      Proc.exec_call, serve, Script.run, hlua, QuotaEnforcer.afterConsume, Proc.exec_ret]
    refine ⟨_, rfl, ?_, ?_⟩
    · exact ⟨fun hno => absurd hno (by simp [QuotaEnforcer.decision]), fun hle => absurd hle (by omega)⟩
    · intro hno
      exact absurd hno (by simp [QuotaEnforcer.decision])

/-! ## A stream of calls -/

/-- Time within the window moves neither the key nor the counter. -/
theorem within_advance {redis : Redis} {d d' : Nat} (h : w.Within redis (d + d')) :
    w.counterNow (redis.advance d) = w.counterNow redis ∧ w.Within (redis.advance d) d' := by
  have hkey : w.key (redis.now + d) = w.key redis.now := by
    apply (w.key_eq_iff_window _ _).mpr
    have hlt : redis.now + d < w.windowEnd redis.now := by
      have := h.1
      omega
    have hle := Nat.div_le_div_right (c := w.length) (Nat.le_add_right redis.now d)
    have hub := (Nat.div_lt_iff_lt_mul w.length_pos).mpr hlt
    omega
  have hlook : (redis.advance d).lookup (w.key redis.now) = redis.lookup (w.key redis.now) := by
    cases hl : redis.lookup (w.key redis.now) with
    | none =>
      cases hadv : (redis.advance d).lookup (w.key redis.now) with
      | none => rfl
      | some e => exact absurd (Redis.Server.lookup_of_lookup_advance hadv) (by simp [hl])
    | some e =>
      apply Redis.Server.lookup_advance hl
      intro dl hdl
      have := h.2 dl (by simp [Redis.Server.deadline, hl, hdl])
      omega
  refine ⟨?_, ?_, ?_⟩
  · simp only [counterNow, Redis.Server.advance_now, hkey, Redis.Server.counter, Redis.Server.get, hlook]
  · have hwin := (w.key_eq_iff_window _ _).mp hkey
    have := h.1
    simp only [Redis.Server.advance_now, windowEnd, hwin] at this ⊢
    omega
  · intro dl hdl
    simp only [Redis.Server.advance_now, hkey, Redis.Server.deadline, hlook] at hdl ⊢
    have := h.2 dl hdl
    omega

theorem demand_cons (p : Portion) (portions : List Portion) :
    demand (p :: portions) = p.amount + demand portions := by
  rw [demand, List.map_cons, List.sum_cons, demand]

theorem sum_amounts (portions : List Portion) :
    (portions.map fun p => (p.amount : Int)).sum = (demand portions : Int) := by
  induction portions with
  | nil => rfl
  | cons p portions ih => rw [List.map_cons, List.sum_cons, ih, demand_cons, Int.natCast_add]

theorem duration_cons (p : Portion) (portions : List Portion) :
    duration (p :: portions) = p.pause + duration portions := by
  rw [duration, List.map_cons, List.sum_cons, duration]

/-- The state after a stream, with the account of `Headroom` as its answers. -/
theorem consumeAll_spec {redis : Redis} {portions : List Portion} {spare : Nat} (more : Nat)
    (hc : 0 ≤ w.counterNow redis) (hw : w.Within redis (duration portions + spare))
    (hx : Exact (w.counterNow redis) (demand portions + more) t.limit) :
    ∃ ps : List PartialConsumption, (w.consumeAll t redis portions).2 = ps.map .ok ∧
      ps.map PartialConsumption.requested = portions.map (fun p => (p.amount : Int)) ∧
      ps.map PartialConsumption.granted =
        Headroom.grants t.limit (w.counterNow redis) (portions.map fun p => (p.amount : Int)) ∧
      0 ≤ w.counterNow (w.consumeAll t redis portions).1 ∧
      Exact (w.counterNow (w.consumeAll t redis portions).1) more t.limit ∧
      w.Within (w.consumeAll t redis portions).1 spare := by
  induction portions generalizing redis with
  | nil =>
    refine ⟨[], rfl, rfl, rfl, hc, ?_, ?_⟩
    · simpa [demand, consumeAll] using hx
    · simpa [duration, consumeAll] using hw
  | cons p portions ih =>
    rw [duration_cons, Nat.add_assoc] at hw
    rw [demand_cons] at hx
    obtain ⟨hcounter, hwithin⟩ := within_advance hw
    rw [← hcounter] at hc hx
    obtain ⟨first, hok, hreq, hgrant, hcharge⟩ := consume_spec (t := t) p.amount hc
      (hx.imp_right fun h => by omega)
    have hnn : 0 ≤ first.granted := hgrant ▸ Headroom.granted_nonneg (Int.natCast_nonneg _)
    have hle : first.granted ≤ p.amount := hgrant ▸ Headroom.granted_le
    obtain ⟨ps, hps, hreqs, hgrants, hrest⟩ := @ih (w.consume t (redis.advance p.pause) p.amount).1
      (by rw [hcharge.counter]; omega) (hcharge.within _ hwithin)
      (hx.imp_right fun h => by rw [hcharge.counter]; omega)
    refine ⟨first :: ps, ?_, ?_, ?_, hrest⟩
    · rw [consumeAll, hps, hok, List.map_cons]
    · rw [List.map_cons, List.map_cons, hreq, hreqs]
    · rw [List.map_cons, List.map_cons, Headroom.grants, hgrants, hcharge.counter, hcounter, hgrant, hcounter]

theorem accounted_of_grants {redis : Redis} {portions : List Portion} {ps : List PartialConsumption}
    (hc : 0 ≤ w.counterNow redis) (hx : Exact (w.counterNow redis) (demand portions) t.limit)
    (hok : (w.consumeAll t redis portions).2 = ps.map .ok)
    (hreq : ps.map PartialConsumption.requested = portions.map fun p => (p.amount : Int))
    (hgrant : ps.map PartialConsumption.granted =
      Headroom.grants t.limit (w.counterNow redis) (portions.map fun p => (p.amount : Int))) :
    w.Accounted t redis portions ps := by
  have hnn : ∀ a ∈ portions.map (fun p => (p.amount : Int)), 0 ≤ a := by
    intro a ha
    obtain ⟨p, -, rfl⟩ := List.mem_map.mp ha
    exact Int.natCast_nonneg _
  have hzip : (portions.map fun p => (p.amount : Int)).zip
      (Headroom.grants t.limit (w.counterNow redis) (portions.map fun p => (p.amount : Int))) =
      ps.map fun p => (p.requested, p.granted) := by
    rw [← hgrant, ← hreq, List.zip_map']
  have htotal : (ps.map PartialConsumption.granted).sum =
      Headroom.granted t.limit (w.counterNow redis) (demand portions) := by
    rw [hgrant, Headroom.sum_grants hnn, sum_amounts]
  obtain ⟨p, hp, -, hpg, -⟩ := consume_spec (t := t) (demand portions) hc hx
  refine ⟨hok, hreq, htotal, ⟨p, hp, hpg.trans htotal.symm⟩, ?_, ?_⟩
  · intro q hq
    have hb := Headroom.bounded_grants t.limit (w.counterNow redis) hnn
    rw [hzip] at hb
    exact hb _ (List.mem_map_of_mem hq)
  · have hpair := Headroom.exhausted_grants t.limit (w.counterNow redis) hnn
    rw [hzip] at hpair
    exact List.pairwise_map.mp hpair

theorem gateAgrees {redis : Redis} {amount : Nat} (hc : 0 ≤ w.counterNow redis) (ha : 0 < amount)
    (hx : Exact (w.counterNow redis) amount t.limit) : w.GateAgrees t redis amount := by
  obtain ⟨d, hd, hallowed, hcharge⟩ := gate_spec (t := t) hc hx
  obtain ⟨p, hp, -, hgrant, hpcharge⟩ := consume_spec (t := t) amount hc hx
  have hall : p.granted = amount ↔ w.counterNow redis + amount ≤ t.limit :=
    hgrant ▸ Headroom.granted_eq_self_iff (Int.natCast_pos.mpr ha)
  constructor
  · exact ⟨d, p, hd, hp, hallowed.trans hall.symm⟩
  · intro d' hd' hyes
    rw [hd] at hd'
    cases hd'
    rw [(hcharge hyes).counter, hpcharge.counter, hall.mpr (hallowed.mp hyes)]

/-- Consumption is split-invariant in every stream within one window that meets no rounding. -/
theorem consumption_split_invariant (w : Window) (t : FiniteTier w.qt) (redis : Redis) (portions : List Portion)
    (last : Portion) (hc : 0 ≤ w.counterNow redis) (hw : w.Within redis (duration portions + last.pause))
    (hx : Exact (w.counterNow redis) (demand portions + last.amount) t.limit) :
    (∃ ps, w.Accounted t redis portions ps) ∧
      (0 < last.amount → w.GateAgrees t ((w.consumeAll t redis portions).1.advance last.pause) last.amount) := by
  obtain ⟨ps, hok, hreq, hgrant, hc', hx', hw'⟩ := consumeAll_spec (t := t) last.amount hc hw hx
  refine ⟨⟨ps, accounted_of_grants hc (hx.imp_right fun h => by omega) hok hreq hgrant⟩, ?_⟩
  intro ha
  have hlast : w.Within (w.consumeAll t redis portions).1 (last.pause + 0) := hw'
  have hadv := (within_advance hlast).1
  exact gateAgrees (hadv.symm ▸ hc') ha (hadv.symm ▸ hx')

theorem within_init (w : Window) {start d : Nat} (h : start + d < w.windowEnd start) :
    w.Within (init start).redis d := by
  refine ⟨h, ?_⟩
  intro deadline hd
  cases hd

theorem split_invariant_seven_and_seven :
    (∃ ps, hourlyTokens.Accounted (tokenTier 10 (by decide)) (init 0).redis [⟨0, 7⟩, ⟨usPerSecond, 7⟩] ps) ∧
      (0 < 1 → hourlyTokens.GateAgrees (tokenTier 10 (by decide))
        ((hourlyTokens.consumeAll (tokenTier 10 (by decide)) (init 0).redis
          [⟨0, 7⟩, ⟨usPerSecond, 7⟩]).1.advance usPerSecond) 1) :=
  consumption_split_invariant hourlyTokens (tokenTier 10 (by decide)) (init 0).redis [⟨0, 7⟩, ⟨usPerSecond, 7⟩]
    ⟨usPerSecond, 1⟩ (by decide) (within_init hourlyTokens (by decide)) (.inl (by decide))

/-- One token is left of a limit of `2 ^ 53`: the gate rounds a request for two
down to the limit, where `consume_partial` grants one. -/
theorem gate_overshoots_by_rounding :
    ¬ ∀ (w : Window) (t : FiniteTier w.qt) (redis : Redis) (portions : List Portion) (last : Portion),
      0 ≤ w.counterNow redis → w.Within redis (duration portions + last.pause) →
      (∃ ps, w.Accounted t redis portions ps) ∧
        (0 < last.amount → w.GateAgrees t ((w.consumeAll t redis portions).1.advance last.pause) last.amount) := by
  intro h
  have hagree := (h hourlyTokens (tokenTier (2 ^ 53) (by decide)) (init 0).redis [⟨0, 2 ^ 53 - 1⟩] ⟨0, 2⟩
    (by decide) (within_init hourlyTokens (by decide))).2 (by decide)
  obtain ⟨d, p, hd, hp, hiff⟩ := hagree.allowed
  have hyes : ((hourlyTokens.gate (tokenTier (2 ^ 53) (by decide)) ((hourlyTokens.consumeAll
      (tokenTier (2 ^ 53) (by decide)) (init 0).redis [⟨0, 2 ^ 53 - 1⟩]).1.advance 0) 2).2.toOption.map
        QuotaDecision.allowed) = some true := by decide
  have hone : ((hourlyTokens.consume (tokenTier (2 ^ 53) (by decide)) ((hourlyTokens.consumeAll
      (tokenTier (2 ^ 53) (by decide)) (init 0).redis [⟨0, 2 ^ 53 - 1⟩]).1.advance 0) 2).2.toOption.map
        PartialConsumption.granted) = some 1 := by decide
  rw [hd] at hyes
  rw [hp] at hone
  have hgranted : p.granted = 1 := Option.some.inj hone
  rw [hgranted] at hiff
  exact absurd (hiff.mp (Option.some.inj hyes)) (by decide)

end Window

end IsaCloud.Quota
