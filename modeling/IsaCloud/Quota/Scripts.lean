import IsaCloud.Quota.Types
import IsaCloud.Support.Binary64
import IsaCloud.Support.Redis

/-!
# The Lua scripts and the Redis commands of the enforcer

Lua computes in doubles: `tonumber` rounds, and so does every sum. A number
handed back to `redis.call` is printed in full and must be a 64-bit integer, or
the call and with it the script fails.
-/

namespace IsaCloud.Quota

set_option autoImplicit false

open Support Support.Text Support.DateTime

abbrev Redis := Redis.Server Str Int

def tonumber (n : Int) : Int := Binary64.ofInt n

/-- The `current + amount > limit` test of the scripts. -/
def exceeds (current amount limit : Int) : Bool :=
  decide (tonumber limit < Binary64.add (tonumber current) (tonumber amount))

/-- `_LUA_WINDOWED_CONSUME`; `none` is a script error. -/
def luaWindowedConsume (s : Redis) (key : Str) (amount limit : Int) (ttl : Nat) :
    Option (Redis × List Int) :=
  let current := s.counter key
  if exceeds current amount limit then some (s, [0, tonumber current, tonumber limit])
  else
    match s.incrBy key (tonumber amount) with
    | none => none
    | some (s', total) =>
      let s'' := if tonumber total = tonumber amount then s'.expire key (ttl * usPerSecond) else s'
      some (s'', [1, tonumber total, tonumber limit])

/-- `_LUA_GAUGE_ACQUIRE`; the same gate without a deadline. -/
def luaGaugeAcquire (s : Redis) (key : Str) (amount limit : Int) : Option (Redis × List Int) :=
  let current := s.counter key
  if exceeds current amount limit then some (s, [0, tonumber current, tonumber limit])
  else
    match s.incrBy key (tonumber amount) with
    | none => none
    | some (s', total) => some (s', [1, tonumber total, tonumber limit])

/-- The `granted` of `_LUA_PARTIAL_CONSUME`: the amount, cut to the headroom. -/
def partialGrant (current amount limit : Int) : Int :=
  min (tonumber amount) (max 0 (Binary64.sub (tonumber limit) (tonumber current)))

/-- `_LUA_PARTIAL_CONSUME`. -/
def luaPartialConsume (s : Redis) (key : Str) (amount limit : Int) (ttl : Nat) :
    Option (Redis × List Int) :=
  let current := s.counter key
  let granted := partialGrant current amount limit
  if granted ≤ 0 then some (s, [0, 0, tonumber current, tonumber limit])
  else
    match s.incrBy key granted with
    | none => none
    | some (s', total) =>
      let s'' := if tonumber total = granted then s'.expire key (ttl * usPerSecond) else s'
      some (s'', [1, granted, tonumber total, tonumber limit])

inductive Script where
  | windowedConsume
  | gaugeAcquire
  | partialConsume
  deriving DecidableEq, Repr

def Script.run (script : Script) (s : Redis) (key : Str) (amount limit : Int) (ttl : Nat) :
    Option (Redis × List Int) :=
  match script with
  | .windowedConsume => luaWindowedConsume s key amount limit ttl
  | .gaugeAcquire => luaGaugeAcquire s key amount limit
  | .partialConsume => luaPartialConsume s key amount limit ttl

inductive Cmd where
  | get (key : Str)
  | mget (keys : List Str)
  | eval (script : Script) (key : Str) (amount limit : Int) (ttl : Nat)
  | decrBy (key : Str) (amount : Int)
  | set (key : Str) (value : Int)

inductive Reply where
  | bulk (value : Option Int)
  | bulks (values : List (Option Int))
  | array (values : List Int)
  | int (n : Int)
  | ok
  | error

/-- One atomic command. An error reply leaves the store as it was. -/
def serve (s : Redis) : Cmd → Redis × Reply
  | .get key => (s, .bulk (s.get key))
  | .mget keys => (s, .bulks (keys.map s.get))
  | .eval script key amount limit ttl =>
    match script.run s key amount limit ttl with
    | some (s', values) => (s', .array values)
    | none => (s, .error)
  | .decrBy key amount =>
    match s.decrBy key amount with
    | some (s', n) => (s', .int n)
    | none => (s, .error)
  | .set key value => (s.set key value, .ok)

/-! ## The scripts in exact arithmetic

While the counter stays within `2 ^ 53`, rounding changes no answer unless the
limit itself is `2 ^ 53` or more and the request would pass that mark. -/

/-- No rounding can show: the limit is exact, or the total stays exact. -/
def Exact (current amount limit : Int) : Prop := limit < 2 ^ 53 ∨ current + amount ≤ 2 ^ 53

theorem tonumber_of_le {n : Int} (h0 : 0 ≤ n) (h : n ≤ 2 ^ 53) : tonumber n = n :=
  Binary64.ofInt_of_abs_le (by omega) h

theorem tonumber_mono {m n : Int} (h : m ≤ n) : tonumber m ≤ tonumber n := Binary64.ofInt_mono h

theorem le_tonumber {m n : Int} (h0 : 0 ≤ m) (hm : m ≤ 2 ^ 53) (h : m ≤ n) : m ≤ tonumber n := by
  have := tonumber_mono h
  rwa [tonumber_of_le h0 hm] at this

theorem tonumber_neg {n : Int} (h : n < 0) : tonumber n < 0 := by
  have hle : tonumber n ≤ tonumber (-1) := tonumber_mono (by omega)
  have hone : tonumber (-1) = -1 := Binary64.ofInt_of_abs_le (by omega) (by omega)
  omega

theorem exceeds_iff {current amount limit : Int} (hc : 0 ≤ current) (hc' : current ≤ 2 ^ 53)
    (ha : 0 ≤ amount) (hx : Exact current amount limit) :
    exceeds current amount limit = true ↔ limit < current + amount := by
  simp only [exceeds, decide_eq_true_eq, tonumber_of_le hc hc', Binary64.add]
  change tonumber limit < tonumber (current + tonumber amount) ↔ _
  by_cases hbig : current + amount ≤ 2 ^ 53
  · rw [tonumber_of_le ha (by omega), tonumber_of_le (by omega) hbig]
    by_cases hl : limit < 0
    · have := tonumber_neg hl
      omega
    by_cases hl' : limit ≤ 2 ^ 53
    · rw [tonumber_of_le (by omega) hl']
    · have := le_tonumber (m := 2 ^ 53) (by omega) le_rfl (n := limit) (by omega)
      omega
  · -- the exact total passes `2 ^ 53`, hence so does the rounded one, and the limit does not
    have hl : limit < 2 ^ 53 := hx.resolve_right hbig
    have hsum : 2 ^ 53 ≤ tonumber (current + tonumber amount) := by
      apply le_tonumber (by omega) le_rfl
      by_cases hamt : amount ≤ 2 ^ 53
      · rw [tonumber_of_le ha hamt]
        omega
      · have := le_tonumber (m := 2 ^ 53) (by omega) le_rfl (n := amount) (by omega)
        omega
    have hlim : tonumber limit < 2 ^ 53 := by
      by_cases hneg : limit < 0
      · have := tonumber_neg hneg
        omega
      · rw [tonumber_of_le (by omega) (by omega)]
        exact hl
    omega

theorem partialGrant_eq {current amount limit : Int} (hc : 0 ≤ current) (hc' : current ≤ 2 ^ 53)
    (ha : 0 ≤ amount) (hx : Exact current amount limit) :
    partialGrant current amount limit = min amount (max 0 (limit - current)) := by
  simp only [partialGrant, tonumber_of_le hc hc', Binary64.sub]
  change min (tonumber amount) (max 0 (tonumber (tonumber limit - current))) = _
  by_cases hlc : limit < current
  · have h1 := tonumber_mono hlc.le
    rw [tonumber_of_le hc hc'] at h1
    have h2 : tonumber (tonumber limit - current) ≤ tonumber 0 := tonumber_mono (by omega)
    rw [tonumber_of_le le_rfl (by omega)] at h2
    have h3 := le_tonumber (m := 0) (by omega) (by omega) ha
    omega
  by_cases hl : limit < 2 ^ 53
  · rw [tonumber_of_le (n := limit) (by omega) (by omega),
      tonumber_of_le (n := limit - current) (by omega) (by omega)]
    by_cases hamt : amount ≤ 2 ^ 53
    · rw [tonumber_of_le ha hamt]
    · have := le_tonumber (m := 2 ^ 53) (by omega) le_rfl (n := amount) (by omega)
      omega
  · have hsum : current + amount ≤ 2 ^ 53 := hx.resolve_left hl
    rw [tonumber_of_le ha (by omega)]
    have h1 := le_tonumber (m := 2 ^ 53) (by omega) le_rfl (n := limit) (by omega)
    have h2 := le_tonumber (m := amount) ha (by omega) (n := tonumber limit - current) (by omega)
    omega

theorem int64_of_le {n : Int} (h0 : 0 ≤ n) (h : n ≤ 2 ^ 53) : Redis.int64 n = true := by
  simp only [Redis.int64, decide_eq_true_eq]
  omega

/-- The entry a grant of `granted` leaves behind: the first write of a key (and
a write on a zero counter) starts the deadline, later ones keep it. -/
def charged (s : Redis) (key : Str) (granted : Int) (ttl : Nat) : Redis.Entry Int where
  value := s.counter key + granted
  deadline := if s.counter key = 0 then some (s.now + ttl * usPerSecond) else s.deadline key

theorem charged_live (s : Redis) (key : Str) (granted : Int) {ttl : Nat} (httl : 0 < ttl) :
    (charged s key granted ttl).live s.now = true := by
  unfold charged
  split
  · have : 0 < ttl * usPerSecond := Nat.mul_pos httl (by decide)
    simp only [Redis.Entry.live, decide_eq_true_eq]
    omega
  · exact Redis.Server.live_deadline _

theorem incr_expire {s : Redis} {key : Str} {granted : Int} (ttl : Nat)
    (hc : 0 ≤ s.counter key) (hg : 0 ≤ granted) (hsum : s.counter key + granted ≤ 2 ^ 53) :
    ∃ s', s.incrBy key granted = some (s', s.counter key + granted) ∧
      (if tonumber (s.counter key + granted) = granted then s'.expire key (ttl * usPerSecond)
       else s') = s.put key (charged s key granted ttl) := by
  refine ⟨_, Redis.Server.incrBy_of_fits (int64_of_le hg (by omega))
    (int64_of_le (by omega) hsum), ?_⟩
  rw [tonumber_of_le (by omega) hsum]
  unfold charged
  split
  · rw [Redis.Server.expire_put _ (Redis.Server.live_deadline _), if_pos (by omega)]
  · rw [if_neg (by omega)]

theorem luaWindowedConsume_eq {s : Redis} {key : Str} {amount limit : Int} {ttl : Nat}
    (hc : 0 ≤ s.counter key) (hc' : s.counter key ≤ 2 ^ 53) (ha : 0 ≤ amount)
    (hx : Exact (s.counter key) amount limit) :
    luaWindowedConsume s key amount limit ttl =
      if limit < s.counter key + amount then some (s, [0, s.counter key, tonumber limit])
      else some (s.put key (charged s key amount ttl),
        [1, s.counter key + amount, tonumber limit]) := by
  simp only [luaWindowedConsume]
  by_cases hb : limit < s.counter key + amount
  · rw [if_pos ((exceeds_iff hc hc' ha hx).mpr hb), if_pos hb, tonumber_of_le hc hc']
  · have hsum : s.counter key + amount ≤ 2 ^ 53 := by
      rcases hx with hx | hx <;> omega
    obtain ⟨s', hincr, hexp⟩ := incr_expire ttl hc ha hsum
    rw [if_neg (mt (exceeds_iff hc hc' ha hx).mp hb), if_neg hb, tonumber_of_le ha (by omega), hincr]
    simp only [hexp]
    rw [tonumber_of_le (by omega) hsum]

theorem luaPartialConsume_eq {s : Redis} {key : Str} {amount limit : Int} {ttl : Nat}
    (hc : 0 ≤ s.counter key) (hc' : s.counter key ≤ 2 ^ 53) (ha : 0 ≤ amount)
    (hx : Exact (s.counter key) amount limit) :
    luaPartialConsume s key amount limit ttl =
      let granted := min amount (max 0 (limit - s.counter key))
      if granted ≤ 0 then some (s, [0, 0, s.counter key, tonumber limit])
      else some (s.put key (charged s key granted ttl),
        [1, granted, s.counter key + granted, tonumber limit]) := by
  simp only [luaPartialConsume, partialGrant_eq hc hc' ha hx]
  set granted := min amount (max 0 (limit - s.counter key)) with hg
  by_cases hb : granted ≤ 0
  · rw [if_pos hb, if_pos hb, tonumber_of_le hc hc']
  · have hsum : s.counter key + granted ≤ 2 ^ 53 := by
      rcases hx with hx | hx <;> omega
    obtain ⟨s', hincr, hexp⟩ := incr_expire ttl hc (by omega : 0 ≤ granted) hsum
    rw [if_neg hb, if_neg hb, hincr]
    simp only [hexp]
    rw [tonumber_of_le (by omega) hsum]

theorem luaGaugeAcquire_eq {s : Redis} {key : Str} {amount limit : Int}
    (hc : 0 ≤ s.counter key) (hc' : s.counter key ≤ 2 ^ 53) (ha : 0 ≤ amount)
    (hx : Exact (s.counter key) amount limit) :
    luaGaugeAcquire s key amount limit =
      if limit < s.counter key + amount then some (s, [0, s.counter key, tonumber limit])
      else some (s.put key ⟨s.counter key + amount, s.deadline key⟩,
        [1, s.counter key + amount, tonumber limit]) := by
  simp only [luaGaugeAcquire]
  by_cases hb : limit < s.counter key + amount
  · rw [if_pos ((exceeds_iff hc hc' ha hx).mpr hb), if_pos hb, tonumber_of_le hc hc']
  · have hsum : s.counter key + amount ≤ 2 ^ 53 := by
      rcases hx with hx | hx <;> omega
    rw [if_neg (mt (exceeds_iff hc hc' ha hx).mp hb), if_neg hb, tonumber_of_le ha (by omega),
      Redis.Server.incrBy_of_fits (int64_of_le ha (by omega)) (int64_of_le (by omega) hsum)]
    simp only [tonumber_of_le (by omega : 0 ≤ s.counter key + amount) hsum]

end IsaCloud.Quota
