import IsaCloud.Quota.Enforcer

/-!
# The worker gauge over serial runs

`check_and_consume`, `consume_partial` and `release` on `ray_workers`, one call
after the other, with time passing in between. The gauge is meant to be the
number of slots granted and not yet returned. `consume_partial` hands the script
of the windowed counters a fallback TTL of a day, so a gauge it started from
zero disappears while its slots are still held; `Gauge.InTime` is what a run
needs to be free of that.
-/

namespace IsaCloud.Quota

set_option autoImplicit false

open Support Support.Text Support.DateTime

/-- What is fixed during a run: the enforcer, one organisation and its tier. -/
structure Gauge where
  enforcer : QuotaEnforcer
  org : Str
  org_ne : org ≠ []
  tier : TierQuota
  finite : tier.quota .rayWorkers ≠ unlimited

inductive GaugeAction where
  | tick (d : Nat)
  | acquire (amount : Nat)
  | consumePartial (amount : Nat)
  | release (amount : Nat)

structure GaugeState where
  redis : Redis
  /-- Slots granted and not yet returned. -/
  outstanding : Int

namespace Gauge
variable (g : Gauge)

def limit : Int := g.tier.quota .rayWorkers

/-- The gauge has one key, whatever the time. -/
def key : Str := g.enforcer.key g.org .rayWorkers 0

theorem key_eq (now : Instant) : g.enforcer.key g.org .rayWorkers now = g.key := rfl

def acquire (now : Instant) (amount : Nat) : Client QuotaDecision :=
  g.enforcer.checkAndConsume now g.tier g.org (.inl .rayWorkers) amount

def consumePartial (now : Instant) (amount : Nat) : Client PartialConsumption :=
  g.enforcer.consumePartial now g.tier g.org (.inl .rayWorkers) amount

def release (now : Instant) (amount : Nat) : Client Bool :=
  g.enforcer.release now g.tier g.org (.inl .rayWorkers) amount

def step (s : GaugeState) : GaugeAction → GaugeState
  | .tick d => { s with redis := s.redis.advance d }
  | .acquire amount =>
    match (g.acquire s.redis.now amount).exec serve s.redis with
    | (redis, .ok d) => ⟨redis, if d.allowed then s.outstanding + amount else s.outstanding⟩
    | (redis, .error _) => { s with redis := redis }
  | .consumePartial amount =>
    match (g.consumePartial s.redis.now amount).exec serve s.redis with
    | (redis, .ok p) => ⟨redis, s.outstanding + p.granted⟩
    | (redis, .error _) => { s with redis := redis }
  | .release amount =>
    ⟨((g.release s.redis.now amount).exec serve s.redis).1, s.outstanding - amount⟩

def init (start : Instant) : GaugeState := ⟨.empty start, 0⟩

/-- Callers return only slots they hold. -/
def Legal (s : GaugeState) : GaugeAction → Prop
  | .release amount => (amount : Int) ≤ s.outstanding
  | _ => True

structure Sound (s : GaugeState) : Prop where
  seen : s.redis.counter g.key = s.outstanding
  within : s.outstanding ≤ g.limit

/-- Time does not reach the deadline of a gauge in use, and a grant meets no
rounding. -/
def InTime (s : GaugeState) : GaugeAction → Prop
  | .tick d => s.redis.counter g.key = 0 ∨ ∀ t, s.redis.deadline g.key = some t → s.redis.now + d < t
  | .acquire amount => Exact (s.redis.counter g.key) amount g.limit
  | .consumePartial amount => Exact (s.redis.counter g.key) amount g.limit
  | .release _ => True

/-- Between two calls the gauge is the number of slots held, far from any
rounding. -/
structure Inv (s : GaugeState) : Prop where
  sound : g.Sound s
  nonneg : 0 ≤ s.outstanding
  small : s.outstanding ≤ 2 ^ 53

variable {g}

theorem inv_init (hl : 0 ≤ g.limit) (start : Instant) : g.Inv (init start) where
  sound := ⟨by simp [init, Redis.Server.counter, Redis.Server.get, Redis.Server.lookup,
    Redis.Server.empty], hl⟩
  nonneg := Int.le_refl 0
  small := by simp [init]

theorem inv_tick {s : GaugeState} (h : g.Inv s) {d : Nat} (ht : g.InTime s (.tick d)) :
    g.Inv (g.step s (.tick d)) := by
  refine ⟨⟨?_, h.sound.within⟩, h.nonneg, h.small⟩
  change (s.redis.advance d).counter g.key = s.outstanding
  rw [← h.sound.seen]
  cases hl : (s.redis.advance d).lookup g.key with
  | some e =>
    rw [Redis.Server.counter_of_lookup hl,
      Redis.Server.counter_of_lookup (Redis.Server.lookup_of_lookup_advance hl)]
  | none =>
    rw [Redis.Server.counter_of_lookup_none hl]
    rcases ht with hz | hdl
    · exact hz.symm
    · cases hold : s.redis.lookup g.key with
      | none => exact (Redis.Server.counter_of_lookup_none hold).symm
      | some e =>
        -- a key whose deadline is not reached is still there
        have hstill := Redis.Server.lookup_advance hold (d := d) (by
          intro t hte
          exact hdl t (by simp [Redis.Server.deadline, hold, hte]))
        rw [hstill] at hl
        cases hl

theorem step_acquire {s : GaugeState} (h : g.Inv s) {amount : Nat}
    (hx : g.InTime s (.acquire amount)) :
    g.step s (.acquire amount) =
      if g.limit < s.outstanding + amount then s
      else ⟨s.redis.put g.key ⟨s.outstanding + amount, s.redis.deadline g.key⟩,
        s.outstanding + amount⟩ := by
  have hamt := Int.natCast_nonneg amount
  have ht : g.tier.quota .rayWorkers = g.limit := rfl
  have hseen := h.sound.seen
  have h0 : 0 ≤ s.redis.counter g.key := hseen ▸ h.nonneg
  have h1 : s.redis.counter g.key ≤ 2 ^ 53 := hseen ▸ h.small
  simp only [step, acquire, QuotaEnforcer.checkAndConsume_eq_call g.org_ne hamt g.finite, key_eq, ht,
    QuotaEnforcer.consumeScript, QuotaType.isConcurrency, if_true, Proc.exec_call, serve,
    Script.run, luaGaugeAcquire_eq h0 h1 hamt hx]
  rw [hseen]
  by_cases hb : g.limit < s.outstanding + amount
  · simp [hb, QuotaEnforcer.afterConsume, QuotaEnforcer.decision]
  · simp [hb, QuotaEnforcer.afterConsume, QuotaEnforcer.decision]

theorem step_consumePartial {s : GaugeState} (h : g.Inv s) {amount : Nat}
    (hx : g.InTime s (.consumePartial amount)) :
    g.step s (.consumePartial amount) =
      let granted := min (amount : Int) (max 0 (g.limit - s.outstanding))
      if granted ≤ 0 then s
      else ⟨s.redis.put g.key (charged s.redis g.key granted 86400), s.outstanding + granted⟩ := by
  have hamt := Int.natCast_nonneg amount
  have ht : g.tier.quota .rayWorkers = g.limit := rfl
  have hseen := h.sound.seen
  have h0 : 0 ≤ s.redis.counter g.key := hseen ▸ h.nonneg
  have h1 : s.redis.counter g.key ≤ 2 ^ 53 := hseen ▸ h.small
  have httl : QuotaEnforcer.partialTtl .rayWorkers = 86400 := rfl
  simp only [step, consumePartial, QuotaEnforcer.consumePartial_eq_call g.org_ne hamt g.finite,
    httl, key_eq, ht, Proc.exec_call, serve, Script.run, luaPartialConsume_eq h0 h1 hamt hx]
  rw [hseen]
  generalize min (amount : Int) (max 0 (g.limit - s.outstanding)) = granted
  by_cases hb : granted ≤ 0
  · simp [hb, QuotaEnforcer.afterPartial]
  · simp [hb, QuotaEnforcer.afterPartial]

theorem step_release {s : GaugeState} (h : g.Inv s) {amount : Nat}
    (hlegal : Legal s (.release amount)) :
    g.step s (.release amount) =
      ⟨s.redis.put g.key ⟨s.outstanding - amount, s.redis.deadline g.key⟩,
        s.outstanding - amount⟩ := by
  have hamt := Int.natCast_nonneg amount
  have hseen := h.sound.seen
  have hle : (amount : Int) ≤ s.outstanding := hlegal
  have hsmall := h.small
  have hfit : Redis.int64 (s.redis.counter g.key - (amount : Int)) = true := by
    rw [hseen]
    exact int64_of_le (by omega) (by omega)
  have hdecr := Redis.Server.decrBy_of_fits (int64_of_le hamt (by omega)) hamt hfit
  rw [hseen] at hdecr
  have hrel : (g.release s.redis.now amount).exec serve s.redis =
      (s.redis.put g.key ⟨s.outstanding - amount, s.redis.deadline g.key⟩, .ok true) :=
    QuotaEnforcer.release_exec g.org_ne hamt g.finite hdecr (by omega)
  rw [step, hrel]

/-- What every write of the gauge leaves: the new count, under a live key. -/
theorem inv_put {s : GaugeState} {v : Int} {e : Redis.Entry Int} (hv : e.value = v)
    (hlive : e.live s.redis.now = true) (h0 : 0 ≤ v) (hlim : v ≤ g.limit) (h1 : v ≤ 2 ^ 53) :
    g.Inv ⟨s.redis.put g.key e, v⟩ :=
  ⟨⟨by rw [Redis.Server.counter_of_lookup (Redis.Server.lookup_put_self _ _ _ hlive), hv], hlim⟩,
    h0, h1⟩

theorem inv_step (s : GaugeState) (a : GaugeAction) (hg : Legal s a ∧ g.InTime s a) (h : g.Inv s) :
    g.Inv (g.step s a) := by
  obtain ⟨hlegal, hx⟩ := hg
  have h0 := h.nonneg
  have h1 := h.small
  have hlim := h.sound.within
  cases a with
  | tick d => exact inv_tick h hx
  | acquire amount =>
    rw [step_acquire h hx]
    by_cases hb : g.limit < s.outstanding + amount
    · rwa [if_pos hb]
    · rw [if_neg hb]
      have hx' : Exact s.outstanding amount g.limit := h.sound.seen ▸ hx
      refine inv_put rfl (Redis.Server.live_deadline _) (by omega) (by omega) ?_
      rcases hx' with hx' | hx' <;> omega
  | consumePartial amount =>
    rw [step_consumePartial h hx]
    have hx' : Exact s.outstanding amount g.limit := h.sound.seen ▸ hx
    by_cases hb : min (amount : Int) (max 0 (g.limit - s.outstanding)) ≤ 0
    · simpa only [if_pos hb] using h
    · simp only [if_neg hb]
      refine inv_put ?_ (charged_live _ _ _ (by decide)) (by omega) (by omega) ?_
      · exact congrArg (· + _) h.sound.seen
      · rcases hx' with hx' | hx' <;> omega
  | release amount =>
    have hle : (amount : Int) ≤ s.outstanding := hlegal
    rw [step_release h hlegal]
    exact inv_put rfl (Redis.Server.live_deadline _) (by omega) (by omega) (by omega)

/-- In every run of legal calls that stays within the gauge's deadline and
without rounding, the gauge seen is the number of slots held. -/
theorem gauge_run_sound (g : Gauge) (hl : 0 ≤ g.limit) (start : Instant) (as : List GaugeAction)
    (hg : Guarded g.step (fun s a => Legal s a ∧ g.InTime s a) (init start) as) :
    g.Sound (run g.step (init start) as) :=
  (guarded_invariant g.Inv inv_step hg (inv_init hl start)).sound

theorem acme_nonempty : lit "acme" ≠ [] := by decide

def eightWorkers : Gauge where
  enforcer := .init (lit "quota") true
  org := lit "acme"
  org_ne := acme_nonempty
  tier := ⟨lit "pro", 1000000, 120, 8, 10000⟩
  finite := by decide

def workday : List GaugeAction :=
  [.consumePartial 5, .tick (3600 * usPerSecond), .acquire 4, .acquire 3, .release 6,
    .tick (3600 * usPerSecond), .release 2]

theorem gauge_run_sound_workday :
    eightWorkers.Sound (run eightWorkers.step (init 0) workday) := by
  have hbefore : ∀ {t u : Nat}, some (86400 * usPerSecond) = some t → u < 86400 * usPerSecond →
      u < t := by
    intro t u ht hu
    exact Option.some.inj ht ▸ hu
  have hg : Guarded eightWorkers.step (fun s a => Legal s a ∧ eightWorkers.InTime s a) (init 0)
      workday := by
    refine ⟨⟨trivial, .inl (by decide)⟩, ⟨trivial, .inr ?_⟩, ⟨trivial, .inl (by decide)⟩,
      ⟨trivial, .inl (by decide)⟩, ⟨?_, trivial⟩, ⟨trivial, .inr ?_⟩, ⟨?_, trivial⟩, trivial⟩
    · intro t ht
      exact hbefore ht (by decide)
    · unfold Legal
      decide
    · intro t ht
      exact hbefore ht (by decide)
    · unfold Legal
      decide
  exact gauge_run_sound eightWorkers (by decide) 0 workday hg

/-- A day after a partial grant on an idle gauge the worker is still held, and
the gauge is gone. -/
theorem gauge_lost_after_a_day :
    ¬ ∀ (g : Gauge) (start : Instant) (as : List GaugeAction),
      Guarded g.step Legal (init start) as → g.Sound (run g.step (init start) as) := by
  intro h
  have hs := (h eightWorkers 0 [.consumePartial 1, .tick (86400 * usPerSecond)]
    ⟨trivial, trivial, trivial⟩).seen
  exact absurd hs (by decide)

end Gauge

end IsaCloud.Quota
