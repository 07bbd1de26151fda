import IsaCloud.Quota.Enforcer

/-!
# Windowed counters over whole runs

Any number of clients call `check`, `check_and_consume`, `consume_partial` and
`get_usage` for one organisation and one windowed quota; time passes between
the calls. Every method sends at most one command, so a run is a sequence of
whole calls. The counter of the current window is the sum of what was granted
in it, because a counter's deadline never falls before the end of its window.

The scripts compute in doubles, so a grant may overshoot a limit of `2 ^ 53` or
more; `Exact` is what a call needs to be free of that.
-/

namespace IsaCloud.Quota

set_option autoImplicit false

open Support Support.Text Support.DateTime

/-- What is fixed during a run: the enforcer, one organisation, one windowed quota. -/
structure Window where
  enforcer : QuotaEnforcer
  org : Str
  org_ne : org ≠ []
  qt : QuotaType
  windowed : qt.isConcurrency = false

structure FiniteTier (qt : QuotaType) where
  tier : TierQuota
  finite : tier.quota qt ≠ unlimited

def FiniteTier.limit {qt : QuotaType} (t : FiniteTier qt) : Int := t.tier.quota qt

abbrev Amount := {n : Nat // n < 2 ^ 53}

inductive WindowCall (qt : QuotaType) where
  | check (t : FiniteTier qt) (amount : Amount)
  | checkAndConsume (t : FiniteTier qt) (amount : Amount)
  | consumePartial (t : FiniteTier qt) (amount : Amount)
  | getUsage (tier : TierQuota)

inductive WindowAction (qt : QuotaType) where
  | tick (d : Nat)
  | call (c : WindowCall qt)

structure WindowState where
  redis : Redis
  /-- Every grant so far with its instant, oldest first. -/
  grants : List (Instant × Int)

namespace Window
variable (w : Window)

def key (t : Instant) : Str := w.enforcer.key w.org w.qt t

/-- Run one call; the second component is the amount granted, if any. -/
def exec (redis : Redis) : WindowCall w.qt → Redis × Option Int
  | .check t amount =>
    (((w.enforcer.check redis.now t.tier w.org (.inl w.qt) amount.1).exec serve redis).1, none)
  | .checkAndConsume t amount =>
    match (w.enforcer.checkAndConsume redis.now t.tier w.org (.inl w.qt) amount.1).exec serve redis with
    | (redis', .ok d) => (redis', if d.allowed then some amount.1 else none)
    | (redis', .error _) => (redis', none)
  | .consumePartial t amount =>
    match (w.enforcer.consumePartial redis.now t.tier w.org (.inl w.qt) amount.1).exec serve redis with
    | (redis', .ok p) => (redis', if 0 < p.granted then some p.granted else none)
    | (redis', .error _) => (redis', none)
  | .getUsage tier => (((w.enforcer.getUsage redis.now tier w.org).exec serve redis).1, none)

def step (s : WindowState) : WindowAction w.qt → WindowState
  | .tick d => { s with redis := s.redis.advance d }
  | .call c =>
    { redis := (w.exec s.redis c).1
      grants := s.grants ++ ((w.exec s.redis c).2.map fun g => (s.redis.now, g)).toList }

def init (start : Instant) : WindowState := ⟨.empty start, []⟩

/-- The total granted in the window of `t`. -/
def grantedIn (grants : List (Instant × Int)) (t : Instant) : Int :=
  ((grants.filter fun g => QuotaEnforcer.windowBucket w.qt g.1 ==
    QuotaEnforcer.windowBucket w.qt t).map Prod.snd).sum

structure Sound (s : WindowState) : Prop where
  counter_eq : s.redis.counter (w.key s.redis.now) = w.grantedIn s.grants s.redis.now
  has_deadline : ∀ k e, s.redis.lookup k = some e → e.deadline.isSome

/-- The limit a consuming call is made with. -/
def limitOf : WindowCall w.qt → Option Int
  | .checkAndConsume t _ => some t.limit
  | .consumePartial t _ => some t.limit
  | _ => none

structure CallSound (redis : Redis) (c : WindowCall w.qt) : Prop where
  within_limit : ∀ g limit, (w.exec redis c).2 = some g → w.limitOf c = some limit →
    (w.exec redis c).1.counter (w.key redis.now) ≤ limit
  untouched : (w.exec redis c).2 = none → (w.exec redis c).1 = redis

/-- A consuming call meets no rounding: its limit is below `2 ^ 53`, or the
total it asks for stays within `2 ^ 53`. -/
def Guard (s : WindowState) : WindowAction w.qt → Prop
  | .call (.checkAndConsume t amount) =>
    Exact (s.redis.counter (w.key s.redis.now)) amount.1 t.limit
  | .call (.consumePartial t amount) =>
    Exact (s.redis.counter (w.key s.redis.now)) amount.1 t.limit
  | _ => True

/-! ## Windows -/

def length : Nat := w.qt.windowSeconds * usPerSecond

theorem length_pos : 0 < w.length := by
  have hw := w.windowed
  unfold length usPerSecond
  cases hq : w.qt <;> simp_all [QuotaType.windowSeconds, QuotaType.isConcurrency]

def windowEnd (t : Nat) : Nat := (t / w.length + 1) * w.length

theorem lt_windowEnd (t : Nat) : t < w.windowEnd t := by
  have := Nat.lt_div_mul_add w.length_pos (a := t)
  rw [windowEnd, Nat.add_mul, Nat.one_mul]
  exact this

theorem windowEnd_le (t : Nat) : w.windowEnd t ≤ t + w.length := by
  rw [windowEnd, Nat.add_mul, Nat.one_mul]
  exact Nat.add_le_add_right (Nat.div_mul_le_self t w.length) _

theorem bucket_eq_iff (t u : Nat) :
    QuotaEnforcer.windowBucket w.qt t = QuotaEnforcer.windowBucket w.qt u ↔
      t / w.length = u / w.length := by
  have hw := w.windowed
  unfold length
  cases hq : w.qt with
  | tokensPerHour => exact hourStamp_eq_iff t u
  | gpuMinutesPerDay => exact dateStamp_eq_iff t u
  | mcpCallsPerDay => exact dateStamp_eq_iff t u
  | rayWorkers => simp [hq, QuotaType.isConcurrency] at hw

theorem key_eq_iff (t u : Nat) :
    w.key t = w.key u ↔ QuotaEnforcer.windowBucket w.qt t = QuotaEnforcer.windowBucket w.qt u := by
  simp [key, QuotaEnforcer.key]

theorem key_eq_iff_window (t u : Nat) : w.key t = w.key u ↔ t / w.length = u / w.length :=
  (w.key_eq_iff t u).trans (w.bucket_eq_iff t u)

theorem grantedIn_congr (grants : List (Instant × Int)) {t u : Nat} (h : w.key t = w.key u) :
    w.grantedIn grants t = w.grantedIn grants u := by
  simp only [grantedIn, (w.key_eq_iff t u).mp h]

theorem grantedIn_append (grants : List (Instant × Int)) (t u : Nat) (g : Int) :
    w.grantedIn (grants ++ [(u, g)]) t = w.grantedIn grants t + if w.key u = w.key t then g else 0 := by
  by_cases h : QuotaEnforcer.windowBucket w.qt u = QuotaEnforcer.windowBucket w.qt t
  · simp [grantedIn, key_eq_iff, h]
  · simp [grantedIn, key_eq_iff, h]

/-! ## The invariant -/

/-- Every visible key is the counter of some window, holds what was granted
there, and outlives it; a window without a visible counter has no grants. -/
structure Inv (s : WindowState) : Prop where
  entry : ∀ k e, s.redis.lookup k = some e → ∃ t, k = w.key t ∧ e.value = w.grantedIn s.grants t ∧
    0 ≤ e.value ∧ e.value ≤ 2 ^ 53 ∧ ∃ d, e.deadline = some d ∧ w.windowEnd t ≤ d
  missing : s.redis.lookup (w.key s.redis.now) = none → w.grantedIn s.grants s.redis.now = 0
  past : ∀ g ∈ s.grants, g.1 ≤ s.redis.now

variable {w}

theorem Inv.counter_eq {s : WindowState} (h : w.Inv s) :
    s.redis.counter (w.key s.redis.now) = w.grantedIn s.grants s.redis.now := by
  cases hl : s.redis.lookup (w.key s.redis.now) with
  | none => rw [Redis.Server.counter_of_lookup_none hl, h.missing hl]
  | some e =>
    obtain ⟨t, hk, hv, -⟩ := h.entry _ e hl
    rw [Redis.Server.counter_of_lookup hl, hv, w.grantedIn_congr _ hk]

theorem Inv.counter_bounds {s : WindowState} (h : w.Inv s) :
    0 ≤ s.redis.counter (w.key s.redis.now) ∧ s.redis.counter (w.key s.redis.now) ≤ 2 ^ 53 := by
  cases hl : s.redis.lookup (w.key s.redis.now) with
  | none =>
    rw [Redis.Server.counter_of_lookup_none hl]
    omega
  | some e =>
    obtain ⟨t, -, -, h0, h1, -⟩ := h.entry _ e hl
    rw [Redis.Server.counter_of_lookup hl]
    exact ⟨h0, h1⟩

theorem Inv.sound {s : WindowState} (h : w.Inv s) : w.Sound s where
  counter_eq := h.counter_eq
  has_deadline := by
    intro k e hl
    obtain ⟨t, -, -, -, -, d, hd, -⟩ := h.entry k e hl
    simp [hd]

theorem inv_init (start : Instant) : w.Inv (init start) where
  entry := by
    intro k e hl
    simp [init, Redis.Server.lookup, Redis.Server.empty] at hl
  missing := by
    intro _
    simp [init, grantedIn]
  past := by simp [init]

theorem inv_tick {s : WindowState} (h : w.Inv s) (d : Nat) : w.Inv (w.step s (.tick d)) where
  entry := by
    intro k e hl
    exact h.entry k e (Redis.Server.lookup_of_lookup_advance hl)
  missing := by
    intro hl
    change w.grantedIn s.grants (s.redis.now + d) = 0
    change (s.redis.advance d).lookup (w.key (s.redis.now + d)) = none at hl
    by_cases hsame : w.key (s.redis.now + d) = w.key s.redis.now
    · rw [w.grantedIn_congr s.grants hsame]
      rw [hsame] at hl
      cases hold : s.redis.lookup (w.key s.redis.now) with
      | none => exact h.missing hold
      | some e =>
        -- the counter is still there: its deadline is no earlier than the end of this window
        exfalso
        obtain ⟨t, hk, -, -, -, dl, hdl, hend⟩ := h.entry _ e hold
        have hwin := (w.key_eq_iff_window _ _).mp (hsame.trans hk)
        have hlt := w.lt_windowEnd (s.redis.now + d)
        have heq : w.windowEnd (s.redis.now + d) = w.windowEnd t := by
          simp only [windowEnd, hwin]
        have hstill := Redis.Server.lookup_advance hold (d := d) (by
          intro t' ht'
          rw [hdl, Option.some.injEq] at ht'
          omega)
        rw [hstill] at hl
        simp at hl
    · have hnew : ∀ g ∈ s.grants, w.key g.1 ≠ w.key (s.redis.now + d) := by
        intro g hg heq
        have hle := h.past g hg
        have h1 := (w.key_eq_iff_window _ _).mp heq
        have h2 := Nat.div_le_div_right (c := w.length) hle
        have h3 := Nat.div_le_div_right (c := w.length) (Nat.le_add_right s.redis.now d)
        exact hsame ((w.key_eq_iff_window _ _).mpr (by omega))
      have hnone : s.grants.filter (fun g => QuotaEnforcer.windowBucket w.qt g.1 ==
          QuotaEnforcer.windowBucket w.qt (s.redis.now + d)) = [] := by
        apply List.filter_eq_nil_iff.mpr
        intro g hg hb
        exact hnew g hg ((w.key_eq_iff _ _).mpr (by simpa using hb))
      simp [grantedIn, hnone]
  past := by
    intro g hg
    exact Nat.le_trans (h.past g hg) (Nat.le_add_right _ _)

/-- A grant of `g` in the current window, charged to its counter. -/
theorem inv_grant {s : WindowState} (h : w.Inv s) {g : Int} (h0 : 0 ≤ g)
    (hsum : s.redis.counter (w.key s.redis.now) + g ≤ 2 ^ 53) :
    w.Inv ⟨s.redis.put (w.key s.redis.now)
        (charged s.redis (w.key s.redis.now) g w.qt.windowSeconds),
      s.grants ++ [(s.redis.now, g)]⟩ := by
  set k := w.key s.redis.now with hk
  set e := charged s.redis k g w.qt.windowSeconds with he
  have hend := w.windowEnd_le s.redis.now
  have hdl : ∃ d, e.deadline = some d ∧ w.windowEnd s.redis.now ≤ d := by
    by_cases hz : s.redis.counter k = 0
    · exact ⟨s.redis.now + w.qt.windowSeconds * usPerSecond, by simp [he, charged, hz], hend⟩
    · cases hl : s.redis.lookup k with
      | none => exact absurd (Redis.Server.counter_of_lookup_none hl) hz
      | some e₀ =>
        obtain ⟨t, ht, -, -, -, d, hd, hle⟩ := h.entry k e₀ hl
        refine ⟨d, by simp [he, charged, hz, Redis.Server.deadline, hl, hd], ?_⟩
        have hwin := (w.key_eq_iff_window _ _).mp ht
        simpa only [windowEnd, hwin] using hle
  have hlive : e.live s.redis.now = true := by
    obtain ⟨d, hd, hle⟩ := hdl
    have := w.lt_windowEnd s.redis.now
    simp only [Redis.Entry.live, hd, decide_eq_true_eq]
    omega
  have hself := Redis.Server.lookup_put_self s.redis k e hlive
  have hbounds := h.counter_bounds
  constructor
  · intro k' e' hl
    by_cases hkk : k' = k
    · subst k'
      rw [hself, Option.some.injEq] at hl
      subst hl
      refine ⟨s.redis.now, rfl, ?_, ?_, hsum, hdl⟩
      · rw [w.grantedIn_append, if_pos rfl, ← h.counter_eq]
        rfl
      · change 0 ≤ s.redis.counter k + g
        exact Int.add_nonneg hbounds.1 h0
    · rw [Redis.Server.lookup_put_of_ne _ _ hkk] at hl
      obtain ⟨t, ht, hv, hrest⟩ := h.entry k' e' hl
      refine ⟨t, ht, ?_, hrest⟩
      rw [w.grantedIn_append, if_neg, Int.add_zero]
      · exact hv
      · intro heq
        exact hkk (ht.trans heq.symm)
  · intro hl
    change (s.redis.put k e).lookup k = none at hl
    rw [hself] at hl
    simp at hl
  · intro g' hg'
    rcases List.mem_append.mp hg' with hg' | hg'
    · exact h.past g' hg'
    · rw [List.mem_singleton.mp hg']
      exact Nat.le_refl _

/-! ## What a call does -/

theorem exec_check (redis : Redis) (t : FiniteTier w.qt) (amount : Amount) :
    w.exec redis (.check t amount) = (redis, none) := by
  rw [exec, QuotaEnforcer.check_eq_call w.org_ne (Int.natCast_nonneg amount.1) t.finite]
  rfl

theorem exec_getUsage (redis : Redis) (tier : TierQuota) :
    w.exec redis (.getUsage tier) = (redis, none) := by
  simp [exec, QuotaEnforcer.getUsage, QuotaEnforcer.validate, w.org_ne, serve]

theorem exec_checkAndConsume {redis : Redis} {t : FiniteTier w.qt} {amount : Amount}
    (h0 : 0 ≤ redis.counter (w.key redis.now)) (h1 : redis.counter (w.key redis.now) ≤ 2 ^ 53)
    (hx : Exact (redis.counter (w.key redis.now)) amount.1 t.limit) :
    w.exec redis (.checkAndConsume t amount) =
      if t.limit < redis.counter (w.key redis.now) + amount.1 then (redis, none)
      else (redis.put (w.key redis.now)
        (charged redis (w.key redis.now) amount.1 w.qt.windowSeconds), some (amount.1 : Int)) := by
  have hamt := Int.natCast_nonneg amount.1
  have hk : w.enforcer.key w.org w.qt redis.now = w.key redis.now := rfl
  have ht : t.tier.quota w.qt = t.limit := rfl
  simp only [exec, QuotaEnforcer.checkAndConsume_eq_call w.org_ne hamt t.finite, hk, ht,
    QuotaEnforcer.consumeScript, w.windowed, Bool.false_eq_true, if_false, Proc.exec_call, serve,
    Script.run, luaWindowedConsume_eq h0 h1 hamt hx]
  by_cases hb : t.limit < redis.counter (w.key redis.now) + amount.1
  · simp [hb, QuotaEnforcer.afterConsume, QuotaEnforcer.decision]
  · simp [hb, QuotaEnforcer.afterConsume, QuotaEnforcer.decision]

theorem partialTtl_eq : QuotaEnforcer.partialTtl w.qt = w.qt.windowSeconds := by
  have hw := w.windowed
  cases hq : w.qt with
  | rayWorkers => simp [hq, QuotaType.isConcurrency] at hw
  | _ => rfl

theorem exec_consumePartial {redis : Redis} {t : FiniteTier w.qt} {amount : Amount}
    (h0 : 0 ≤ redis.counter (w.key redis.now)) (h1 : redis.counter (w.key redis.now) ≤ 2 ^ 53)
    (hx : Exact (redis.counter (w.key redis.now)) amount.1 t.limit) :
    w.exec redis (.consumePartial t amount) =
      let granted := min (amount.1 : Int) (max 0 (t.limit - redis.counter (w.key redis.now)))
      if granted ≤ 0 then (redis, none)
      else (redis.put (w.key redis.now)
        (charged redis (w.key redis.now) granted w.qt.windowSeconds), some granted) := by
  have hamt := Int.natCast_nonneg amount.1
  have hk : w.enforcer.key w.org w.qt redis.now = w.key redis.now := rfl
  have ht : t.tier.quota w.qt = t.limit := rfl
  simp only [exec, QuotaEnforcer.consumePartial_eq_call w.org_ne hamt t.finite, partialTtl_eq, hk,
    ht, Proc.exec_call, serve, Script.run, luaPartialConsume_eq h0 h1 hamt hx]
  generalize min (amount.1 : Int) (max 0 (t.limit - redis.counter (w.key redis.now))) = granted
  by_cases hb : granted ≤ 0
  · simp [hb, QuotaEnforcer.afterPartial]
  · simp [hb, QuotaEnforcer.afterPartial, Int.not_le.mp hb]

/-- A call without rounding either leaves Redis as it is and grants nothing, or
charges what it grants to the counter of the current window, within its limit. -/
theorem exec_cases {s : WindowState} (h : w.Inv s) {c : WindowCall w.qt}
    (hg : w.Guard s (.call c)) :
    w.exec s.redis c = (s.redis, none) ∨
      ∃ g : Int, 0 ≤ g ∧ s.redis.counter (w.key s.redis.now) + g ≤ 2 ^ 53 ∧
        (∀ limit, w.limitOf c = some limit → s.redis.counter (w.key s.redis.now) + g ≤ limit) ∧
        w.exec s.redis c = (s.redis.put (w.key s.redis.now)
          (charged s.redis (w.key s.redis.now) g w.qt.windowSeconds), some g) := by
  obtain ⟨h0, h1⟩ := h.counter_bounds
  cases c with
  | check t amount => exact .inl (exec_check s.redis t amount)
  | getUsage tier => exact .inl (exec_getUsage s.redis tier)
  | checkAndConsume t amount =>
    rw [exec_checkAndConsume h0 h1 hg]
    by_cases hb : t.limit < s.redis.counter (w.key s.redis.now) + amount.1
    · exact .inl (if_pos hb)
    · right
      refine ⟨amount.1, Int.natCast_nonneg _, ?_, ?_, if_neg hb⟩
      · rcases hg with hl | hsum
        · omega
        · exact hsum
      · intro limit hl
        cases hl
        exact Int.not_lt.mp hb
  | consumePartial t amount =>
    rw [exec_consumePartial h0 h1 hg]
    by_cases hb : min (amount.1 : Int) (max 0 (t.limit - s.redis.counter (w.key s.redis.now))) ≤ 0
    · exact .inl (if_pos hb)
    · right
      refine ⟨min (amount.1 : Int) (max 0 (t.limit - s.redis.counter (w.key s.redis.now))),
        by omega, ?_, ?_, if_neg hb⟩
      · rcases hg with hl | hsum
        · omega
        · omega
      · intro limit hl
        cases hl
        omega

theorem inv_step (s : WindowState) (a : WindowAction w.qt) (hg : w.Guard s a) (h : w.Inv s) :
    w.Inv (w.step s a) := by
  cases a with
  | tick d => exact inv_tick h d
  | call c =>
    rcases exec_cases h hg with hx | ⟨g, h0, hsum, -, hx⟩
    · simpa [step, hx] using h
    · simpa [step, hx] using inv_grant h h0 hsum

theorem Inv.callSound {s : WindowState} (h : w.Inv s) {c : WindowCall w.qt}
    (hg : w.Guard s (.call c)) : w.CallSound s.redis c := by
  rcases exec_cases h hg with hx | ⟨g, h0, hsum, hlim, hx⟩
  · constructor
    · intro g limit hsome
      rw [hx] at hsome
      cases hsome
    · intro _
      rw [hx]
  · have hinv := inv_grant h h0 hsum
    have hcounter := hinv.counter_eq
    simp only [Redis.Server.put_now] at hcounter
    rw [w.grantedIn_append, if_pos rfl, ← h.counter_eq] at hcounter
    constructor
    · intro g' limit _ hl
      rw [hx]
      exact le_of_eq_of_le hcounter (hlim limit hl)
    · intro hnone
      rw [hx] at hnone
      cases hnone

/-- In every run without rounding the windowed counters are sound in the state
reached, and so is the next call. -/
theorem window_run_sound (w : Window) (start : Instant) (as : List (WindowAction w.qt))
    (hg : Guarded w.step w.Guard (init start) as) :
    w.Sound (run w.step (init start) as) ∧
      ∀ c, w.Guard (run w.step (init start) as) (.call c) →
        w.CallSound (run w.step (init start) as).redis c := by
  have hinv := guarded_invariant w.Inv inv_step hg (inv_init start)
  refine ⟨hinv.sound, ?_⟩
  intro c hc
  exact hinv.callSound hc

def hourlyTokens : Window where
  enforcer := .init (lit "quota") true
  org := lit "acme"
  org_ne := by decide
  qt := .tokensPerHour
  windowed := rfl

def tokenTier (limit : Int) (h : limit ≠ unlimited) : FiniteTier .tokensPerHour :=
  ⟨⟨lit "custom", limit, 5, 1, 100⟩, h⟩

def twoWindows : List (WindowAction hourlyTokens.qt) :=
  [.call (.checkAndConsume (tokenTier 10 (by decide)) ⟨7, by decide⟩),
    .tick (3599 * usPerSecond),
    .call (.consumePartial (tokenTier 9 (by decide)) ⟨7, by decide⟩),
    .tick usPerSecond,
    .call (.checkAndConsume (tokenTier 10 (by decide)) ⟨10, by decide⟩)]

theorem window_run_sound_two_windows :
    hourlyTokens.Sound (run hourlyTokens.step (init 0) twoWindows) := by
  have hg : Guarded hourlyTokens.step hourlyTokens.Guard (init 0) twoWindows :=
    ⟨.inl (by decide), trivial, .inl (by decide), trivial, .inl (by decide), trivial⟩
  exact (window_run_sound hourlyTokens 0 twoWindows hg).1

/-- With a limit of `2 ^ 53` and one token left, a request for two rounds down
to the limit and is granted. -/
theorem oversubscribed_by_rounding :
    ¬ ∀ (w : Window) (start : Instant) (as : List (WindowAction w.qt)),
      w.Sound (run w.step (init start) as) ∧
        ∀ c, w.CallSound (run w.step (init start) as).redis c := by
  intro h
  have hcall := (h hourlyTokens 0
    [.call (.checkAndConsume (tokenTier (2 ^ 53) (by decide)) ⟨2 ^ 53 - 1, by decide⟩)]).2
    (.checkAndConsume (tokenTier (2 ^ 53) (by decide)) ⟨2, by decide⟩)
  have hle := hcall.within_limit 2 (2 ^ 53) (by decide) rfl
  exact absurd hle (by decide)

end Window

end IsaCloud.Quota
