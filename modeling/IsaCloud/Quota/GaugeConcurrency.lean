import IsaCloud.Quota.GaugeRuns
import IsaCloud.Support.Pool
import Mathlib.Data.List.Permutation

/-!
# Concurrent acquires and releases of the worker gauge

`check_and_consume` is one script, but `release` is a `DECRBY` and, when that
went below zero, a separate `SET 0`. Against the gauge whose release is one
step, `max 0 (gauge - n)`, an interleaving goes wrong exactly when an acquire is
granted between the two commands: the clamp then wipes its slots out. A run in
which no acquire is granted there is linearizable, every call taking effect with
its first command.
-/

namespace IsaCloud.Quota

set_option autoImplicit false

open Support Support.Text Support.Python Support.DateTime

inductive GaugeOp where
  | acquire (amount : Nat)
  | release (amount : Nat)

abbrev GaugePool := Pool Redis GaugeOp Cmd Reply (Option Bool)

namespace Gauge
variable (g : Gauge)

/-- The allowed/blocked answer of an acquire. -/
def verdict : Except PyError QuotaDecision → Option Bool
  | .ok d => some d.allowed
  | .error _ => none

def code (redis : Redis) : GaugeOp → Proc Cmd Reply (Option Bool)
  | .acquire amount => (g.acquire redis.now amount).map verdict
  | .release amount => (g.release redis.now amount).map fun _ => none

/-- Clients and the passing of time. -/
def system : System Redis Nat GaugeOp Cmd Reply (Option Bool) :=
  ⟨serve, Redis.Server.advance, g.code⟩

/-- The script on a gauge that stands at `v`. -/
def gate (v amount : Int) : Int × Option Bool :=
  if exceeds v amount g.limit then (v, some false)
  else if Redis.int64 (tonumber amount) && Redis.int64 (v + tonumber amount) then
    (v + tonumber amount, some true)
  else (v, some g.enforcer.failOpen)

/-- The gauge whose operations are atomic: an acquire is the script, a release
subtracts and clamps in one step. -/
def sequential (v : Int) : GaugeOp → Int × Option Bool
  | .acquire amount => g.gate v amount
  | .release amount => (max 0 (v - amount), none)

/-- A release between its `DECRBY` and its `SET`. -/
def clamp : Proc Cmd Reply (Option Bool) :=
  (Proc.call (.set g.key 0) QuotaEnforcer.afterClamp).map fun _ => none

def Clamping (p : GaugePool) : Prop := ∃ i c, p.calls i = some c ∧ c.proc = g.clamp

/-- While a clamp is outstanding an acquire runs only to be refused, or asks for
nothing; a release is within the range of `DECRBY`. -/
def Settled (p : GaugePool) : PoolAction Nat GaugeOp → Prop
  | .step i => ∀ c, p.calls i = some c → c.proc.output = none →
    match c.op with
    | .acquire amount => g.Clamping p →
      exceeds (p.server.counter g.key) amount g.limit = true ∨ amount = 0 ∧ 0 ≤ g.limit
    | .release amount => amount < 2 ^ 63
  | _ => True

/-! ## One command on the gauge -/

structure At (redis : Redis) (v : Int) : Prop where
  counter : redis.counter g.key = v
  fits : Redis.int64 v = true
  lasting : redis.deadline g.key = none

variable {g}

theorem at_empty (start : Instant) : g.At (.empty start) 0 :=
  ⟨by simp [Redis.Server.counter, Redis.Server.get, Redis.Server.lookup, Redis.Server.empty],
    by decide, by simp [Redis.Server.deadline, Redis.Server.lookup, Redis.Server.empty]⟩

theorem At.advance {redis : Redis} {v : Int} (h : g.At redis v) (d : Nat) :
    g.At (redis.advance d) v := by
  obtain ⟨hc, hd⟩ := Redis.Server.advance_of_deadline_none h.lasting d
  exact ⟨hc.trans h.counter, h.fits, hd⟩

theorem At.put {redis : Redis} {v : Int} (h : g.At redis v) {v' : Int}
    (hfits : Redis.int64 v' = true) : g.At (redis.put g.key ⟨v', redis.deadline g.key⟩) v' := by
  have hlive := Redis.Server.live_deadline (s := redis) (k := g.key) v'
  refine ⟨Redis.Server.counter_put_self hlive, hfits, ?_⟩
  rw [Redis.Server.deadline_put_self hlive]
  exact h.lasting

theorem at_set (redis : Redis) : g.At (redis.set g.key 0) 0 :=
  ⟨Redis.Server.counter_put_self rfl, by decide, Redis.Server.deadline_put_self rfl⟩

theorem code_acquire (redis : Redis) (amount : Nat) :
    g.code redis (.acquire amount) =
      .call (.eval .gaugeAcquire g.key amount g.limit 0) fun r =>
        (g.enforcer.afterConsume redis.now .rayWorkers g.tier amount r).map verdict := by
  rw [code, acquire,
    QuotaEnforcer.checkAndConsume_eq_call g.org_ne (Int.natCast_nonneg amount) g.finite]
  rfl

theorem code_release (redis : Redis) (amount : Nat) :
    g.code redis (.release amount) =
      .call (.decrBy g.key amount) fun r =>
        (QuotaEnforcer.afterDecr g.key r).map fun _ => none := by
  rw [code, release, QuotaEnforcer.release_eq_call g.org_ne (Int.natCast_nonneg amount) g.finite]
  rfl

/-- An acquire does in its one command what the atomic gauge does. -/
theorem At.acquire {redis : Redis} {v : Int} (h : g.At redis v) (start : Instant) (n : Int) :
    g.At (serve redis (.eval .gaugeAcquire g.key n g.limit 0)).1 (g.gate v n).1 ∧
      (g.enforcer.afterConsume start .rayWorkers g.tier n
        (serve redis (.eval .gaugeAcquire g.key n g.limit 0)).2).map verdict =
        .ret (g.gate v n).2 := by
  simp only [gate, serve, Script.run, luaGaugeAcquire, h.counter, Redis.Server.incrBy]
  by_cases hb : exceeds v n g.limit = true
  · simp only [hb, if_true]
    exact ⟨h, rfl⟩
  · by_cases hfits : (Redis.int64 (tonumber n) && Redis.int64 (v + tonumber n)) = true
    · simp only [hb, hfits, if_true]
      exact ⟨h.put (Bool.and_eq_true_iff.mp hfits).2, rfl⟩
    · simp only [hb, hfits]
      exact ⟨h, rfl⟩

/-- The `DECRBY` of a release: it fails only far below zero. -/
theorem At.decrBy {redis : Redis} {v n : Int} (h : g.At redis v) (h0 : 0 ≤ n) (hn : n < 2 ^ 63) :
    (g.At (serve redis (.decrBy g.key n)).1 (v - n) ∧
        (serve redis (.decrBy g.key n)).2 = .int (v - n)) ∨
      (v ≤ 0 ∧ serve redis (.decrBy g.key n) = (redis, .error)) := by
  have hn64 : Redis.int64 n = true := by
    simp only [Redis.int64, decide_eq_true_eq]
    omega
  by_cases hv : Redis.int64 (v - n) = true
  · left
    have hdecr := Redis.Server.decrBy_of_fits hn64 h0 (h.counter.symm ▸ hv)
    rw [h.counter] at hdecr
    simp only [serve, hdecr, and_true]
    exact h.put hv
  · right
    have hrange := h.fits
    simp only [Redis.int64, decide_eq_true_eq] at hrange hv
    have hv' : Redis.int64 (v + -n) = false := by
      simp only [Redis.int64, decide_eq_false_iff_not]
      omega
    refine ⟨by omega, ?_⟩
    simp only [serve, Redis.Server.decrBy, Redis.Server.incrBy, h.counter, hv', Bool.and_false,
      Bool.false_eq_true, if_false, ite_self]

/-! ## Where the atomic gauge stands -/

theorem gate_nonneg {v n : Int} (hv : 0 ≤ v) (hn : 0 ≤ n) : 0 ≤ (g.gate v n).1 := by
  have hn' : 0 ≤ tonumber n := le_tonumber (Int.le_refl 0) (by decide) hn
  unfold gate
  split
  · exact hv
  · split
    · exact Int.add_nonneg hv hn'
    · exact hv

theorem exceeds_mono {v v' : Int} (h : v ≤ v') {amount limit : Int}
    (he : exceeds v amount limit = true) : exceeds v' amount limit = true := by
  simp only [exceeds, decide_eq_true_eq] at he ⊢
  have hle : Binary64.add (tonumber v) (tonumber amount) ≤
      Binary64.add (tonumber v') (tonumber amount) :=
    Binary64.ofInt_mono (Int.add_le_add_right (tonumber_mono h) _)
  omega

/-- On a gauge at or below zero, an acquire that is refused or asks for nothing
answers as it would at zero, and moves neither. -/
theorem gate_below {v : Int} (hv : v ≤ 0) (hfits : Redis.int64 v = true) {n : Int}
    (h : exceeds v n g.limit = true ∨ n = 0 ∧ 0 ≤ g.limit) :
    (g.gate v n).1 = v ∧ (g.gate 0 n).1 = 0 ∧ (g.gate v n).2 = (g.gate 0 n).2 := by
  rcases h with hb | ⟨rfl, hl⟩
  · simp [gate, hb, exceeds_mono hv hb]
  · have hz : tonumber 0 = 0 := tonumber_of_le (Int.le_refl 0) (by decide)
    have hb0 : exceeds 0 0 g.limit = false := by
      have := le_tonumber (Int.le_refl 0) (by decide) hl
      simp only [exceeds, hz, decide_eq_false_iff_not]
      change ¬ tonumber g.limit < tonumber (0 + 0)
      rw [Int.add_zero, hz]
      omega
    have hbv : exceeds v 0 g.limit = false := by
      by_contra hne
      have := exceeds_mono hv (Bool.of_not_eq_false hne)
      rw [hb0] at this
      cases this
    have hz64 : Redis.int64 0 = true := by decide
    simp [gate, hb0, hbv, hz, hz64, hfits]

/-! ## The invariant -/

theorem code_output (redis : Redis) (op : GaugeOp) : (g.code redis op).output = none := by
  cases op with
  | acquire amount => rw [code_acquire]; rfl
  | release amount => rw [code_release]; rfl

theorem code_ne_clamp (redis : Redis) (op : GaugeOp) : g.code redis op ≠ g.clamp := by
  intro h
  cases op with
  | acquire amount =>
    rw [code_acquire] at h
    cases h
  | release amount =>
    rw [code_release] at h
    cases h

variable (g) in
/-- Every call is still at its start and has no effect yet, or has taken effect
and has returned, up to a clamp. -/
def Phases (p : GaugePool) (order : List Nat) : Prop :=
  ∀ i c, p.calls i = some c →
    (i ∉ order ∧ ∃ redis, c.proc = g.code redis c.op) ∨
      (i ∈ order ∧ (c.proc.output.isSome ∨ c.proc = g.clamp))

variable (g) in
/-- The gauge is at `v`; the atomic gauge that replays `order` is at `max 0 v`.
Below zero a clamp is outstanding, and a clamp is outstanding only at or below zero. -/
structure PoolInv (p : GaugePool) (v : Int) (order : List Nat) : Prop where
  gauge : g.At p.server v
  lin : p.Linearizing g.sequential 0 (fun _ => none) (max 0 v) order
  phases : g.Phases p order
  below : v < 0 → g.Clamping p
  clamped : g.Clamping p → v ≤ 0

section Resume
variable {p : GaugePool} {redis : Redis} {i : Nat} {c : Call GaugeOp Cmd Reply (Option Bool)}
  {proc : Proc Cmd Reply (Option Bool)}

theorem clamping_of_resume (h : g.Clamping (p.resume redis i c proc)) :
    proc = g.clamp ∨ g.Clamping p := by
  obtain ⟨j, d, hd, hclamp⟩ := h
  rcases Pool.calls_resume_cases hd with ⟨rfl, rfl⟩ | ⟨_, hd⟩
  · exact .inl hclamp
  · exact .inr ⟨j, d, hd, hclamp⟩

theorem clamping_resume (h : g.Clamping p) (hi : p.calls i = some c) (hc : c.proc ≠ g.clamp) :
    g.Clamping (p.resume redis i c proc) := by
  obtain ⟨j, d, hd, hclamp⟩ := h
  have hj : j ≠ i := by
    intro hji
    subst hji
    rw [hi] at hd
    cases hd
    exact hc hclamp
  exact ⟨j, d, (Pool.calls_resume_of_ne hj).trans hd, hclamp⟩

theorem phases_resume {order order' : List Nat} (h : g.Phases p order) (hi : i ∈ order')
    (hmem : ∀ j, j ≠ i → (j ∈ order' ↔ j ∈ order))
    (hc : proc.output.isSome ∨ proc = g.clamp) : g.Phases (p.resume redis i c proc) order' := by
  intro j d hd
  rcases Pool.calls_resume_cases hd with ⟨rfl, rfl⟩ | ⟨hj, hd⟩
  · exact .inr ⟨hi, hc⟩
  · rw [hmem j hj]
    exact h j d hd

theorem mem_concat_of_ne {order : List Nat} (j : Nat) (hj : j ≠ i) :
    j ∈ order ++ [i] ↔ j ∈ order := by
  simp [hj]

end Resume

section Steps
variable {p : GaugePool} {v : Int} {order : List Nat} {i : Nat}
  {c : Call GaugeOp Cmd Reply (Option Bool)}

theorem poolInv_init (start : Instant) : g.PoolInv (Pool.init (.empty start)) 0 [] where
  gauge := at_empty start
  lin := Pool.linearizing_init _
  phases := by
    intro i c hc
    simp [Pool.init] at hc
  below := fun h => absurd h (Int.lt_irrefl 0)
  clamped := fun _ => Int.le_refl 0

theorem poolInv_tick (h : g.PoolInv p v order) (d : Nat) :
    g.PoolInv (g.system.step p (.env d)) v order :=
  ⟨h.gauge.advance d, h.lin.env _, h.phases, h.below, h.clamped⟩

theorem poolInv_invoke (h : g.PoolInv p v order) (op : GaugeOp) :
    g.PoolInv (g.system.step p (.invoke op)) v order := by
  have hnone : p.calls p.next = none := by
    have := mt (h.lin.invoked p.next).mp (Nat.lt_irrefl _)
    simpa using this
  have hiff : g.Clamping (g.system.step p (.invoke op)) ↔ g.Clamping p := by
    constructor
    · rintro ⟨j, d, hd, hclamp⟩
      rcases g.system.calls_invoke_cases hd with ⟨_, rfl⟩ | ⟨_, hd⟩
      · exact absurd hclamp (code_ne_clamp _ _)
      · exact ⟨j, d, hd, hclamp⟩
    · rintro ⟨j, d, hd, hclamp⟩
      have hj : j ≠ p.next := by
        intro hjn
        rw [hjn, hnone] at hd
        cases hd
      exact ⟨j, d, (g.system.calls_invoke_of_ne hj).trans hd, hclamp⟩
  refine ⟨h.gauge, h.lin.invoke g.system op (code_output _ _), ?_, ?_, ?_⟩
  · intro j d hd
    rcases g.system.calls_invoke_cases hd with ⟨rfl, rfl⟩ | ⟨_, hd⟩
    · exact .inl ⟨fun hm => Nat.lt_irrefl _ (h.lin.known _ hm), p.server, rfl⟩
    · exact h.phases j d hd
  · rw [hiff]
    exact h.below
  · rw [hiff]
    exact h.clamped

/-- The only command of an acquire. -/
theorem poolInv_acquire (h : g.PoolInv p v order) (hi : p.calls i = some c) (hnew : i ∉ order)
    {redis : Redis} {amount : Nat} (hop : c.op = .acquire amount)
    (hproc : c.proc = g.code redis c.op)
    (hsettled : g.Clamping p → exceeds v amount g.limit = true ∨ amount = 0 ∧ 0 ≤ g.limit) :
    g.PoolInv (g.system.step p (.step i)) (g.gate v amount).1 (order ++ [i]) := by
  have hne : c.proc ≠ g.clamp := hproc ▸ code_ne_clamp redis c.op
  rw [hop, code_acquire] at hproc
  obtain ⟨hat, hret⟩ := h.gauge.acquire redis.now amount
  rw [g.system.step_call hi hproc]
  -- the atomic gauge answers alike, and ends where the clamped gauge ends
  have hgate : g.gate (max 0 v) amount = (max 0 (g.gate v amount).1, (g.gate v amount).2) ∧
      (g.Clamping p → (g.gate v amount).1 = v) ∧ (¬ g.Clamping p → 0 ≤ (g.gate v amount).1) := by
    by_cases hclamp : g.Clamping p
    · have hv := h.clamped hclamp
      have hcond : exceeds v amount g.limit = true ∨ (amount : Int) = 0 ∧ 0 ≤ g.limit := by
        rcases hsettled hclamp with hb | ⟨hz, hl⟩
        · exact .inl hb
        · exact .inr ⟨by rw [hz]; rfl, hl⟩
      obtain ⟨h1, h2, h3⟩ := gate_below hv h.gauge.fits hcond
      refine ⟨?_, fun _ => h1, fun hn => absurd hclamp hn⟩
      rw [Int.max_eq_left hv, h1, h3, Int.max_eq_left hv]
      exact Prod.ext h2 rfl
    · have hv : 0 ≤ v := Int.not_lt.mp (mt h.below hclamp)
      have hg := gate_nonneg (g := g) hv (Int.natCast_nonneg amount)
      refine ⟨?_, fun hc => absurd hc hclamp, fun _ => hg⟩
      rw [Int.max_eq_right hv, Int.max_eq_right hg]
  obtain ⟨hseq, hstay, hpos⟩ := hgate
  have hlin := h.lin.effect
    (s := (serve p.server (.eval .gaugeAcquire g.key amount g.limit 0)).1) hi hnew
    (show (Proc.ret (g.gate v amount).2).output.getD none = (g.sequential (max 0 v) c.op).2 by
      rw [hop]
      exact (congrArg Prod.snd hseq).symm)
  have hend : (g.sequential (max 0 v) c.op).1 = max 0 (g.gate v amount).1 := by
    rw [hop]
    exact congrArg Prod.fst hseq
  rw [hend] at hlin
  change g.PoolInv (p.resume _ i c (Proc.map verdict _)) _ _
  rw [show g.system.serve = serve from rfl, hret]
  refine ⟨hat, hlin, phases_resume h.phases (by simp) mem_concat_of_ne (.inl rfl), ?_, ?_⟩
  · intro hneg
    by_cases hclamp : g.Clamping p
    · exact clamping_resume hclamp hi hne
    · exact absurd hneg (Int.not_lt.mpr (hpos hclamp))
  · intro hclamp
    rcases clamping_of_resume hclamp with hc | hc
    · cases hc
    · rw [hstay hc]
      exact h.clamped hc

/-- The atomic release of a gauge that shows `max 0 v`. -/
theorem sequential_release (v : Int) (amount : Nat) :
    g.sequential (max 0 v) (.release amount) = (max 0 (v - amount), none) := by
  simp only [sequential, Prod.mk.injEq, and_true]
  omega

/-- The `DECRBY` of a release: the release has taken effect, a clamp may follow. -/
theorem poolInv_decrBy (h : g.PoolInv p v order) (hi : p.calls i = some c) (hnew : i ∉ order)
    {n : Int} (h0 : 0 ≤ n) (hn : n < 2 ^ 63)
    (hseq : g.sequential (max 0 v) c.op = (max 0 (v - n), none))
    (hproc : c.proc = .call (.decrBy g.key n) fun r =>
      (QuotaEnforcer.afterDecr g.key r).map fun _ => none) :
    ∃ v', g.PoolInv (g.system.step p (.step i)) v' (order ++ [i]) := by
  have hne : c.proc ≠ g.clamp := by
    rw [hproc]
    intro heq
    cases heq
  rw [g.system.step_call hi hproc, show g.system.serve = serve from rfl]
  have hlin : ∀ (redis' : Redis) (proc : Proc Cmd Reply (Option Bool)),
      proc.output.getD none = none →
        Pool.Linearizing g.sequential 0 (fun _ => none)
          (p.resume redis' i c proc) (max 0 (v - n)) (order ++ [i]) := by
    intro redis' proc hout
    have heff := h.lin.effect (s := redis') hi hnew
      (show proc.output.getD none = (g.sequential (max 0 v) c.op).2 by
        rw [hseq]
        exact hout)
    rwa [hseq] at heff
  have hserve := h.gauge.decrBy h0 hn
  generalize serve p.server (.decrBy g.key n) = r at hserve
  rcases hserve with ⟨hat, hreply⟩ | ⟨hv, herr⟩
  · rw [hreply]
    by_cases hneg : v - n < 0
    · have hclamp : (QuotaEnforcer.afterDecr g.key (.int (v - n))).map
          (fun _ => (none : Option Bool)) = g.clamp := by
        rw [QuotaEnforcer.afterDecr, if_pos hneg, clamp]
      rw [hclamp]
      refine ⟨v - n, hat, hlin r.1 g.clamp rfl,
        phases_resume h.phases (by simp) mem_concat_of_ne (.inr rfl), ?_, ?_⟩
      · intro _
        exact ⟨i, { c with proc := g.clamp }, by simp [Pool.resume], rfl⟩
      · intro _
        exact Int.le_of_lt hneg
    · have hret : (QuotaEnforcer.afterDecr g.key (.int (v - n))).map
          (fun _ => (none : Option Bool)) = .ret none := by
        rw [QuotaEnforcer.afterDecr, if_neg hneg, Proc.map_ret]
      rw [hret]
      refine ⟨v - n, hat, hlin r.1 (.ret none) rfl,
        phases_resume h.phases (by simp) mem_concat_of_ne (.inl rfl), fun h' => absurd h' hneg, ?_⟩
      intro hclamp
      rcases clamping_of_resume hclamp with hc | hc
      · cases hc
      · have := h.clamped hc
        omega
  · -- the reply was an error, so the gauge was already far below zero and stays there
    rw [herr]
    have hsame : max 0 (v - n) = max 0 v := by omega
    refine ⟨v, h.gauge, hsame ▸ hlin _ _ rfl,
      phases_resume h.phases (by simp) mem_concat_of_ne (.inl rfl), ?_, ?_⟩
    · intro hneg
      exact clamping_resume (h.below hneg) hi hne
    · intro _
      exact hv

/-- The `SET` of a release. -/
theorem poolInv_clamp (h : g.PoolInv p v order) (hi : p.calls i = some c) (hold : i ∈ order)
    (hproc : c.proc = g.clamp) : g.PoolInv (g.system.step p (.step i)) 0 order := by
  have hv : v ≤ 0 := h.clamped ⟨i, c, hi, hproc⟩
  rw [g.system.step_call hi hproc]
  have hlin := h.lin.silent (s := p.server.set g.key 0) hi hold
    (show (Proc.ret none : Proc Cmd Reply (Option Bool)).output.getD none =
        c.proc.output.getD none by
      rw [hproc]
      rfl)
  rw [Int.max_eq_left hv] at hlin
  refine ⟨at_set p.server, hlin, phases_resume h.phases hold (fun _ _ => Iff.rfl) (.inl rfl),
    fun h' => absurd h' (Int.lt_irrefl 0), fun _ => Int.le_refl 0⟩

theorem poolInv_step (p : GaugePool) (a : PoolAction Nat GaugeOp) (hs : g.Settled p a)
    (h : ∃ v order, g.PoolInv p v order) : ∃ v order, g.PoolInv (g.system.step p a) v order := by
  obtain ⟨v, order, h⟩ := h
  cases a with
  | env d => exact ⟨v, order, poolInv_tick h d⟩
  | invoke op => exact ⟨v, order, poolInv_invoke h op⟩
  | step i =>
    cases hi : p.calls i with
    | none =>
      rw [g.system.step_missing hi]
      exact ⟨v, order, h⟩
    | some c =>
      rcases h.phases i c hi with ⟨hnew, redis, hproc⟩ | ⟨hold, hret | hclamp⟩
      · have hcond := hs c hi (hproc ▸ code_output redis c.op)
        cases hop : c.op with
        | acquire amount =>
          rw [hop, h.gauge.counter] at hcond
          exact ⟨_, _, poolInv_acquire h hi hnew hop hproc hcond⟩
        | release amount =>
          rw [hop] at hcond
          have hlt : amount < 2 ^ 63 := hcond
          rw [hop, code_release] at hproc
          obtain ⟨v', h'⟩ := poolInv_decrBy h hi hnew (Int.natCast_nonneg amount) (by omega)
            (hop ▸ sequential_release v amount) hproc
          exact ⟨v', _, h'⟩
      · cases hp : c.proc with
        | ret o =>
          rw [g.system.step_returned hi hp]
          exact ⟨v, order, h⟩
        | call cmd k =>
          rw [hp] at hret
          cases hret
      · exact ⟨0, order, poolInv_clamp h hi hold hclamp⟩

end Steps

/-- Every complete run in which no acquire is granted under an outstanding clamp
is linearizable. -/
theorem gauge_linearizable (g : Gauge) (start : Instant) (as : List (PoolAction Nat GaugeOp))
    (hg : Guarded g.system.step g.Settled (Pool.init (.empty start)) as)
    (hdone : (run g.system.step (Pool.init (.empty start)) as).Complete) :
    (run g.system.step (Pool.init (.empty start)) as).Linearizable g.sequential 0
      ((run g.system.step (Pool.init (.empty start)) as).server.counter g.key) := by
  obtain ⟨v, order, h⟩ := guarded_invariant (fun p => ∃ v order, g.PoolInv p v order)
    poolInv_step hg ⟨0, [], poolInv_init start⟩
  -- with no call outstanding there is no clamp, so the gauge shows its clamped value
  have hnoclamp : ¬ g.Clamping (run g.system.step (Pool.init (.empty start)) as) := by
    rintro ⟨i, c, hc, hclamp⟩
    have := hdone i ((h.lin.invoked i).mp (by simp [hc]))
    simp [Pool.outOf, hc, hclamp, clamp, Proc.output] at this
  have hv : 0 ≤ v := Int.not_lt.mp (mt h.below hnoclamp)
  have hlin := h.lin.linearizable hdone
  rwa [Int.max_eq_right hv, ← h.gauge.counter] at hlin

/-- A double release overlaps an acquire that is refused. -/
def overlap : List (PoolAction Nat GaugeOp) :=
  [.invoke (.acquire 3), .step 0, .invoke (.release 5), .invoke (.acquire 20), .step 1, .step 2,
    .env usPerSecond, .step 1]

theorem gauge_linearizable_overlap :
    (run eightWorkers.system.step (Pool.init (.empty 0)) overlap).Linearizable
      eightWorkers.sequential 0 0 := by
  have hg : Guarded eightWorkers.system.step eightWorkers.Settled (Pool.init (.empty 0)) overlap := by
    refine ⟨trivial, ?_, trivial, trivial, ?_, ?_, trivial, ?_, trivial⟩
    · intro c hc _
      obtain rfl : _ = c := Option.some.inj hc
      rintro ⟨i, d, hd, hclamp⟩
      by_cases hi : i = 0
      · subst hi
        obtain rfl : _ = d := Option.some.inj hd
        exact absurd hclamp (code_ne_clamp (g := eightWorkers) (.empty 0) (.acquire 3))
      · simp [System.step, Pool.init, hi] at hd
    · intro c hc _
      obtain rfl : _ = c := Option.some.inj hc
      decide
    · intro c hc _
      obtain rfl : _ = c := Option.some.inj hc
      exact fun _ => .inl (by decide)
    · intro c hc _
      obtain rfl : _ = c := Option.some.inj hc
      decide
  have hdone : (run eightWorkers.system.step (Pool.init (.empty 0)) overlap).Complete := by
    unfold Pool.Complete
    decide
  have hgauge : (run eightWorkers.system.step (Pool.init (.empty 0)) overlap).server.counter
      eightWorkers.key = 0 := by decide
  exact hgauge ▸ gauge_linearizable eightWorkers 0 overlap hg hdone

/-- An acquire of all slots lands between the two commands of a release. -/
def clampRace : List (PoolAction Nat GaugeOp) :=
  [.invoke (.release 1), .invoke (.acquire 8), .step 0, .step 1, .step 0]

/-- After the race the gauge is at zero although eight slots were granted; no
order of the two calls gives that. -/
theorem clamp_forgets_grant :
    ¬ ∀ (g : Gauge) (start : Instant) (as : List (PoolAction Nat GaugeOp)),
      (run g.system.step (Pool.init (.empty start)) as).Complete →
        (run g.system.step (Pool.init (.empty start)) as).Serializable g.sequential 0
          ((run g.system.step (Pool.init (.empty start)) as).server.counter g.key) := by
  intro h
  have hdone : (run eightWorkers.system.step (Pool.init (.empty 0)) clampRace).Complete := by
    unfold Pool.Complete
    decide
  obtain ⟨order, hperm, hout⟩ := h eightWorkers 0 clampRace hdone
  have hmem : order ∈ ([[0, 1], [1, 0]] : List (List Nat)) := List.mem_permutations'.mpr hperm
  rcases List.mem_cons.mp hmem with rfl | hmem
  · exact absurd hout (by decide)
  · rcases List.mem_singleton.mp hmem with rfl
    exact absurd hout (by decide)

end Gauge

end IsaCloud.Quota
