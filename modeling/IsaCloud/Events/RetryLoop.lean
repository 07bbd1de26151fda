import IsaCloud.Events.Pipeline
import Mathlib

/-!
# What the retry loop awaits

`_execute_with_retry` against a handler given by its outcomes, attempt by attempt: how
often the handler is called, and where the loop sleeps for how long.
-/

namespace IsaCloud.Events

set_option autoImplicit false

open Support Support.Text Support.Python

/-! ## The delays -/

namespace RetryPolicy
variable (policy : RetryPolicy)

theorem getDelay_le (i : Nat) : policy.getDelay i ≤ policy.maxDelay := Int.min_le_right _ _

theorem getDelay_mono (h : 0 ≤ policy.initialDelay) : Monotone policy.getDelay := by
  intro i j hij
  unfold getDelay
  apply min_le_min_right
  split_ifs
  · exact mul_le_mul_of_nonneg_left (pow_le_pow_right₀ (by decide) hij) h
  · exact le_refl _

end RetryPolicy

/-- The position of the first `True`, counted from one; infinite if there is none. -/
noncomputable def firstTrue (outcomes : Nat → Outcome) : ℕ∞ :=
  sInf {k | ∃ i : Nat, k = (i + 1 : Nat) ∧ outcomes i = .success}

section FirstTrue
variable {outcomes : Nat → Outcome} {n : Nat}

theorem lt_firstTrue_iff : (n : ℕ∞) < firstTrue outcomes ↔ ∀ i < n, outcomes i ≠ .success := by
  constructor
  · intro h i hi hsuccess
    have hle : firstTrue outcomes ≤ (i + 1 : Nat) := sInf_le ⟨i, rfl, hsuccess⟩
    have : (n : ℕ∞) < (i + 1 : Nat) := lt_of_lt_of_le h hle
    have : n < i + 1 := by exact_mod_cast this
    omega
  · intro h
    have hle : ((n + 1 : Nat) : ℕ∞) ≤ firstTrue outcomes := by
      apply le_sInf
      rintro k ⟨i, rfl, hsuccess⟩
      have hge : n ≤ i := Nat.le_of_not_lt fun hi => h i hi hsuccess
      exact_mod_cast Nat.succ_le_succ hge
    exact lt_of_lt_of_le (by exact_mod_cast Nat.lt_succ_self n) hle

theorem firstTrue_eq (hbefore : ∀ i < n, outcomes i ≠ .success) (hsuccess : outcomes n = .success) :
    firstTrue outcomes = (n + 1 : Nat) := by
  apply le_antisymm
  · exact sInf_le ⟨n, rfl, hsuccess⟩
  · exact Order.add_one_le_of_lt (lt_firstTrue_iff.mpr hbefore)

end FirstTrue

/-! ## The loop, attempt by attempt -/

namespace Pipeline

section Loop
variable {F Hd Out : Type}

/-- The handler calls so far, and all that was awaited. -/
structure Trial (F Hd : Type) where
  calls : Nat
  awaits : List (Await F Hd)

def Trial.start : Trial F Hd := ⟨0, []⟩

def Trial.called (w : Trial F Hd) (handler : Hd) (event : Event F) : Trial F Hd :=
  ⟨w.calls + 1, w.awaits ++ [.handle handler event]⟩

def Trial.slept (w : Trial F Hd) (seconds : Int) : Trial F Hd := ⟨w.calls, w.awaits ++ [.sleep seconds]⟩

/-- A handler that ends its `i`-th call with `outcomes i`, on an event loop that takes what a
float can hold. -/
def attend (outcomes : Nat → Outcome) (w : Trial F Hd) : Await F Hd → Trial F Hd × Answer
  | .handle handler event => (w.called handler event, (outcomes w.calls).answer)
  | .sleep seconds =>
    match asyncioSleep seconds with
    | .ok () => (w.slept seconds, .ok false)
    | .error e => (w, .error e)
  | _ => (w, .ok false)

/-- `n` calls of the handler with a sleep between any two. -/
def schedule (delay : Nat → Int) (handler : Hd) (event : Event F) : Nat → List (Await F Hd)
  | 0 => []
  | 1 => [.handle handler event]
  | n + 2 => schedule delay handler event (n + 1) ++ [.sleep (delay n), .handle handler event]

variable (sub : Subscriber Hd) (handler : Hd) (event : Event F) (outcomes : Nat → Outcome)
  (k : Answer → Pipeline.Coroutine F Hd Out)

/-- After `n` attempts that failed, each with the sleep after it. -/
def laps : Nat → Trial F Hd
  | 0 => .start
  | n + 1 => ((laps n).called handler event).slept (sub.retryPolicy.getDelay n)

theorem laps_calls (n : Nat) : (laps sub handler event n).calls = n := by
  induction n with
  | zero => rfl
  | succ n ih => exact congrArg (· + 1) ih

theorem laps_called (n : Nat) : (laps sub handler event n).called handler event =
    ⟨n + 1, schedule sub.retryPolicy.getDelay handler event (n + 1)⟩ := by
  induction n with
  | zero => rfl
  | succ n ih =>
    have hawaits : (laps sub handler event n).awaits ++ [.handle handler event] =
        schedule sub.retryPolicy.getDelay handler event (n + 1) := congrArg Trial.awaits ih
    have hlap : (laps sub handler event (n + 1)).awaits =
        schedule sub.retryPolicy.getDelay handler event (n + 1) ++ [.sleep (sub.retryPolicy.getDelay n)] := by
      rw [← hawaits]
      rfl
    rw [Trial.called, laps_calls, hlap, List.append_assoc]
    rfl

section Pause
variable {sub} {w : Trial F Hd} {attempt : Nat} {next : Pipeline.Coroutine F Hd Out}
  {failed : PyError → Pipeline.Coroutine F Hd Out}

theorem exec_pause (hlt : (attempt : Int) < sub.retryPolicy.maxRetries)
    (hsleep : sub.retryPolicy.getDelay attempt < sleepLimit) :
    (pause sub attempt next failed).exec (attend outcomes) w =
      next.exec (attend outcomes) (w.slept (sub.retryPolicy.getDelay attempt)) := by
  rw [pause, if_pos hlt, Proc.exec_call]
  simp only [attend, asyncioSleep_ok_iff.mpr hsleep]

theorem exec_pause_refused (hlt : (attempt : Int) < sub.retryPolicy.maxRetries)
    (hsleep : ¬ sub.retryPolicy.getDelay attempt < sleepLimit) :
    (pause sub attempt next failed).exec (attend outcomes) w =
      (failed intTooLarge).exec (attend outcomes) w := by
  rw [pause, if_pos hlt, Proc.exec_call]
  simp only [attend, asyncioSleep_error hsleep]

end Pause

/-- A failed attempt with one to come. -/
theorem exec_lap {n left : Nat} (hfail : outcomes n ≠ .success)
    (hlt : (n : Int) < sub.retryPolicy.maxRetries) (hsleep : sub.retryPolicy.getDelay n < sleepLimit) :
    (executeFrom sub handler event k (left + 1) n).exec (attend outcomes) (laps sub handler event n) =
      (executeFrom sub handler event k left (n + 1)).exec (attend outcomes) (laps sub handler event (n + 1)) := by
  rw [executeFrom, Proc.exec_call]
  simp only [attend, laps_calls]
  cases hout : outcomes n with
  | success => exact absurd hout hfail
  | failure => exact exec_pause outcomes hlt hsleep
  | raised e => exact exec_pause outcomes hlt hsleep

/-- A failed attempt before a delay that is no float. -/
theorem exec_refused {n left : Nat} (hfail : outcomes n ≠ .success)
    (hlt : (n : Int) < sub.retryPolicy.maxRetries) (hsleep : ¬ sub.retryPolicy.getDelay n < sleepLimit) :
    (executeFrom sub handler event k (left + 1) n).exec (attend outcomes) (laps sub handler event n) =
      (k (.error intTooLarge)).exec (attend outcomes) ((laps sub handler event n).called handler event) := by
  rw [executeFrom, Proc.exec_call]
  simp only [attend, laps_calls]
  cases hout : outcomes n with
  | success => exact absurd hout hfail
  | failure =>
    -- The sleep of the `try` block is refused, and that of the handler of its exception.
    exact (exec_pause_refused outcomes hlt hsleep).trans (exec_pause_refused outcomes hlt hsleep)
  | raised e => exact exec_pause_refused outcomes hlt hsleep

theorem exec_success {n left : Nat} (hsuccess : outcomes n = .success) :
    (executeFrom sub handler event k (left + 1) n).exec (attend outcomes) (laps sub handler event n) =
      (k (.ok true)).exec (attend outcomes) ((laps sub handler event n).called handler event) := by
  rw [executeFrom, Proc.exec_call]
  simp only [attend, laps_calls, hsuccess, Outcome.answer]

/-- The last attempt, failed. -/
theorem exec_exhausted {n : Nat} (hfail : outcomes n ≠ .success)
    (hlast : ¬ (n : Int) < sub.retryPolicy.maxRetries) :
    (executeFrom sub handler event k 1 n).exec (attend outcomes) (laps sub handler event n) =
      (k (.ok false)).exec (attend outcomes) ((laps sub handler event n).called handler event) := by
  rw [executeFrom, Proc.exec_call]
  simp only [attend, laps_calls, pause, if_neg hlast, executeFrom]
  cases hout : outcomes n with
  | success => exact absurd hout hfail
  | failure => rfl
  | raised e => rfl

/-- As long as the handler fails and the loop takes the delays, the attempts follow one another. -/
theorem exec_laps {n left : Nat} (hfail : ∀ i < n, outcomes i ≠ .success)
    (hlt : ∀ i < n, (i : Int) < sub.retryPolicy.maxRetries)
    (hsleep : ∀ i < n, sub.retryPolicy.getDelay i < sleepLimit) :
    (executeFrom sub handler event k (left + n) 0).exec (attend outcomes) .start =
      (executeFrom sub handler event k left n).exec (attend outcomes) (laps sub handler event n) := by
  induction n generalizing left with
  | zero => rfl
  | succ n ih =>
    have hprefix : (executeFrom sub handler event k (left + 1 + n) 0).exec (attend outcomes) .start =
        (executeFrom sub handler event k (left + 1) n).exec (attend outcomes) (laps sub handler event n) :=
      ih (fun i hi => hfail i (Nat.lt_succ_of_lt hi)) (fun i hi => hlt i (Nat.lt_succ_of_lt hi))
        fun i hi => hsleep i (Nat.lt_succ_of_lt hi)
    rw [show left + (n + 1) = left + 1 + n by omega, hprefix]
    exact exec_lap sub handler event outcomes k (hfail n n.lt_succ_self) (hlt n n.lt_succ_self)
      (hsleep n n.lt_succ_self)

/-- What the loop does before attempt `n` and at it is all there is of a range that ends there. -/
theorem executeWithRetry_split {n left : Nat} (h : sub.attempts = left + n) :
    executeWithRetry sub handler event k = executeFrom sub handler event k (left + n) 0 := by
  rw [executeWithRetry, h]

theorem attempts_eq {m : Nat} (h : sub.retryPolicy.maxRetries = m) : sub.attempts = m + 1 := by
  rw [Subscriber.attempts, h]
  exact Int.toNat_natCast (m + 1)

/-- Every delay that comes between two attempts is one the event loop takes. -/
def Sleepable : Prop := ∀ i : Nat, ((i + 2 : Nat) : ℕ∞) ≤ min (firstTrue outcomes) sub.attempts →
  sub.retryPolicy.getDelay i < sleepLimit

/-- The handler is called up to its first `True` or to the last attempt, with the delays of the
policy in between, and the result says which of the two it was. -/
theorem retry_exact (hmax : 0 ≤ sub.retryPolicy.maxRetries) (hinit : 0 ≤ sub.retryPolicy.initialDelay)
    (hsleep : Sleepable sub outcomes) : ∃ (n : Nat) (success : Bool),
    (n : ℕ∞) = min (firstTrue outcomes) sub.attempts ∧
    (executeWithRetry sub handler event .ret).exec (attend outcomes) .start =
      (⟨n, schedule sub.retryPolicy.getDelay handler event n⟩, .ok success) ∧
    (success = true ↔ firstTrue outcomes ≤ sub.attempts) ∧
    Monotone sub.retryPolicy.getDelay ∧ ∀ i, sub.retryPolicy.getDelay i ≤ sub.retryPolicy.maxDelay := by
  have hdelays := And.intro (sub.retryPolicy.getDelay_mono hinit) sub.retryPolicy.getDelay_le
  obtain ⟨m, hm⟩ := Int.eq_ofNat_of_zero_le hmax
  have hattempts := attempts_eq sub hm
  by_cases hfound : ∃ i, i ≤ m ∧ outcomes i = .success
  · obtain ⟨hle, hsuccess⟩ := Nat.find_spec hfound
    have hfail : ∀ i < Nat.find hfound, outcomes i ≠ .success := fun i hi hs =>
      Nat.find_min hfound hi ⟨by omega, hs⟩
    have hfirst := firstTrue_eq hfail hsuccess
    have hmin : firstTrue outcomes ≤ sub.attempts := by
      rw [hfirst, hattempts]
      exact_mod_cast Nat.succ_le_succ hle
    refine ⟨Nat.find hfound + 1, true, ?_, ?_, iff_of_true rfl hmin, hdelays⟩
    · rw [min_eq_left hmin, hfirst]
    · have hsplit : sub.attempts = m - Nat.find hfound + 1 + Nat.find hfound := by omega
      rw [executeWithRetry_split sub handler event .ret hsplit,
        exec_laps sub handler event outcomes .ret hfail (fun i hi => by omega) fun i hi => hsleep i ?_,
        exec_success sub handler event outcomes .ret hsuccess, laps_called]
      · rfl
      · rw [min_eq_left hmin, hfirst]
        exact_mod_cast Nat.succ_le_succ hi
  · have hfail : ∀ i < m + 1, outcomes i ≠ .success := fun i hi hs =>
      hfound ⟨i, Nat.le_of_lt_succ hi, hs⟩
    have hlater : (sub.attempts : ℕ∞) < firstTrue outcomes := by
      rw [hattempts]
      exact lt_firstTrue_iff.mpr hfail
    refine ⟨m + 1, false, ?_, ?_, iff_of_false nofun (not_le.mpr hlater), hdelays⟩
    · rw [min_eq_right (le_of_lt hlater), hattempts]
    · have hsplit : sub.attempts = 1 + m := by omega
      rw [executeWithRetry_split sub handler event .ret hsplit,
        exec_laps sub handler event outcomes .ret (fun i hi => hfail i (Nat.lt_succ_of_lt hi))
          (fun i hi => by omega) fun i hi => hsleep i ?_,
        exec_exhausted sub handler event outcomes .ret (hfail m m.lt_succ_self) (by omega), laps_called]
      · rfl
      · rw [min_eq_right (le_of_lt hlater), hattempts]
        exact_mod_cast Nat.succ_le_succ hi

/-- A delay that no float holds ends the call with the exception of `asyncio.sleep`. -/
theorem retry_raises (hmax : 0 ≤ sub.retryPolicy.maxRetries) (hsleep : ¬ Sleepable sub outcomes) :
    ((executeWithRetry sub handler event .ret).exec (attend outcomes) .start).2 = .error intTooLarge := by
  obtain ⟨m, hm⟩ := Int.eq_ofNat_of_zero_le hmax
  have hattempts := attempts_eq sub hm
  have hrefused : ∃ i : Nat, ((i + 2 : Nat) : ℕ∞) ≤ min (firstTrue outcomes) sub.attempts ∧
      ¬ sub.retryPolicy.getDelay i < sleepLimit := by
    simpa only [Sleepable, not_forall, exists_prop] using hsleep
  obtain ⟨hreached, hlimit⟩ := Nat.find_spec hrefused
  have hbefore : ((Nat.find hrefused + 1 : Nat) : ℕ∞) < firstTrue outcomes :=
    lt_of_lt_of_le (by exact_mod_cast Nat.lt_succ_self _) (le_trans hreached (min_le_left _ _))
  have hlast : Nat.find hrefused + 2 ≤ m + 1 := by
    rw [← hattempts]
    exact_mod_cast le_trans hreached (min_le_right _ _)
  have hfail := lt_firstTrue_iff.mp hbefore
  have hearlier : ∀ i < Nat.find hrefused, sub.retryPolicy.getDelay i < sleepLimit := fun i hi => by
    by_contra hno
    refine Nat.find_min hrefused hi ⟨le_trans ?_ hreached, hno⟩
    exact_mod_cast Nat.add_le_add_right (Nat.le_of_lt hi) 2
  have hsplit : sub.attempts = m - Nat.find hrefused + 1 + Nat.find hrefused := by omega
  rw [executeWithRetry_split sub handler event .ret hsplit,
    exec_laps sub handler event outcomes .ret (fun i hi => hfail i (Nat.lt_succ_of_lt hi))
      (fun i hi => by omega) hearlier,
    exec_refused sub handler event outcomes .ret (hfail _ (Nat.lt_succ_self _)) (by omega) hlimit]
  rfl

end Loop

section Examples

/-- A service that retries once, after as many seconds as `2 ** 1024`. -/
def patientService : Subscriber Unit where
  serviceName := lit "billing_service"
  idempotency := ⟨.memory, 10000, 86400, ⟨lit "default-org", lit "default"⟩⟩
  retryPolicy := ⟨1, 2 ^ 1024, 2 ^ 1024, true⟩
  handlers := .empty

/-- A handler that returns `False` costs this service an `OverflowError` and not a delay. -/
theorem patient_retry_raises : 0 ≤ patientService.retryPolicy.maxRetries ∧
    0 ≤ patientService.retryPolicy.initialDelay ∧
    ((executeWithRetry patientService () (failedEvent (F := Unit)) .ret).exec
      (attend fun _ => .failure) .start).2 = .error intTooLarge := by
  refine ⟨by decide, by decide, retry_raises patientService () _ _ (by decide) fun h => ?_⟩
  have hnever : ((2 : Nat) : ℕ∞) < firstTrue fun _ => Outcome.failure :=
    lt_firstTrue_iff.mpr fun _ _ => nofun
  have hreached : ((0 + 2 : Nat) : ℕ∞) ≤ min (firstTrue fun _ => Outcome.failure) patientService.attempts :=
    le_min (le_of_lt hnever) (le_refl _)
  exact absurd (h 0 hreached) (by decide +kernel)

/-- With the default policy, a handler that fails, raises and then succeeds is called three times,
one second and two seconds apart. -/
theorem default_retry_exact : ∃ (sub : Subscriber Unit) (outcomes : Nat → Outcome) (n : Nat) (success : Bool),
    sub.retryPolicy = ⟨3, 1, 60, true⟩ ∧ outcomes 2 = .success ∧
    (n : ℕ∞) = min (firstTrue outcomes) sub.attempts ∧
    (executeWithRetry sub () (failedEvent (F := Unit)) .ret).exec (attend outcomes) .start =
      (⟨n, schedule sub.retryPolicy.getDelay () failedEvent n⟩, .ok success) ∧
    (success = true ↔ firstTrue outcomes ≤ sub.attempts) ∧
    Monotone sub.retryPolicy.getDelay ∧ ∀ i, sub.retryPolicy.getDelay i ≤ sub.retryPolicy.maxDelay := by
  let sub : Subscriber Unit := { patientService with retryPolicy := ⟨3, 1, 60, true⟩ }
  let outcomes : Nat → Outcome := fun i => if i = 2 then .success else if i = 1 then .raised intTooLarge else .failure
  have hsleep : Sleepable sub outcomes := fun i _ =>
    Int.lt_of_le_of_lt (sub.retryPolicy.getDelay_le i) (by decide +kernel)
  obtain ⟨n, success, h⟩ := retry_exact sub () (failedEvent (F := Unit)) outcomes (by decide) (by decide) hsleep
  exact ⟨sub, outcomes, n, success, rfl, rfl, h⟩

end Examples

end Pipeline

end IsaCloud.Events
