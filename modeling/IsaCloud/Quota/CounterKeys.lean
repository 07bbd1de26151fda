import IsaCloud.Quota.Enforcer
import IsaCloud.Support.ListParts
import IsaCloud.Support.RateLimit

/-!
# Counter keys

`_key` joins its fields with colons and escapes nothing. The quota type and the
bucket contain no colon, so they can be read off the right end of a key; what is
left is the organisation, whatever characters it has.
-/

namespace IsaCloud.Quota

set_option autoImplicit false

open Support Support.Text Support.DateTime

namespace QuotaType

theorem value_injective {qt qt' : QuotaType} (h : qt.value = qt'.value) : qt = qt' := by
  revert h
  cases qt <;> cases qt' <;> decide

theorem colon_not_mem_value (qt : QuotaType) : cp ':' ∉ qt.value := by
  cases qt <;> decide

end QuotaType

namespace QuotaEnforcer

/-- The two instants lie in one window of the quota; a gauge has only one. -/
def SameWindow : QuotaType → Instant → Instant → Prop
  | .tokensPerHour, t, u => t / usPerHour = u / usPerHour
  | .gpuMinutesPerDay, t, u => t / usPerDay = u / usPerDay
  | .mcpCallsPerDay, t, u => t / usPerDay = u / usPerDay
  | .rayWorkers, _, _ => True

theorem windowBucket_eq_iff (qt : QuotaType) (t u : Instant) :
    windowBucket qt t = windowBucket qt u ↔ SameWindow qt t u := by
  cases qt with
  | tokensPerHour => exact hourStamp_eq_iff t u
  | gpuMinutesPerDay => exact dateStamp_eq_iff t u
  | mcpCallsPerDay => exact dateStamp_eq_iff t u
  | rayWorkers => exact ⟨fun _ => trivial, fun _ => rfl⟩

theorem colon_not_digit {c : CodePoint} (h : isDigit c = true) : c ≠ cp ':' := by
  rintro rfl
  exact absurd h (by decide)

theorem colon_not_mem_dateStamp (t : Instant) : cp ':' ∉ dateStamp t := by
  intro h
  rcases List.mem_append.mp h with h | h
  · rcases List.mem_append.mp h with h | h
    · exact colon_not_digit (isDigit_of_mem_natText h) rfl
    · exact colon_not_digit (isDigit_of_mem_padText h) rfl
  · exact colon_not_digit (isDigit_of_mem_padText h) rfl

theorem colon_not_mem_windowBucket (qt : QuotaType) (t : Instant) : cp ':' ∉ windowBucket qt t := by
  cases qt with
  | tokensPerHour =>
    intro h
    rcases List.mem_append.mp h with h | h
    · exact colon_not_mem_dateStamp t h
    · exact colon_not_digit (isDigit_of_mem_padText h) rfl
  | gpuMinutesPerDay => exact colon_not_mem_dateStamp t
  | mcpCallsPerDay => exact colon_not_mem_dateStamp t
  | rayWorkers =>
    have hgauge : cp ':' ∉ lit "gauge" := by decide
    exact hgauge

/-- A key with its two last fields behind their colons. -/
theorem key_eq (e : QuotaEnforcer) (org : Str) (qt : QuotaType) (t : Instant) :
    e.key org qt t = (e.keyPrefix ++ lit ":" ++ org ++ cp ':' :: qt.value) ++ cp ':' :: windowBucket qt t := by
  have hcolon : lit ":" = [cp ':'] := rfl
  simp only [key, hcolon, List.append_assoc, List.nil_append, List.cons_append]

/-- Two counters share a key only if they are the same counter. -/
theorem counter_keys_never_collide (e : QuotaEnforcer) (org₁ org₂ : Str) (qt₁ qt₂ : QuotaType) (t₁ t₂ : Instant) :
    e.key org₁ qt₁ t₁ = e.key org₂ qt₂ t₂ ↔ org₁ = org₂ ∧ qt₁ = qt₂ ∧ SameWindow qt₁ t₁ t₂ := by
  constructor
  · intro h
    rw [key_eq, key_eq] at h
    obtain ⟨hfront, hbucket⟩ :=
      Delimited.last_field_inj (colon_not_mem_windowBucket qt₁ t₁) (colon_not_mem_windowBucket qt₂ t₂) h
    obtain ⟨horg, hvalue⟩ := Delimited.last_field_inj qt₁.colon_not_mem_value qt₂.colon_not_mem_value hfront
    obtain rfl := QuotaType.value_injective hvalue
    exact ⟨List.append_cancel_left horg, rfl, (windowBucket_eq_iff qt₁ t₁ t₂).mp hbucket⟩
  · rintro ⟨rfl, rfl, hwindow⟩
    rw [key, key, (windowBucket_eq_iff qt₁ t₁ t₂).mpr hwindow]

end QuotaEnforcer

end IsaCloud.Quota

/-! ## When a window resets

The countdown is computed from the clock's fields, the bucket is a stamp of the same
clock. Both see the same windows: what is left of one, in whole seconds, is the
shortest wait that ends in another bucket, and that bucket is the next one.
-/

namespace IsaCloud.Quota.QuotaEnforcer

set_option autoImplicit false

open Support Support.Text Support.DateTime

/-- The stamps of two neighbouring microseconds, where the bucket changes. -/
def Follows (qt : QuotaType) (bucket next : Str) : Prop :=
  ∃ t : Nat, windowBucket qt t = bucket ∧ windowBucket qt (t + 1) = next ∧ bucket ≠ next

section Windowed
variable {qt : QuotaType} (hq : qt.isConcurrency = false)
include hq

theorem windowSeconds_pos : 0 < qt.windowSeconds := by
  cases qt with
  | tokensPerHour => decide
  | gpuMinutesPerDay => decide
  | mcpCallsPerDay => decide
  | rayWorkers => cases hq

theorem bucket_eq_iff (t u : Instant) :
    windowBucket qt t = windowBucket qt u ↔
      t / (qt.windowSeconds * usPerSecond) = u / (qt.windowSeconds * usPerSecond) := by
  rw [windowBucket_eq_iff]
  cases qt with
  | tokensPerHour => exact Iff.rfl
  | gpuMinutesPerDay => exact Iff.rfl
  | mcpCallsPerDay => exact Iff.rfl
  | rayWorkers => cases hq

/-- Minutes and seconds, or hours, minutes and seconds, are what has elapsed of the window. -/
theorem secondsUntilWindowReset_eq (now : Instant) :
    secondsUntilWindowReset qt now = countdown qt.windowSeconds usPerSecond now := by
  have hpos := countdown_pos (windowSeconds_pos hq) (u := usPerSecond) (by decide) now
  have hhour : minuteOf now * 60 + secondOf now = now % (3600 * usPerSecond) / usPerSecond := by
    unfold minuteOf secondOf usPerHour usPerMinute usPerSecond
    omega
  have hday : hourOf now * 3600 + minuteOf now * 60 + secondOf now =
      now % (86400 * usPerSecond) / usPerSecond := by
    unfold hourOf minuteOf secondOf usPerDay usPerHour usPerMinute usPerSecond
    omega
  cases qt with
  | tokensPerHour =>
    rw [secondsUntilWindowReset, hhour]
    exact max_eq_right hpos
  | gpuMinutesPerDay =>
    rw [secondsUntilWindowReset, hday]
    exact max_eq_right hpos
  | mcpCallsPerDay =>
    rw [secondsUntilWindowReset, hday]
    exact max_eq_right hpos
  | rayWorkers => cases hq

/-- Buckets follow each other as the windows do. -/
theorem follows_iff (t u : Nat) :
    Follows qt (windowBucket qt t) (windowBucket qt u) ↔
      u / (qt.windowSeconds * usPerSecond) = t / (qt.windowSeconds * usPerSecond) + 1 := by
  have hlen : 0 < qt.windowSeconds * usPerSecond := Nat.mul_pos (windowSeconds_pos hq) (by decide)
  generalize hn : qt.windowSeconds * usPerSecond = n at hlen
  have heq : ∀ a b : Nat, windowBucket qt a = windowBucket qt b ↔ a / n = b / n := by
    intro a b
    rw [← hn]
    exact bucket_eq_iff hq a b
  constructor
  · rintro ⟨s, hs, hs', hne⟩
    rw [heq] at hs hs'
    have hne' : t / n ≠ u / n := fun h => hne ((heq t u).mpr h)
    have hstep : (s + 1) / n = s / n + if n ∣ s + 1 then 1 else 0 := Nat.succ_div
    split at hstep
    · omega
    · omega
  · intro h
    -- the last microsecond of the window of `t`
    have hlast : ((t / n + 1) * n - 1) / n = t / n := by
      rw [Nat.div_eq_iff hlen, Nat.add_mul]
      omega
    have hnext : ((t / n + 1) * n - 1 + 1) / n = t / n + 1 := by
      have hpos : 0 < (t / n + 1) * n := Nat.mul_pos (Nat.succ_pos _) hlen
      rw [Nat.sub_add_cancel hpos, Nat.mul_div_cancel _ hlen]
    refine ⟨(t / n + 1) * n - 1, (heq _ _).mpr hlast, (heq _ _).mpr (hnext.trans h.symm), ?_⟩
    intro hsame
    have hwindow : t / n = u / n := (heq _ _).mp hsame
    omega

/-- The wait that is reported is the shortest, in whole seconds, that ends in another bucket,
and it ends in the bucket after this one. -/
theorem retry_after_exact (now : Instant) :
    IsLeast {s : Nat | 0 < s ∧ windowBucket qt (now + s * usPerSecond) ≠ windowBucket qt now}
        (secondsUntilWindowReset qt now) ∧
      Follows qt (windowBucket qt now)
        (windowBucket qt (now + secondsUntilWindowReset qt now * usPerSecond)) := by
  have hu : 0 < usPerSecond := by decide
  rw [follows_iff hq, secondsUntilWindowReset_eq hq]
  simp only [ne_eq, bucket_eq_iff hq]
  exact ⟨countdown_isLeast (windowSeconds_pos hq) hu now, window_after (windowSeconds_pos hq) hu now⟩

end Windowed

/-- The last half second of 2024. -/
theorem retry_after_exact_new_year :
    QuotaType.isConcurrency .mcpCallsPerDay = false ∧
      secondsUntilWindowReset .mcpCallsPerDay (739251 * usPerDay - 500000) = 1 ∧
      Follows .mcpCallsPerDay (windowBucket .mcpCallsPerDay (739251 * usPerDay - 500000))
        (windowBucket .mcpCallsPerDay (739251 * usPerDay - 500000 +
          secondsUntilWindowReset .mcpCallsPerDay (739251 * usPerDay - 500000) * usPerSecond)) :=
  ⟨rfl, by decide, (retry_after_exact rfl (739251 * usPerDay - 500000)).2⟩

end IsaCloud.Quota.QuotaEnforcer
