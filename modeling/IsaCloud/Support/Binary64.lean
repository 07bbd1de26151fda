import Mathlib.Data.Nat.Log
import Mathlib.Tactic.Ring
import Mathlib.Tactic.Linarith

/-!
# Integers as IEEE binary64 numbers

The integer-valued doubles, as a number type without a native integer format
(Lua 5.1, JavaScript) sees them: a magnitude keeps 53 significant bits, ties go
to the even significand, and `2 ^ 1024` stands for infinity. Nothing is said
about fractions, signed zero or NaN; sums and differences of such numbers are
again integers.
-/

namespace Support.Binary64

set_option autoImplicit false

/-- Round a magnitude to 53 significant bits, ties to even. -/
def roundNat (n : Nat) : Nat :=
  let k := n.log2 - 52
  let q := n / 2 ^ k
  let r := n % 2 ^ k
  if 2 * r < 2 ^ k ∨ (2 * r = 2 ^ k ∧ q % 2 = 0) then q * 2 ^ k else (q + 1) * 2 ^ k

def infinity : Nat := (2 ^ 256) ^ 4

def ofNat (n : Nat) : Nat := min (roundNat n) infinity

/-- The double nearest to an integer. -/
def ofInt : Int → Int
  | .ofNat n => .ofNat (ofNat n)
  | .negSucc n => - .ofNat (ofNat (n + 1))

/-- Floating point addition and subtraction: the exact result, rounded. -/
def add (x y : Int) : Int := ofInt (x + y)

def sub (x y : Int) : Int := ofInt (x - y)

theorem roundNat_lower (n : Nat) : n / 2 ^ (n.log2 - 52) * 2 ^ (n.log2 - 52) ≤ roundNat n := by
  unfold roundNat
  dsimp only
  split
  · exact le_rfl
  · exact Nat.mul_le_mul_right _ (Nat.le_succ _)

theorem roundNat_upper (n : Nat) :
    roundNat n ≤ (n / 2 ^ (n.log2 - 52) + 1) * 2 ^ (n.log2 - 52) := by
  unfold roundNat
  dsimp only
  split
  · exact Nat.mul_le_mul_right _ (Nat.le_succ _)
  · exact le_rfl

theorem roundNat_of_log2 {n : Nat} (h : n.log2 ≤ 52) : roundNat n = n := by
  have hk : n.log2 - 52 = 0 := by omega
  simp [roundNat, hk, Nat.mod_one]

/-- Every magnitude up to `2 ^ 53` is a double. -/
theorem roundNat_of_le {n : Nat} (h : n ≤ 2 ^ 53) : roundNat n = n := by
  rcases Nat.lt_or_eq_of_le h with h | rfl
  · apply roundNat_of_log2
    by_cases h0 : n = 0
    · simp [h0]
    · have := (Nat.log2_lt h0).mpr h
      omega
  · decide

theorem two_pow_log2_le_roundNat {n : Nat} (h0 : n ≠ 0) : 2 ^ n.log2 ≤ roundNat n := by
  by_cases hk : n.log2 ≤ 52
  · rw [roundNat_of_log2 hk]
    exact Nat.log2_self_le h0
  · refine le_trans ?_ (roundNat_lower n)
    have hq : 2 ^ 52 ≤ n / 2 ^ (n.log2 - 52) := by
      apply (Nat.le_div_iff_mul_le (Nat.two_pow_pos _)).mpr
      rw [← Nat.pow_add, Nat.add_sub_cancel' (by omega)]
      exact Nat.log2_self_le h0
    calc 2 ^ n.log2 = 2 ^ 52 * 2 ^ (n.log2 - 52) := by rw [← Nat.pow_add]; congr 1; omega
      _ ≤ _ := Nat.mul_le_mul_right _ hq

theorem roundNat_le_two_pow_log2 (n : Nat) : roundNat n ≤ 2 ^ (n.log2 + 1) := by
  by_cases hk : n.log2 ≤ 52
  · rw [roundNat_of_log2 hk]
    exact Nat.le_of_lt Nat.lt_log2_self
  · refine le_trans (roundNat_upper n) ?_
    have hq : n / 2 ^ (n.log2 - 52) < 2 ^ 53 := by
      apply (Nat.div_lt_iff_lt_mul (Nat.two_pow_pos _)).mpr
      rw [← Nat.pow_add]
      have : 53 + (n.log2 - 52) = n.log2 + 1 := by omega
      rw [this]
      exact Nat.lt_log2_self
    calc (n / 2 ^ (n.log2 - 52) + 1) * 2 ^ (n.log2 - 52)
        ≤ 2 ^ 53 * 2 ^ (n.log2 - 52) := Nat.mul_le_mul_right _ hq
      _ = 2 ^ (n.log2 + 1) := by rw [← Nat.pow_add]; congr 1; omega

theorem roundNat_mono_same {n m : Nat} (hlog : n.log2 = m.log2) (h : n ≤ m) :
    roundNat n ≤ roundNat m := by
  rcases Nat.lt_or_ge (n / 2 ^ (n.log2 - 52)) (m / 2 ^ (m.log2 - 52)) with hq | hq
  · calc roundNat n ≤ (n / 2 ^ (n.log2 - 52) + 1) * 2 ^ (n.log2 - 52) := roundNat_upper n
      _ ≤ m / 2 ^ (m.log2 - 52) * 2 ^ (m.log2 - 52) := by
          rw [hlog] at hq ⊢
          exact Nat.mul_le_mul_right _ hq
      _ ≤ roundNat m := roundNat_lower m
  · have hqe : n / 2 ^ (m.log2 - 52) = m / 2 ^ (m.log2 - 52) := by
      rw [hlog] at hq
      exact Nat.le_antisymm (Nat.div_le_div_right h) hq
    have hr : n % 2 ^ (m.log2 - 52) ≤ m % 2 ^ (m.log2 - 52) := by
      have h1 := Nat.div_add_mod n (2 ^ (m.log2 - 52))
      have h2 := Nat.div_add_mod m (2 ^ (m.log2 - 52))
      rw [hqe] at h1
      omega
    unfold roundNat
    simp only [hlog, hqe]
    -- both magnitudes share the significand, so only the rounding direction can differ
    split
    · split
      · exact le_rfl
      · exact Nat.mul_le_mul_right _ (Nat.le_succ _)
    · split
      · omega
      · exact le_rfl

theorem roundNat_mono {n m : Nat} (h : n ≤ m) : roundNat n ≤ roundNat m := by
  by_cases h0 : n = 0
  · subst h0
    exact Nat.zero_le _
  have hm : m ≠ 0 := by omega
  have hlog : n.log2 ≤ m.log2 := (Nat.le_log2 hm).mpr (le_trans (Nat.log2_self_le h0) h)
  rcases Nat.lt_or_eq_of_le hlog with hlt | heq
  · calc roundNat n ≤ 2 ^ (n.log2 + 1) := roundNat_le_two_pow_log2 n
      _ ≤ 2 ^ m.log2 := Nat.pow_le_pow_right (by decide) hlt
      _ ≤ roundNat m := two_pow_log2_le_roundNat hm
  · exact roundNat_mono_same heq h

theorem ofNat_mono {n m : Nat} (h : n ≤ m) : ofNat n ≤ ofNat m :=
  min_le_min_right _ (roundNat_mono h)

theorem ofNat_of_le {n : Nat} (h : n ≤ 2 ^ 53) : ofNat n = n := by
  rw [ofNat, roundNat_of_le h]
  apply Nat.min_eq_left
  exact le_trans h (by decide)

theorem ofInt_mono {x y : Int} (h : x ≤ y) : ofInt x ≤ ofInt y := by
  cases x with
  | ofNat n =>
    cases y with
    | ofNat m => exact Int.ofNat_le.mpr (ofNat_mono (Int.ofNat_le.mp h))
    | negSucc m =>
      have := Int.negSucc_lt_zero m
      simp only [Int.ofNat_eq_natCast] at h
      omega
  | negSucc n =>
    cases y with
    | ofNat m => simp only [ofInt, Int.ofNat_eq_natCast]; omega
    | negSucc m =>
      have hmn : m + 1 ≤ n + 1 := by omega
      have := ofNat_mono hmn
      simp only [ofInt, Int.ofNat_eq_natCast]
      omega

/-- Integers of magnitude at most `2 ^ 53` are exact. -/
theorem ofInt_of_abs_le {x : Int} (hlo : -(2 ^ 53) ≤ x) (hhi : x ≤ 2 ^ 53) : ofInt x = x := by
  cases x with
  | ofNat n =>
    have hn : n ≤ 2 ^ 53 := by
      simp only [Int.ofNat_eq_natCast] at hhi
      omega
    simp [ofInt, ofNat_of_le hn]
  | negSucc n =>
    have hn : n + 1 ≤ 2 ^ 53 := by
      rw [Int.negSucc_eq] at hlo
      omega
    simp only [ofInt, ofNat_of_le hn, Int.negSucc_eq, Int.ofNat_eq_natCast]
    omega

/-- A multiple of `2 ^ k` with at most 53 significant bits is a double. -/
theorem roundNat_mul_two_pow {q : Nat} (k : Nat) (hq : q ≤ 2 ^ 53) : roundNat (q * 2 ^ k) = q * 2 ^ k := by
  have hdvd : 2 ^ ((q * 2 ^ k).log2 - 52) ∣ q * 2 ^ k := by
    by_cases h0 : q = 0
    · rw [h0, Nat.zero_mul]
      exact Nat.dvd_zero _
    have hpos : q * 2 ^ k ≠ 0 := Nat.mul_ne_zero h0 (Nat.two_pow_pos k).ne'
    rcases Nat.lt_or_eq_of_le hq with hlt | heq
    · have hlog : (q * 2 ^ k).log2 < 53 + k := by
        rw [Nat.log2_lt hpos, Nat.pow_add]
        exact Nat.mul_lt_mul_of_pos_right hlt (Nat.two_pow_pos _)
      exact Dvd.dvd.mul_left (Nat.pow_dvd_pow 2 (by omega)) q
    · rw [heq, ← Nat.pow_add, Nat.log2_two_pow]
      exact Nat.pow_dvd_pow 2 (by omega)
  unfold roundNat
  dsimp only
  rw [Nat.mod_eq_zero_of_dvd hdvd, if_pos (Or.inl (Nat.two_pow_pos _))]
  exact Nat.div_mul_cancel hdvd

theorem significand_lt (n : Nat) : n / 2 ^ (n.log2 - 52) < 2 ^ 53 := by
  rw [Nat.div_lt_iff_lt_mul (Nat.two_pow_pos _), ← Nat.pow_add]
  exact lt_of_lt_of_le Nat.lt_log2_self (Nat.pow_le_pow_right (by decide) (by omega))

theorem roundNat_roundNat (n : Nat) : roundNat (roundNat n) = roundNat n := by
  have hq := significand_lt n
  have hround : roundNat n = n / 2 ^ (n.log2 - 52) * 2 ^ (n.log2 - 52) ∨
      roundNat n = (n / 2 ^ (n.log2 - 52) + 1) * 2 ^ (n.log2 - 52) := by
    unfold roundNat
    dsimp only
    split
    · exact .inl rfl
    · exact .inr rfl
  rcases hround with h | h
  · rw [h, roundNat_mul_two_pow _ hq.le]
  · rw [h, roundNat_mul_two_pow _ hq]

theorem ofNat_ofNat (n : Nat) : ofNat (ofNat n) = ofNat n := by
  have hinf : roundNat infinity = infinity := by
    have hpow : infinity = 1 * 2 ^ (256 * 4) := by
      rw [infinity, ← Nat.pow_mul, Nat.one_mul]
    rw [hpow, roundNat_mul_two_pow _ (by decide)]
  unfold ofNat
  rcases Nat.le_total (roundNat n) infinity with h | h
  · rw [Nat.min_eq_left h, roundNat_roundNat, Nat.min_eq_left h]
  · rw [Nat.min_eq_right h, hinf, Nat.min_self]

theorem ofInt_neg (n : Nat) : ofInt (-(n : Int)) = -(ofNat n : Int) := by
  cases n with
  | zero => rfl
  | succ n => rfl

/-- Rounding a double changes nothing. -/
theorem ofInt_ofInt (x : Int) : ofInt (ofInt x) = ofInt x := by
  cases x with
  | ofNat n => exact congrArg Int.ofNat (ofNat_ofNat n)
  | negSucc n =>
    change ofInt (-(ofNat (n + 1) : Int)) = -(ofNat (n + 1) : Int)
    rw [ofInt_neg, ofNat_ofNat]

end Support.Binary64
