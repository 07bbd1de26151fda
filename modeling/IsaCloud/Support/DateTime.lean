import Mathlib.Data.Nat.Basic
import Mathlib.Data.List.Basic
import IsaCloud.Support.Text

/-!
# The calendar, and instants with their stamps

Day numbers of the proleptic Gregorian calendar count from 1 January of year 1,
which is day 1. `ord2ymd` is the cycle arithmetic of CPython's `datetime` (400, 100,
4 and 1 year cycles, then a month estimate that is exact or one too large);
`ymd2ord` is its inverse. An instant is a number of microseconds since that day,
UTC, the zero of `datetime`. The stamps are what `strftime` prints; two instants
have the same stamp exactly when they lie in the same hour or day.
-/

set_option autoImplicit false

/-! ## Dates -/

namespace Support.Calendar

structure Date where
  year : Nat
  month : Nat
  day : Nat
  deriving DecidableEq, Repr

def isLeap (year : Nat) : Bool :=
  year % 4 == 0 && (year % 100 != 0 || year % 400 == 0)

def daysBeforeYear (year : Nat) : Nat :=
  let y := year - 1
  y * 365 + y / 4 - y / 100 + y / 400

def daysInMonthTable : List Nat := [0, 31, 28, 31, 30, 31, 30, 31, 31, 30, 31, 30, 31]

def daysBeforeMonthTable : List Nat := [0, 0, 31, 59, 90, 120, 151, 181, 212, 243, 273, 304, 334]

def leapDay (leap : Bool) (b : Prop) [Decidable b] : Nat := if b ∧ leap = true then 1 else 0

def daysInMonth (leap : Bool) (month : Nat) : Nat :=
  daysInMonthTable.getD month 0 + leapDay leap (month = 2)

def daysBeforeMonth (leap : Bool) (month : Nat) : Nat :=
  daysBeforeMonthTable.getD month 0 + leapDay leap (2 < month)

def ymd2ord (d : Date) : Nat :=
  daysBeforeYear d.year + daysBeforeMonth (isLeap d.year) d.month + d.day

/-- Month and day of the zero-based day `n` of a year. -/
def monthDay (leap : Bool) (n : Nat) : Nat × Nat :=
  let month := (n + 50) / 32
  if daysBeforeMonth leap month > n then
    (month - 1, n - (daysBeforeMonth leap month - daysInMonth leap (month - 1)) + 1)
  else (month, n - daysBeforeMonth leap month + 1)

def ord2ymd (ord : Nat) : Date :=
  let n := ord - 1
  let n400 := n / 146097
  let n := n % 146097
  let n100 := n / 36524
  let n := n % 36524
  let n4 := n / 1461
  let n := n % 1461
  let n1 := n / 365
  let n := n % 365
  let year := n400 * 400 + 1 + n100 * 100 + n4 * 4 + n1
  if n1 = 4 ∨ n100 = 4 then ⟨year - 1, 12, 31⟩
  else
    let leap := n1 == 3 && (n4 != 24 || n100 == 3)
    ⟨year, (monthDay leap n).1, (monthDay leap n).2⟩

structure ValidDate (d : Date) : Prop where
  year : 1 ≤ d.year
  month : 1 ≤ d.month ∧ d.month ≤ 12
  day : 1 ≤ d.day ∧ d.day ≤ daysInMonth (isLeap d.year) d.month

theorem monthDay_spec : ∀ leap : Bool, ∀ n < 365 + leapDay leap True,
    (1 ≤ (monthDay leap n).1 ∧ (monthDay leap n).1 ≤ 12) ∧
    (1 ≤ (monthDay leap n).2 ∧ (monthDay leap n).2 ≤ daysInMonth leap (monthDay leap n).1) ∧
    daysBeforeMonth leap (monthDay leap n).1 + (monthDay leap n).2 = n + 1 := by
  decide +kernel

/-- The year that starts `a` 400-year, `b` 100-year, `c` 4-year and `d` single
years after year 1. -/
theorem daysBeforeYear_cycles {a b c d : Nat} (hb : b ≤ 3) (hc : c ≤ 24) (hd : d ≤ 3) :
    daysBeforeYear (a * 400 + 1 + b * 100 + c * 4 + d) =
      146097 * a + 36524 * b + 1461 * c + 365 * d := by
  unfold daysBeforeYear
  have h4 : (a * 400 + 1 + b * 100 + c * 4 + d - 1) / 4 = 100 * a + 25 * b + c := by omega
  have h100 : (a * 400 + 1 + b * 100 + c * 4 + d - 1) / 100 = 4 * a + b := by omega
  have h400 : (a * 400 + 1 + b * 100 + c * 4 + d - 1) / 400 = a := by omega
  simp only [h4, h100, h400]
  omega

theorem isLeap_cycles {a b c d : Nat} (hb : b ≤ 3) (hc : c ≤ 24) (hd : d ≤ 3) :
    isLeap (a * 400 + 1 + b * 100 + c * 4 + d) = (d == 3 && (c != 24 || b == 3)) := by
  rw [Bool.eq_iff_iff]
  simp only [isLeap, Bool.and_eq_true, Bool.or_eq_true, beq_iff_eq, bne_iff_ne, ne_eq]
  omega

theorem ord2ymd_spec {ord : Nat} (h : 1 ≤ ord) :
    ValidDate (ord2ymd ord) ∧ ymd2ord (ord2ymd ord) = ord := by
  obtain ⟨n, rfl⟩ : ∃ n, ord = n + 1 := ⟨ord - 1, by omega⟩
  simp only [ord2ymd, Nat.add_sub_cancel]
  set a := n / 146097
  set b := n % 146097 / 36524
  set c := n % 146097 % 36524 / 1461
  set d := n % 146097 % 36524 % 1461 / 365
  set r := n % 146097 % 36524 % 1461 % 365
  have hn : n = 146097 * a + 36524 * b + 1461 * c + 365 * d + r := by omega
  have hc : c ≤ 24 := by omega
  split
  · rename_i hlast
    -- the last day of a 4- or 400-year cycle, which the cycle arithmetic puts one year on
    have hr : r = 0 := by omega
    have key : ∃ b' c', b' ≤ 3 ∧ c' ≤ 24 ∧
        a * 400 + 1 + b * 100 + c * 4 + d - 1 = a * 400 + 1 + b' * 100 + c' * 4 + 3 ∧
        (c' ≠ 24 ∨ b' = 3) ∧
        n = 146097 * a + 36524 * b' + 1461 * c' + 365 * 3 + 365 := by
      rcases hlast with h1 | h1
      · exact ⟨b, c, by omega, hc, by omega, by omega, by omega⟩
      · exact ⟨3, 24, by omega, by omega, by omega, by omega, by omega⟩
    obtain ⟨b', c', hb', hc', hy, hleap, hn'⟩ := key
    have hl : isLeap (a * 400 + 1 + b' * 100 + c' * 4 + 3) = true := by
      rw [isLeap_cycles hb' hc' (by omega)]
      simpa using hleap
    rw [hy]
    refine ⟨⟨by simp only; omega, by simp, ?_⟩, ?_⟩
    · simp [hl, daysInMonth, daysInMonthTable, leapDay]
    · simp only [ymd2ord, hl, daysBeforeYear_cycles hb' hc' (by omega : 3 ≤ 3)]
      simp only [daysBeforeMonth, daysBeforeMonthTable, leapDay]
      simp
      omega
  · rename_i hlast
    have hb : b ≤ 3 := by omega
    have hd : d ≤ 3 := by omega
    have hl := isLeap_cycles (a := a) hb hc hd
    obtain ⟨hm, hday, hsum⟩ := monthDay_spec (d == 3 && (c != 24 || b == 3)) r (by omega)
    refine ⟨⟨by simp only; omega, hm, by simpa only [hl] using hday⟩, ?_⟩
    simp only [ymd2ord, hl, daysBeforeYear_cycles hb hc hd]
    omega

theorem ord2ymd_injective {m n : Nat} (hm : 1 ≤ m) (hn : 1 ≤ n) (h : ord2ymd m = ord2ymd n) :
    m = n := by
  rw [← (ord2ymd_spec hm).2, h, (ord2ymd_spec hn).2]

end Support.Calendar

/-! ## Instants -/

namespace Support.DateTime

open Text Calendar

abbrev Instant := Nat

def usPerSecond : Nat := 1000000
def usPerMinute : Nat := 60 * usPerSecond
def usPerHour : Nat := 3600 * usPerSecond
def usPerDay : Nat := 86400 * usPerSecond

def dateOf (t : Instant) : Date := ord2ymd (t / usPerDay + 1)
def hourOf (t : Instant) : Nat := t % usPerDay / usPerHour
def minuteOf (t : Instant) : Nat := t % usPerHour / usPerMinute
def secondOf (t : Instant) : Nat := t % usPerMinute / usPerSecond
def microsecondOf (t : Instant) : Nat := t % usPerSecond

/-- `strftime("%Y%m%d")`; glibc does not pad the year. -/
def dateStamp (t : Instant) : Str :=
  natText (dateOf t).year ++ padText 2 (dateOf t).month ++ padText 2 (dateOf t).day

/-- `strftime("%Y%m%d%H")`. -/
def hourStamp (t : Instant) : Str := dateStamp t ++ padText 2 (hourOf t)

theorem dateOf_valid (t : Instant) : ValidDate (dateOf t) :=
  (ord2ymd_spec (Nat.succ_pos _)).1

theorem hourOf_lt (t : Instant) : hourOf t < 24 := by
  unfold hourOf usPerDay usPerHour usPerSecond
  omega

theorem dateOf_eq_iff (t u : Instant) : dateOf t = dateOf u ↔ t / usPerDay = u / usPerDay := by
  constructor
  · intro h
    exact Nat.succ.inj (ord2ymd_injective (Nat.succ_pos _) (Nat.succ_pos _) h)
  · intro h
    simp only [dateOf, h]

theorem month_lt (t : Instant) : (dateOf t).month < 10 ^ 2 := by
  have := (dateOf_valid t).month
  omega

theorem day_lt (t : Instant) : (dateOf t).day < 10 ^ 2 := by
  have hd := (dateOf_valid t).day.2
  have : ∀ leap : Bool, ∀ m ≤ 12, daysInMonth leap m ≤ 31 := by decide
  have := this (isLeap (dateOf t).year) _ (dateOf_valid t).month.2
  omega

theorem dateStamp_eq_iff (t u : Instant) :
    dateStamp t = dateStamp u ↔ t / usPerDay = u / usPerDay := by
  rw [← dateOf_eq_iff]
  constructor
  · intro h
    obtain ⟨h, hday⟩ := List.append_inj' h (by simp)
    obtain ⟨hyear, hmonth⟩ := List.append_inj' h (by simp)
    have hy := natText_injective hyear
    have hm := padText_injective (month_lt t) (month_lt u) hmonth
    have hd := padText_injective (day_lt t) (day_lt u) hday
    cases ht : dateOf t
    cases hu : dateOf u
    simp_all
  · intro h
    simp only [dateStamp, h]

theorem hour_index_iff (t u : Nat) :
    t / usPerHour = u / usPerHour ↔ t / usPerDay = u / usPerDay ∧ hourOf t = hourOf u := by
  unfold hourOf usPerDay usPerHour usPerSecond
  omega

theorem hourStamp_eq_iff (t u : Instant) :
    hourStamp t = hourStamp u ↔ t / usPerHour = u / usPerHour := by
  rw [hour_index_iff, ← dateStamp_eq_iff]
  constructor
  · intro h
    obtain ⟨hdate, hhour⟩ := List.append_inj' h (by simp)
    have ht := hourOf_lt t
    have hu := hourOf_lt u
    exact ⟨hdate, padText_injective (by omega) (by omega) hhour⟩
  · rintro ⟨hdate, hhour⟩
    rw [hourStamp, hourStamp, hdate, hhour]

end Support.DateTime
