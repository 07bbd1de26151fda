import Mathlib.Data.Nat.Digits.Defs
import Mathlib.Data.Nat.Digits.Lemmas
import Mathlib.Data.List.Basic

/-!
# Text as a sequence of code points

A Python `str` is a sequence of arbitrary Unicode code points, lone surrogates
included, so it is a list over `Fin 0x110000` and not Lean's `String`. Decimal
numerals are spelled and read here because keys, timestamps and JSON numbers
are all built from them.
-/

namespace Support.Text

set_option autoImplicit false

abbrev CodePoint := Fin 0x110000

abbrev Str := List CodePoint

instance codePointsNonzero : NeZero 0x110000 := ⟨by decide⟩

instance codePointsLawful : LawfulBEq CodePoint := inferInstance

instance textsLawful : LawfulBEq Str := inferInstance

def cp (c : Char) : CodePoint := Fin.ofNat 0x110000 c.toNat

/-- A literal of the source. -/
def lit (s : String) : Str := s.toList.map cp

def digit (d : Nat) : CodePoint := Fin.ofNat 0x110000 (48 + d)

def isDigit (c : CodePoint) : Bool := decide (48 ≤ c.val ∧ c.val ≤ 57)

def digitValue (c : CodePoint) : Nat := c.val - 48

/-- The number an (unchecked) run of digits denotes. -/
def digitsValue (s : Str) : Nat := s.foldl (fun n c => 10 * n + digitValue c) 0

/-- Decimal numeral without leading zeros. -/
def natText (n : Nat) : Str :=
  if n = 0 then [digit 0] else (Nat.digits 10 n).reverse.map digit

def intText : Int → Str
  | .ofNat n => natText n
  | .negSucc n => cp '-' :: natText (n + 1)

/-- Zero-padded numeral of exactly `w` digits (the low ones, if there are more). -/
def padText : Nat → Nat → Str
  | 0, _ => []
  | w + 1, n => padText w (n / 10) ++ [digit (n % 10)]

theorem digit_val {d : Nat} (h : d < 10) : (digit d).val = 48 + d := by
  simp only [digit, Fin.ofNat]
  exact Nat.mod_eq_of_lt (by omega)

theorem digitValue_digit {d : Nat} (h : d < 10) : digitValue (digit d) = d := by
  rw [digitValue, digit_val h]
  omega

theorem isDigit_digit {d : Nat} (h : d < 10) : isDigit (digit d) = true := by
  simp only [isDigit, digit_val h, decide_eq_true_eq]
  omega

theorem digitsValue_append_singleton (s : Str) (c : CodePoint) :
    digitsValue (s ++ [c]) = 10 * digitsValue s + digitValue c := by
  simp [digitsValue, List.foldl_append]

theorem digitsValue_reverse_map (ds : List Nat) (h : ∀ d ∈ ds, d < 10) :
    digitsValue (ds.reverse.map digit) = Nat.ofDigits 10 ds := by
  induction ds with
  | nil => rfl
  | cons d ds ih =>
    have hd := h d List.mem_cons_self
    have ht := ih fun e he => h e (List.mem_cons_of_mem d he)
    rw [List.reverse_cons, List.map_append, List.map_singleton, digitsValue_append_singleton, ht,
      digitValue_digit hd, Nat.ofDigits_cons]
    omega

theorem digitsValue_natText (n : Nat) : digitsValue (natText n) = n := by
  unfold natText
  split
  · subst n
    decide
  · rw [digitsValue_reverse_map _ fun d hd => Nat.digits_lt_base (by decide) hd,
      Nat.ofDigits_digits]

theorem natText_injective {n m : Nat} (h : natText n = natText m) : n = m := by
  rw [← digitsValue_natText n, h, digitsValue_natText]

theorem isDigit_of_mem_natText {n : Nat} {c : CodePoint} (h : c ∈ natText n) :
    isDigit c = true := by
  unfold natText at h
  split at h
  · simp only [List.mem_singleton] at h
    subst h
    decide
  · obtain ⟨d, hd, rfl⟩ := List.mem_map.mp h
    exact isDigit_digit (Nat.digits_lt_base (by decide) (List.mem_reverse.mp hd))

theorem natText_ne_nil (n : Nat) : natText n ≠ [] := by
  unfold natText
  split
  · simp
  · rename_i h
    simpa using Nat.digits_ne_nil_iff_ne_zero.mpr h

@[simp] theorem padText_length (w n : Nat) : (padText w n).length = w := by
  induction w generalizing n with
  | zero => rfl
  | succ w ih => simp [padText, ih]

theorem digitsValue_padText {w n : Nat} (h : n < 10 ^ w) : digitsValue (padText w n) = n := by
  induction w generalizing n with
  | zero =>
    have : n = 0 := by simpa using h
    subst this
    rfl
  | succ w ih =>
    have hdiv : n / 10 < 10 ^ w := by
      apply Nat.div_lt_of_lt_mul
      rwa [Nat.pow_succ, Nat.mul_comm] at h
    rw [padText, digitsValue_append_singleton, ih hdiv, digitValue_digit (Nat.mod_lt _ (by decide))]
    omega

theorem padText_injective {w n m : Nat} (hn : n < 10 ^ w) (hm : m < 10 ^ w)
    (h : padText w n = padText w m) : n = m := by
  rw [← digitsValue_padText hn, h, digitsValue_padText hm]

theorem isDigit_of_mem_padText {w n : Nat} {c : CodePoint} (h : c ∈ padText w n) :
    isDigit c = true := by
  induction w generalizing n with
  | zero => simp [padText] at h
  | succ w ih =>
    rcases List.mem_append.mp h with h | h
    · exact ih h
    · rw [List.mem_singleton.mp h]
      exact isDigit_digit (Nat.mod_lt _ (by decide))

end Support.Text
