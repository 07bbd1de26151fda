import IsaCloud.Support.PyJson

/-!
# Slices of a list and `str` of an integer

A bound of a slice below zero counts from the end, and both bounds are brought
into the list before anything is cut. `str` refuses an integer with more digits
than the interpreter's limit, as `int` refuses such a text.
-/

namespace Support.Python

set_option autoImplicit false

open Text

section Slices
variable {α : Type}

def sliceIndex (length : Nat) (i : Int) : Nat :=
  if i < 0 then (i + length).toNat else min i.toNat length

/-- `xs[start:stop]`. -/
def slice (xs : List α) (start stop : Int) : List α :=
  (xs.take (sliceIndex xs.length stop)).drop (sliceIndex xs.length start)

/-- `xs[start:]`. -/
def sliceFrom (xs : List α) (start : Int) : List α := xs.drop (sliceIndex xs.length start)

/-- Two slices are equal when both are empty or their bounds agree within the list. -/
theorem drop_take_eq {l : List α} {a b c d : Nat}
    (hd : min b l.length ≤ min a l.length ∧ min d l.length ≤ min c l.length ∨
      min a l.length = min c l.length ∧ min b l.length = min d l.length) :
    (l.take b).drop a = (l.take d).drop c := by
  rcases hd with ⟨h1, h2⟩ | ⟨h1, h2⟩
  · have e1 : (l.take b).length ≤ a := by
      rw [List.length_take]
      omega
    have e2 : (l.take d).length ≤ c := by
      rw [List.length_take]
      omega
    rw [List.drop_eq_nil_of_le e1, List.drop_eq_nil_of_le e2]
  · apply List.ext_getElem?
    intro i
    simp only [List.getElem?_drop, List.getElem?_take]
    by_cases hi : a + i < l.length
    · have hac : a = c := by omega
      subst hac
      have : (a + i < b) = (a + i < d) := by
        apply propext
        omega
      simp only [this]
    · have hci : ¬ c + i < l.length := by omega
      rw [List.getElem?_eq_none (by omega), List.getElem?_eq_none (by omega)]
      simp

end Slices

/-- More digits than `str` and `int` convert. -/
def TooLong (n : Int) : Prop := Json.intMaxStrDigits < (natText n.natAbs).length

instance (n : Int) : Decidable (TooLong n) := inferInstanceAs (Decidable (_ < _))

def strOfInt (n : Int) : Except PyError Str :=
  if TooLong n then .error Json.tooManyDigits else .ok (intText n)

section Numbers

theorem strip_of_no_space {s : Str} (h : ∀ c ∈ s, isSpace c = false) : strip s = s := by
  have hdrop : ∀ u : Str, (∀ c ∈ u, isSpace c = false) → u.dropWhile isSpace = u := by
    intro u hu
    cases u with
    | nil => rfl
    | cons c u => rw [List.dropWhile_cons_of_neg (by simp [hu c List.mem_cons_self])]
  rw [strip, hdrop s h, hdrop s.reverse (fun c hc => h c (List.mem_reverse.mp hc)), List.reverse_reverse]

theorem isSpace_digit {c : CodePoint} (h : isDigit c = true) : isSpace c = false := by
  simp only [isDigit, decide_eq_true_eq] at h
  simp only [isSpace, decide_eq_false_iff_not]
  omega

theorem intSign_natText (n : Nat) : intSign (natText n) = (1, natText n) := by
  cases hs : natText n with
  | nil => rfl
  | cons c s =>
    have hc : isDigit c = true := isDigit_of_mem_natText (n := n) (hs ▸ List.mem_cons_self)
    have h1 : c ≠ cp '-' := by
      rintro rfl
      exact absurd hc (by decide)
    have h2 : c ≠ cp '+' := by
      rintro rfl
      exact absurd hc (by decide)
    rw [intSign, if_neg h1, if_neg h2]

theorem foldl_digitValue (s : Str) (a : Nat) :
    (s.map digitValue).foldl (fun n d => 10 * n + d) a = s.foldl (fun n c => 10 * n + digitValue c) a := by
  rw [List.foldl_map]

variable [Unicode]

theorem intOfStr_zero : intOfStr (lit "0") = .ok 0 := rfl

theorem intOfStr_error {s : Str} {e : PyError} (h : intOfStr s = .error e) : e.kind.isValueError = true := by
  rw [intOfStr] at h
  split at h
  · cases h
    rfl
  · split at h
    · cases h
      rfl
    · cases h

theorem intDigits_digits {s : Str} (h : ∀ c ∈ s, isDigit c = true) : intDigits true s = some (s.map digitValue) := by
  induction s with
  | nil => rfl
  | cons c s ih =>
    have hc : isDigit c = true := h c List.mem_cons_self
    have hu : c ≠ cp '_' := by
      rintro rfl
      exact absurd hc (by decide)
    rw [intDigits, if_neg hu, decimalValue, if_pos hc, ih (fun d hd => h d (List.mem_cons_of_mem c hd))]
    rfl

theorem intDigits_natText (n : Nat) : intDigits false (natText n) = some ((natText n).map digitValue) := by
  have hd : ∀ c ∈ natText n, isDigit c = true := fun c hc => isDigit_of_mem_natText hc
  cases hs : natText n with
  | nil => exact absurd hs (natText_ne_nil n)
  | cons c s =>
    rw [hs] at hd
    have h := intDigits_digits hd
    have hu : c ≠ cp '_' := by
      rintro rfl
      exact absurd (hd _ List.mem_cons_self) (by decide)
    rw [intDigits, if_neg hu] at h ⊢
    exact h

/-- `int(str(n))`. -/
theorem intOfStr_intText {n : Int} (h : ¬ TooLong n) : intOfStr (intText n) = .ok n := by
  have hspace : ∀ m : Nat, ∀ c ∈ natText m, isSpace c = false := fun m c hc => isSpace_digit (isDigit_of_mem_natText hc)
  rw [TooLong] at h
  cases n with
  | ofNat m =>
    have hs : intSign (strip (intText (Int.ofNat m))) = (1, natText m) := by
      rw [intText, strip_of_no_space (hspace m), intSign_natText]
    rw [intOfStr, hs]
    simp only [intDigits_natText, List.length_map]
    rw [if_neg (by simpa using h), foldl_digitValue]
    have := digitsValue_natText m
    simp [digitsValue] at this
    simp [this]
  | negSucc m =>
    have hs : intSign (strip (intText (Int.negSucc m))) = (-1, natText (m + 1)) := by
      rw [intText, strip_of_no_space]
      · simp [intSign]
      · intro c hc
        rcases List.mem_cons.mp hc with rfl | hc
        · decide
        · exact hspace _ c hc
    rw [intOfStr, hs]
    simp only [intDigits_natText, List.length_map]
    rw [if_neg (by simpa using h), foldl_digitValue]
    have := digitsValue_natText (m + 1)
    simp only [digitsValue] at this
    rw [this]
    congr 1
    omega
end Numbers

end Support.Python
