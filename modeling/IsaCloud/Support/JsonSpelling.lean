import IsaCloud.Support.JsonText

/-!
# Every spelling of a value reads back as the value

One JSON value has many texts: white space between the tokens is free, and so is
the escape of each code point of a string. `Spelling` says which texts belong to
a value; `json.loads` reads the value back from every one of them. A value is
well formed when no dict holds a key twice, no string holds an unjoined
surrogate pair and no integer passes the digit limit; this is what `loads`
produces.
-/

namespace Support.Json

set_option autoImplicit false

open Text Python

/-! ## Well-formed values -/

/-- No high surrogate directly before a low one. -/
def splitFree : Str → Bool
  | a :: b :: s => !(isHigh a.val && isLow b.val) && splitFree (b :: s)
  | _ => true

section WellFormed
variable {F : Type}

mutual
def WF : Json F → Prop
  | .int n => (natText n.natAbs).length ≤ intMaxStrDigits
  | .str s => splitFree s = true
  | .arr xs => WFElems xs
  | .obj m => (Members.keys m).Nodup ∧ WFMembers m
  | _ => True

def WFElems : List (Json F) → Prop
  | [] => True
  | x :: xs => WF x ∧ WFElems xs

def WFMembers : List (Str × Json F) → Prop
  | [] => True
  | (k, v) :: m => splitFree k = true ∧ WF v ∧ WFMembers m
end

theorem wfElems_iff {xs : List (Json F)} : WFElems xs ↔ ∀ x ∈ xs, WF x := by
  induction xs with
  | nil => simp [WFElems]
  | cons x xs ih => simp [WFElems, ih]

theorem wfMembers_iff {m : Members F} :
    WFMembers m ↔ ∀ kv ∈ m, splitFree kv.1 = true ∧ WF kv.2 := by
  induction m with
  | nil => simp [WFMembers]
  | cons kv m ih => simp [WFMembers, ih, and_assoc]

theorem intsFitElems_iff {xs : List (Json F)} :
    intsFitElems xs = true ↔ ∀ x ∈ xs, intsFit x = true := by
  induction xs with
  | nil => simp [intsFitElems]
  | cons x xs ih => simp [intsFitElems, ih]

theorem intsFitMembers_iff {m : Members F} :
    intsFitMembers m = true ↔ ∀ kv ∈ m, intsFit kv.2 = true := by
  induction m with
  | nil => simp [intsFitMembers]
  | cons kv m ih => simp [intsFitMembers, ih]

theorem intsFit_of_wf (j : Json F) (h : WF j) : intsFit j = true := by
  induction j using inside_induction with
  | null | bool | float | str => rfl
  | int n => exact decide_eq_true h
  | arr xs ih =>
    exact intsFitElems_iff.mpr fun x hx => ih x hx (wfElems_iff.mp h x hx)
  | obj m ih =>
    exact intsFitMembers_iff.mpr fun kv hkv => ih kv hkv (wfMembers_iff.mp h.2 kv hkv).2

end WellFormed

/-! ## Delimiters and white space -/

/-- What may follow a value. -/
def Delimited (r : Str) : Prop :=
  ∀ c rest, r = c :: rest →
    c = comma ∨ c = closeBracket ∨ c = closeBrace ∨ isJsonSpace c = true

theorem delimited_nil : Delimited [] := by
  intro c rest h
  cases h

theorem delimited_cons {c : CodePoint} (r : Str)
    (h : c = comma ∨ c = closeBracket ∨ c = closeBrace ∨ isJsonSpace c = true) :
    Delimited (c :: r) := by
  intro c' rest he
  cases he
  exact h

/-- No delimiter continues a number. -/
theorem Delimited.spec {c : CodePoint} {r : Str} (h : Delimited (c :: r)) :
    isDigit c = false ∧ c ≠ cp '.' ∧ c ≠ cp 'e' ∧ c ≠ cp 'E' := by
  rcases h c r rfl with rfl | rfl | rfl | h
  · decide
  · decide
  · decide
  · simp only [isJsonSpace, Bool.or_eq_true, beq_iff_eq] at h
    refine ⟨decide_eq_false (by omega), ?_, ?_, ?_⟩ <;> rintro rfl <;> exact absurd h (by decide)

/-- A run of white space. -/
def Blank (w : Str) : Prop := ∀ c ∈ w, isJsonSpace c = true

theorem blank_nil : Blank [] := by
  intro c hc
  cases hc

theorem skipSpace_cons {c : CodePoint} {s : Str} (h : isJsonSpace c = false) :
    skipSpace (c :: s) = c :: s := by
  simp [skipSpace, h]

theorem skipSpace_blank {w : Str} (h : Blank w) (s : Str) : skipSpace (w ++ s) = skipSpace s :=
  List.dropWhile_append_of_pos h

/-- White space is skipped up to the token after it. -/
theorem skipSpace_token {w s : Str} {c : CodePoint} (h : Blank w) (hc : isJsonSpace c = false) :
    skipSpace (w ++ c :: s) = c :: s := by
  rw [skipSpace_blank h, skipSpace_cons hc]

theorem delimited_blank {w : Str} (h : Blank w) {c : CodePoint} (r : Str)
    (hc : c = comma ∨ c = closeBracket ∨ c = closeBrace) : Delimited (w ++ c :: r) := by
  cases w with
  | nil =>
    refine delimited_cons r ?_
    rcases hc with h | h | h
    · exact .inl h
    · exact .inr (.inl h)
    · exact .inr (.inr (.inl h))
  | cons d w => exact delimited_cons _ (.inr (.inr (.inr (h d List.mem_cons_self))))

theorem takeWhile_digits {ds r : Str} (hds : ∀ c ∈ ds, isDigit c = true)
    (hr : ∀ c rest, r = c :: rest → isDigit c = false) :
    (ds ++ r).takeWhile isDigit = ds ∧ (ds ++ r).dropWhile isDigit = r := by
  rw [List.takeWhile_append_of_pos hds, List.dropWhile_append_of_pos hds]
  cases r with
  | nil => simp
  | cons c rest => simp [hr c rest rfl]

theorem not_digit_delimited {r : Str} (h : Delimited r) (c : CodePoint) (rest : Str)
    (hr : r = c :: rest) : isDigit c = false := by
  subst hr
  exact h.spec.1

/-! ## Integers -/

theorem natText_cases (n : Nat) :
    natText n = [digit 0] ∨
      ∃ c ds, natText n = c :: ds ∧ c ≠ digit 0 ∧ isDigit c = true ∧ ∀ d ∈ ds, isDigit d = true := by
  by_cases h : n = 0
  · exact .inl (by simp [natText, h])
  · right
    cases ht : natText n with
    | nil => exact absurd ht (natText_ne_nil n)
    | cons c ds =>
      have hall : ∀ d ∈ natText n, isDigit d = true := fun d hd => isDigit_of_mem_natText hd
      rw [ht] at hall
      refine ⟨c, ds, rfl, ?_, hall c List.mem_cons_self, fun d hd => hall d (List.mem_cons_of_mem c hd)⟩
      intro hc
      -- the first digit is the last of `Nat.digits`, which is not zero
      simp only [natText, h, if_false] at ht
      have hne : Nat.digits 10 n ≠ [] := Nat.digits_ne_nil_iff_ne_zero.mpr h
      have hlast := Nat.getLast_digit_ne_zero 10 h
      have hhead : ((Nat.digits 10 n).reverse.map digit).head? = some (digit 0) := by
        rw [ht, hc]
        rfl
      rw [List.head?_map, List.head?_reverse, List.getLast?_eq_some_getLast hne, Option.map_some,
        Option.some.injEq] at hhead
      have hlt : (Nat.digits 10 n).getLast hne < 10 :=
        Nat.digits_lt_base (by decide) (List.getLast_mem hne)
      have hval := congrArg digitValue hhead
      rw [digitValue_digit hlt, digitValue_digit (by decide)] at hval
      exact hlast hval

/-- The shapes of the integer part of a number. -/
inductive IntPart : Str → Prop where
  | zero : IntPart [digit 0]
  | pos {c : CodePoint} {ds : Str} (hne : c ≠ digit 0) (hc : isDigit c = true)
      (hds : ∀ d ∈ ds, isDigit d = true) : IntPart (c :: ds)
  | neg {i : Str} (h : IntPart i) (hi : i.head? ≠ some minus) : IntPart (minus :: i)

theorem digit_ne_minus {c : CodePoint} (h : isDigit c = true) : c ≠ minus := by
  intro he
  rw [he] at h
  exact absurd h (by decide)

theorem intPart_natText (n : Nat) : IntPart (natText n) ∧ (natText n).head? ≠ some minus := by
  rcases natText_cases n with h | ⟨c, ds, h, hne, hc, hds⟩
  · rw [h]
    exact ⟨.zero, by decide⟩
  · rw [h]
    exact ⟨.pos hne hc hds, fun he => digit_ne_minus hc (Option.some.inj he)⟩

theorem intPart_intText (n : Int) : IntPart (intText n) := by
  cases n with
  | ofNat n => exact (intPart_natText n).1
  | negSucc n => exact .neg (intPart_natText (n + 1)).1 (intPart_natText (n + 1)).2

theorem scanInt_unsigned {i r : Str} (h : IntPart i) (hi : i.head? ≠ some minus)
    (hr : ∀ c rest, r = c :: rest → isDigit c = false) : scanInt (i ++ r) = some (i, r) := by
  cases h with
  | zero => rfl
  | pos hne hc hds =>
    rename_i c ds
    obtain ⟨htake, hdrop⟩ := takeWhile_digits hds hr
    simp [scanInt, scanSign, digit_ne_minus hc, hne, hc, htake, hdrop]
  | neg h hi' => exact absurd rfl hi

theorem scanInt_append {i r : Str} (h : IntPart i)
    (hr : ∀ c rest, r = c :: rest → isDigit c = false) : scanInt (i ++ r) = some (i, r) := by
  cases h with
  | zero => exact scanInt_unsigned .zero (by decide) hr
  | pos hne hc hds =>
    exact scanInt_unsigned (.pos hne hc hds) (fun he => digit_ne_minus hc (Option.some.inj he)) hr
  | neg h hi =>
    rename_i i
    have hu := scanInt_unsigned h hi hr
    cases h with
    | zero => rfl
    | pos hne hc hds =>
      rename_i c ds
      simp only [scanInt, scanSign, List.cons_append, digit_ne_minus hc, if_false] at hu
      simp only [scanInt, scanSign, List.cons_append, if_true]
      simp only [hne, hc, if_true, if_false, Option.some.injEq, Prod.mk.injEq,
        List.nil_append] at hu ⊢
      exact ⟨congrArg (minus :: ·) hu.1, hu.2⟩
    | neg h' hi' => exact absurd rfl hi

theorem scanFraction_delimited {r : Str} (h : Delimited r) : scanFraction r = ([], r) := by
  cases r with
  | nil => rfl
  | cons c rest =>
    have hne := h.spec.2.1
    cases rest with
    | nil => rfl
    | cons d rest => simp [scanFraction, hne]

theorem scanExponent_delimited {r : Str} (h : Delimited r) : scanExponent r = ([], r) := by
  cases r with
  | nil => rfl
  | cons c rest =>
    have hne : ¬ (c = cp 'e' ∨ c = cp 'E') := by
      rintro (he | he)
      · exact h.spec.2.2.1 he
      · exact h.spec.2.2.2 he
    simp [scanExponent, hne]

theorem intValue_intText (n : Int) : intValue (intText n) = n := by
  cases n with
  | ofNat n =>
    obtain ⟨-, hhead⟩ := intPart_natText n
    have hv := digitsValue_natText n
    simp only [intText]
    cases ht : natText n with
    | nil => exact absurd ht (natText_ne_nil n)
    | cons c ds =>
      rw [ht] at hhead hv
      have hc : c ≠ minus := fun he => hhead (by rw [he]; rfl)
      simp [intValue, hc, hv]
  | negSucc n =>
    have hm : cp '-' = minus := by decide
    simp only [intText, hm, intValue, if_true, digitsValue_natText]
    rfl

theorem digits_intText (n : Int) : ((intText n).filter isDigit).length = (natText n.natAbs).length := by
  have hall : ∀ m : Nat, (natText m).filter isDigit = natText m := fun m =>
    List.filter_eq_self.mpr fun c hc => isDigit_of_mem_natText hc
  cases n with
  | ofNat n => simp [intText, hall]
  | negSucc n =>
    have hm : isDigit (cp '-') = false := by decide
    simp [intText, hall, hm]

/-! ## Floats -/

inductive FractionPart : Str → Prop where
  | none : FractionPart []
  | digits {d : CodePoint} {ds : Str} (hd : isDigit d = true) (hds : ∀ c ∈ ds, isDigit c = true) :
      FractionPart (cp '.' :: d :: ds)

inductive ExponentPart : Str → Prop where
  | none : ExponentPart []
  | digits {e d : CodePoint} {ds : Str} (he : e = cp 'e' ∨ e = cp 'E') (hd : isDigit d = true)
      (hds : ∀ c ∈ ds, isDigit c = true) : ExponentPart (e :: d :: ds)
  | signed {e sign d : CodePoint} {ds : Str} (he : e = cp 'e' ∨ e = cp 'E')
      (hs : sign = cp '+' ∨ sign = minus) (hd : isDigit d = true)
      (hds : ∀ c ∈ ds, isDigit c = true) : ExponentPart (e :: sign :: d :: ds)

/-- `repr` of a float: the special values have names of their own; any other
float is written as a number with a fraction or an exponent that reads back as it. -/
class LawfulPyFloat (F : Type) [PyFloat F] : Prop where
  dump_spec : ∀ x : F,
    (x = PyFloat.nan ∧ PyFloat.dump x = lit "NaN") ∨
    (x = PyFloat.inf ∧ PyFloat.dump x = lit "Infinity") ∨
    (x = PyFloat.negInf ∧ PyFloat.dump x = lit "-Infinity") ∨
    ∃ i f e, IntPart i ∧ FractionPart f ∧ ExponentPart e ∧ (f ≠ [] ∨ e ≠ []) ∧
      PyFloat.dump x = i ++ f ++ e ∧ PyFloat.parse (PyFloat.dump x) = x

/-- A float type with one value, for text that holds no float. -/
instance : PyFloat Unit where
  parse _ := ()
  dump _ := lit "NaN"
  repr _ := lit "nan"
  trunc _ := .error ⟨.valueError, lit "cannot convert float NaN to integer"⟩
  isZero _ := false
  nan := ()
  inf := ()
  negInf := ()

instance : LawfulPyFloat Unit where
  dump_spec _ := .inl ⟨rfl, rfl⟩

theorem exponentPart_head {e r : Str} (he : ExponentPart e) (hr : Delimited r) (c : CodePoint)
    (rest : Str) (h : e ++ r = c :: rest) : isDigit c = false ∧ c ≠ cp '.' := by
  have hmark : ∀ m : CodePoint, m = cp 'e' ∨ m = cp 'E' → isDigit m = false ∧ m ≠ cp '.' := by
    rintro m (rfl | rfl) <;> decide
  cases he with
  | none =>
    rw [List.nil_append] at h
    subst h
    exact ⟨hr.spec.1, hr.spec.2.1⟩
  | digits he =>
    cases h
    exact hmark _ he
  | signed he =>
    cases h
    exact hmark _ he

theorem scanFraction_append {f t : Str} (hf : FractionPart f)
    (ht : ∀ c rest, t = c :: rest → isDigit c = false ∧ c ≠ cp '.') :
    scanFraction (f ++ t) = (f, t) := by
  cases hf with
  | none =>
    cases t with
    | nil => rfl
    | cons c rest =>
      have hc := (ht c rest rfl).2
      cases rest with
      | nil => rfl
      | cons d rest => simp [scanFraction, hc]
  | digits hd hds =>
    obtain ⟨htake, hdrop⟩ := takeWhile_digits hds fun c rest h => (ht c rest h).1
    simp [scanFraction, hd, htake, hdrop]

theorem scanExponent_append {e r : Str} (he : ExponentPart e) (hr : Delimited r) :
    scanExponent (e ++ r) = (e, r) := by
  cases he with
  | none => exact scanExponent_delimited hr
  | digits he hd hds =>
    obtain ⟨htake, hdrop⟩ := takeWhile_digits hds (not_digit_delimited hr)
    simp [scanExponent, he, hd, htake, hdrop]
  | signed he hs hd hds =>
    obtain ⟨htake, hdrop⟩ := takeWhile_digits hds (not_digit_delimited hr)
    rename_i sign d ds
    have hsd : isDigit sign = false := by
      rcases hs with rfl | rfl <;> decide
    simp [scanExponent, he, hs, hsd, hd, htake, hdrop]

theorem fraction_exponent_head {f e r : Str} (hf : FractionPart f) (he : ExponentPart e)
    (hr : Delimited r) (c : CodePoint) (rest : Str) (h : f ++ (e ++ r) = c :: rest) :
    isDigit c = false := by
  cases hf with
  | none => exact (exponentPart_head he hr c rest h).1
  | digits hd hds =>
    cases h
    decide

variable {F : Type} [PyFloat F]

theorem scanNumber_float {i f e r : Str} (hi : IntPart i) (hf : FractionPart f)
    (he : ExponentPart e) (hne : f ≠ [] ∨ e ≠ []) (hr : Delimited r) :
    scanNumber (F := F) (i ++ f ++ e ++ r) = .ok (.float (PyFloat.parse (i ++ f ++ e)), r) := by
  have hne' : ¬ (f = [] ∧ e = []) := by
    rintro ⟨hf', he'⟩
    exact hne.elim (fun h => h hf') (fun h => h he')
  rw [List.append_assoc, List.append_assoc, scanNumber,
    scanInt_append hi (fraction_exponent_head hf he hr)]
  simp only [scanFraction_append hf (exponentPart_head he hr), scanExponent_append he hr, hne',
    if_false]

theorem scanNumber_int {n : Int} {r : Str} (hn : (natText n.natAbs).length ≤ intMaxStrDigits)
    (hr : Delimited r) : scanNumber (F := F) (intText n ++ r) = .ok (.int n, r) := by
  have hdigits : ¬ intMaxStrDigits < ((intText n).filter isDigit).length := by
    rw [digits_intText]
    omega
  rw [scanNumber, scanInt_append (intPart_intText n) (not_digit_delimited hr)]
  simp only [scanFraction_delimited hr, scanExponent_delimited hr, and_self, if_true, hdigits,
    if_false, intValue_intText]

/-! ## Strings -/

/-- `\u` and four hexadecimal digits. -/
def UnitSpelling (u : Nat) (t : Str) : Prop :=
  ∃ h₁ h₂ h₃ h₄, hex4Value h₁ h₂ h₃ h₄ = some u ∧ t = [backslash, letterU, h₁, h₂, h₃, h₄]

/-- The texts of one code point inside a string. -/
inductive PointSpelling (c : CodePoint) : Str → Prop where
  | raw (hq : c ≠ quote) (hb : c ≠ backslash) (hc : 0x20 ≤ c.val) : PointSpelling c [c]
  | short {e : CodePoint} (he : unescape e = some c) : PointSpelling c [backslash, e]
  | unit {t : Str} (ht : UnitSpelling c.val t) : PointSpelling c t
  | pair {hi lo : Nat} {t u : Str} (ht : UnitSpelling hi t) (hu : UnitSpelling lo u)
      (hhi : isHigh hi = true) (hlo : isLow lo = true) (hjoin : joinSurrogates hi lo = c.val) :
      PointSpelling c (t ++ u)

/-- The texts of a string between its quotes. -/
inductive StringSpelling : Str → Str → Prop where
  | nil : StringSpelling [] []
  | cons {c : CodePoint} {s t u : Str} (hc : PointSpelling c t) (hs : StringSpelling s u) :
      StringSpelling (c :: s) (t ++ u)

theorem unescape_ne_letterU {e c : CodePoint} (h : unescape e = some c) : e ≠ letterU := by
  rintro rfl
  have hnone : unescape letterU = none := by decide
  rw [hnone] at h
  cases h

theorem scanPoint_escape {s : Str} {c : CodePoint} {rest : Str} (h : scanEscape s = .ok (c, rest)) :
    scanPoint (backslash :: s) = .ok (some c, rest) := by
  have hq : backslash ≠ quote := by decide
  simp only [scanPoint, hq, if_false, if_true, h]

theorem scanPoint_short {c e : CodePoint} (s : Str) (h : unescape e = some c) :
    scanPoint (backslash :: e :: s) = .ok (some c, s) := by
  apply scanPoint_escape
  simp only [scanEscape, unescape_ne_letterU h, h, if_false]

theorem scanPoint_plain {c : CodePoint} (s : Str) (hq : c ≠ quote) (hb : c ≠ backslash)
    (hc : 0x20 ≤ c.val) : scanPoint (c :: s) = .ok (some c, s) := by
  have hlt : ¬ c.val < 0x20 := by omega
  simp only [scanPoint, hq, hb, hlt, if_false]

theorem scanPoint_unit {u : Nat} {t s : Str} (ht : UnitSpelling u t)
    (hs : isHigh u = true → scanLowSurrogate s = .ok none) :
    scanPoint (t ++ s) = .ok (some (Fin.ofNat 0x110000 u), s) := by
  obtain ⟨h₁, h₂, h₃, h₄, hu, rfl⟩ := ht
  apply scanPoint_escape
  simp only [List.append_eq, List.cons_append, List.nil_append, scanEscape, if_true, scanUnicode,
    scanUnit, hu, Option.map_some]
  by_cases hh : isHigh u = true
  · simp only [hh, if_true, hs hh]
  · simp only [hh, Bool.false_eq_true, if_false]

theorem scanLowSurrogate_unit {u : Nat} {t : Str} (ht : UnitSpelling u t) (s : Str) :
    scanLowSurrogate (t ++ s) = .ok (if isLow u then some (u, s) else none) := by
  obtain ⟨h₁, h₂, h₃, h₄, hu, rfl⟩ := ht
  simp only [List.cons_append, List.nil_append, scanLowSurrogate, and_self, if_true, scanUnit, hu,
    Option.map_some]

theorem scanPoint_pair {hi lo : Nat} {t u : Str} (ht : UnitSpelling hi t) (hu : UnitSpelling lo u)
    (hhi : isHigh hi = true) (hlo : isLow lo = true) (s : Str) :
    scanPoint (t ++ (u ++ s)) = .ok (some (Fin.ofNat 0x110000 (joinSurrogates hi lo)), s) := by
  have hlow := scanLowSurrogate_unit hu s
  obtain ⟨h₁, h₂, h₃, h₄, hval, rfl⟩ := ht
  apply scanPoint_escape
  simp only [List.append_eq, List.cons_append, List.nil_append, scanEscape, if_true, scanUnicode,
    scanUnit, hval, Option.map_some, hhi, hlow, hlo]

theorem ofNat_val (c : CodePoint) : Fin.ofNat 0x110000 c.val = c :=
  Fin.ext (Nat.mod_eq_of_lt c.isLt)

theorem not_low_of_high {u : Nat} (h : isHigh u = true) : isLow u = false := by
  have := of_decide_eq_true h
  exact decide_eq_false (by omega)

/-- A string that does not start with a low surrogate is not taken for half of a pair. -/
theorem scanLowSurrogate_spelled {s u : Str} (hs : StringSpelling s u)
    (h : ∀ c t, s = c :: t → isLow c.val = false) (r : Str) :
    scanLowSurrogate (u ++ quote :: r) = .ok none := by
  have hq : ¬ (quote = backslash) := by decide
  cases hs with
  | nil =>
    cases r with
    | nil => rfl
    | cons v rest => simp [scanLowSurrogate, hq]
  | cons hc hs =>
    rename_i c s t u
    have hlow := h c s rfl
    rw [List.append_assoc]
    cases hc with
    | raw _ hb _ =>
      -- the text after a plain character is not empty, it ends in a quote
      obtain ⟨v, rest, hv⟩ : ∃ v rest, u ++ quote :: r = v :: rest := by
        cases hv : u ++ quote :: r with
        | nil => simp at hv
        | cons v rest => exact ⟨v, rest, rfl⟩
      rw [hv]
      simp [scanLowSurrogate, hb]
    | short he => simp [scanLowSurrogate, unescape_ne_letterU he]
    | unit ht =>
      rw [scanLowSurrogate_unit ht, hlow]
      rfl
    | pair ht hu hhi =>
      rw [List.append_assoc, scanLowSurrogate_unit ht, not_low_of_high hhi]
      rfl

theorem splitFree_tail {c : CodePoint} {s : Str} (h : splitFree (c :: s) = true) :
    splitFree s = true := by
  cases s with
  | nil => rfl
  | cons d s =>
    simp only [splitFree, Bool.and_eq_true] at h
    exact h.2

theorem scanPoint_spelled {c : CodePoint} {s t u : Str} (hs : splitFree (c :: s) = true)
    (hc : PointSpelling c t) (hu : StringSpelling s u) (r : Str) :
    scanPoint (t ++ (u ++ quote :: r)) = .ok (some c, u ++ quote :: r) := by
  cases hc with
  | raw hq hb hc => exact scanPoint_plain _ hq hb hc
  | short he => exact scanPoint_short _ he
  | unit ht =>
    rw [scanPoint_unit ht, ofNat_val]
    intro hhigh
    apply scanLowSurrogate_spelled hu
    rintro d s rfl
    simp only [splitFree, hhigh, Bool.true_and, Bool.and_eq_true, Bool.not_eq_true'] at hs
    exact hs.1
  | pair ht hu' hhi hlo hjoin =>
    rw [List.append_assoc, scanPoint_pair ht hu' hhi hlo, hjoin, ofNat_val]

theorem pointSpelling_pos {c : CodePoint} {t : Str} (h : PointSpelling c t) : 0 < t.length := by
  cases h with
  | raw => exact Nat.one_pos
  | short => exact Nat.two_pos
  | unit ht =>
    obtain ⟨h₁, h₂, h₃, h₄, -, rfl⟩ := ht
    exact Nat.succ_pos 5
  | pair ht hu =>
    obtain ⟨h₁, h₂, h₃, h₄, -, rfl⟩ := ht
    exact Nat.succ_pos _

theorem length_le_spelled {s u : Str} (h : StringSpelling s u) : s.length ≤ u.length := by
  induction h with
  | nil => exact Nat.le_refl 0
  | cons hc _ ih =>
    have := pointSpelling_pos hc
    simp only [List.length_append, List.length_cons]
    omega

theorem scanPoints_spelled {s u : Str} (hs : splitFree s = true) (hu : StringSpelling s u)
    (r : Str) {n : Nat} (hn : s.length < n) : scanPoints n (u ++ quote :: r) = .ok (s, r) := by
  induction hu generalizing n with
  | nil =>
    obtain ⟨n, rfl⟩ : ∃ m, n = m + 1 := ⟨n - 1, by simp at hn; omega⟩
    simp [scanPoints, scanPoint]
  | cons hc hu ih =>
    obtain ⟨n, rfl⟩ : ∃ m, n = m + 1 := ⟨n - 1, by simp at hn; omega⟩
    have ih := ih (splitFree_tail hs) (n := n) (by simp at hn; omega)
    rw [List.append_assoc, scanPoints, scanPoint_spelled hs hc hu r]
    simp only [ih]

/-- A string with its quotes. -/
def QuotedSpelling (s t : Str) : Prop := ∃ u, StringSpelling s u ∧ t = quote :: (u ++ [quote])

theorem scanString_spelled {s u : Str} (hs : splitFree s = true) (hu : StringSpelling s u)
    (r : Str) : scanString (u ++ quote :: r) = .ok (s, r) := by
  apply scanPoints_spelled hs hu
  have := length_le_spelled hu
  simp only [List.length_append, List.length_cons]
  omega

/-! ### The text `json.dumps` writes for a string -/

theorem hexValue_hexDigit : ∀ d < 16, hexValue (hexDigit d) = some d := by decide

theorem hex4Value_hex4 {u : Nat} (h : u < 65536) :
    hex4Value (hexDigit (u / 4096 % 16)) (hexDigit (u / 256 % 16)) (hexDigit (u / 16 % 16))
      (hexDigit (u % 16)) = some u := by
  have hlt : ∀ n, n % 16 < 16 := fun n => Nat.mod_lt n (by decide)
  simp only [hex4Value, hexValue_hexDigit _ (hlt _), Option.some.injEq]
  omega

theorem unitSpelling_escapeUnit {u : Nat} (h : u < 65536) : UnitSpelling u (escapeUnit u) :=
  ⟨_, _, _, _, hex4Value_hex4 h, rfl⟩

theorem shortEscapes_unescape {p : CodePoint × CodePoint} (h : p ∈ shortEscapes) :
    unescape p.2 = some p.1 := by
  have hall : shortEscapes.all (fun p => unescape p.2 == some p.1) = true := by
    decide
  have hp := List.all_eq_true.mp hall p h
  simpa using hp

theorem surrogates_of_astral {n : Nat} (h : 0x10000 ≤ n) (hn : n < 0x110000) :
    isHigh (highSurrogate n) = true ∧ isLow (lowSurrogate n) = true ∧
      joinSurrogates (highSurrogate n) (lowSurrogate n) = n := by
  unfold isHigh isLow highSurrogate lowSurrogate joinSurrogates
  refine ⟨decide_eq_true ?_, decide_eq_true ?_, ?_⟩
  · omega
  · omega
  · omega

/-- The escape of one code point, by its kind. -/
theorem escapePoint_cases (c : CodePoint) :
    (∃ letter, (c, letter) ∈ shortEscapes ∧ escapePoint c = [backslash, letter]) ∨
    (c ≠ quote ∧ c ≠ backslash ∧ 0x20 ≤ c.val ∧ escapePoint c = [c]) ∨
    (c.val < 0x10000 ∧ escapePoint c = escapeUnit c.val) ∨
    (0x10000 ≤ c.val ∧
      escapePoint c = escapeUnit (highSurrogate c.val) ++ escapeUnit (lowSurrogate c.val)) := by
  unfold escapePoint
  cases hl : shortEscapes.lookup c with
  | some letter =>
    obtain ⟨l₁, l₂, h, -⟩ := List.lookup_eq_some_iff.mp hl
    refine .inl ⟨letter, ?_, rfl⟩
    rw [h]
    exact List.mem_append_right _ List.mem_cons_self
  | none =>
    right
    have hq : c ≠ quote := by
      rintro rfl
      exact absurd hl (by decide)
    have hb : c ≠ backslash := by
      rintro rfl
      exact absurd hl (by decide)
    by_cases hp : 0x20 ≤ c.val ∧ c.val ≤ 0x7e
    · exact .inl ⟨hq, hb, hp.1, by simp only [hp, and_self, if_true]⟩
    · right
      by_cases hu : c.val < 0x10000
      · exact .inl ⟨hu, by simp only [hp, if_false, hu, if_true]⟩
      · exact .inr ⟨by omega, by simp only [hp, if_false, hu]⟩

theorem pointSpelling_escapePoint (c : CodePoint) : PointSpelling c (escapePoint c) := by
  rcases escapePoint_cases c with ⟨letter, hmem, he⟩ | ⟨hq, hb, hc, he⟩ | ⟨hu, he⟩ | ⟨hu, he⟩
  · rw [he]
    exact .short (shortEscapes_unescape hmem)
  · rw [he]
    exact .raw hq hb hc
  · rw [he]
    exact .unit (unitSpelling_escapeUnit hu)
  · obtain ⟨hhi, hlo, hjoin⟩ := surrogates_of_astral hu c.isLt
    have h1 := of_decide_eq_true hhi
    have h2 := of_decide_eq_true hlo
    rw [he]
    exact .pair (unitSpelling_escapeUnit (by omega)) (unitSpelling_escapeUnit (by omega)) hhi hlo hjoin

theorem stringSpelling_escaped (s : Str) : StringSpelling s (s.flatMap escapePoint) := by
  induction s with
  | nil => exact .nil
  | cons c s ih => exact .cons (pointSpelling_escapePoint c) ih

theorem quotedSpelling_quoted (s : Str) : QuotedSpelling s (quoted s) :=
  ⟨_, stringSpelling_escaped s, rfl⟩

/-! ## Scalars -/

theorem constants_eq : (constants : List (Str × Json F)) =
    [([110, 117, 108, 108], .null), ([116, 114, 117, 101], .bool true),
      ([102, 97, 108, 115, 101], .bool false), ([78, 97, 78], .float PyFloat.nan),
      ([73, 110, 102, 105, 110, 105, 116, 121], .float PyFloat.inf),
      ([45, 73, 110, 102, 105, 110, 105, 116, 121], .float PyFloat.negInf)] := rfl

/-- Every constant starts with a letter of its own. -/
theorem scanConstant_append (w : Str) (v : Json F) (h : (w, v) ∈ constants) (r : Str) :
    scanConstant (w ++ r) constants = some (v, r) := by
  rw [constants_eq] at h ⊢
  simp only [List.mem_cons, Prod.mk.injEq, List.not_mem_nil, or_false] at h
  rcases h with ⟨rfl, rfl⟩ | ⟨rfl, rfl⟩ | ⟨rfl, rfl⟩ | ⟨rfl, rfl⟩ | ⟨rfl, rfl⟩ | ⟨rfl, rfl⟩ <;>
    simp [scanConstant, afterLiteral]

theorem intPart_head {i : Str} (h : IntPart i) :
    ∃ c rest, i = c :: rest ∧ (isDigit c = true ∨
      c = minus ∧ ∃ d rest', rest = d :: rest' ∧ isDigit d = true) := by
  have hun : ∀ {j : Str}, IntPart j → j.head? ≠ some minus →
      ∃ c rest, j = c :: rest ∧ isDigit c = true := by
    intro j hj hhead
    cases hj with
    | zero => exact ⟨_, _, rfl, by decide⟩
    | pos hne hc hds => exact ⟨_, _, rfl, hc⟩
    | neg h' hi' => exact absurd rfl hhead
  cases h with
  | zero => exact ⟨_, _, rfl, .inl (by decide)⟩
  | pos hne hc hds => exact ⟨_, _, rfl, .inl hc⟩
  | neg h' hi' =>
    obtain ⟨d, rest, hj, hd⟩ := hun h' hi'
    exact ⟨_, _, rfl, .inr ⟨rfl, d, rest, hj, hd⟩⟩

theorem scanConstant_number {i : Str} (h : IntPart i) (t : Str) :
    scanConstant (F := F) (i ++ t) constants = none := by
  rw [constants_eq]
  obtain ⟨c, rest, rfl, hc | ⟨rfl, d, rest', rfl, hd⟩⟩ := intPart_head h
  · have hne : ∀ n : CodePoint, isDigit n = false → n ≠ c := by
      rintro n hn rfl
      rw [hn] at hc
      cases hc
    simp [scanConstant, afterLiteral, hne 110 (by decide), hne 116 (by decide),
      hne 102 (by decide), hne 78 (by decide), hne 73 (by decide), hne 45 (by decide)]
  · have hne : (73 : CodePoint) ≠ d := by
      rintro rfl
      exact absurd hd (by decide)
    simp [scanConstant, afterLiteral, minus, hne]

theorem scanValueWith_number {i : Str} (h : IntPart i) (t : Str)
    (nested : Option (Str → Scan (Json F))) :
    scanValueWith nested (i ++ t) = scanNumber (i ++ t) := by
  have hconst := scanConstant_number (F := F) h t
  obtain ⟨c, rest, rfl, hc⟩ := intPart_head h
  have hne : c ≠ quote ∧ c ≠ openBrace ∧ c ≠ openBracket := by
    have hd : isDigit c = true ∨ c = minus := hc.imp id And.left
    refine ⟨?_, ?_, ?_⟩ <;> rintro rfl <;> exact absurd hd (by decide)
  rw [List.cons_append] at hconst ⊢
  simp only [scanValueWith, hne.1, hne.2.1, hne.2.2, if_false, hconst]

theorem scanValueWith_constant {w : Str} {v : Json F} (h : (w, v) ∈ constants) (r : Str)
    (nested : Option (Str → Scan (Json F))) : scanValueWith nested (w ++ r) = .ok (v, r) := by
  have hconst := scanConstant_append w v h r
  have hhead : ∃ c rest, w = c :: rest ∧ c ≠ quote ∧ c ≠ openBrace ∧ c ≠ openBracket := by
    rw [constants_eq] at h
    simp only [List.mem_cons, Prod.mk.injEq, List.not_mem_nil, or_false] at h
    rcases h with ⟨rfl, -⟩ | ⟨rfl, -⟩ | ⟨rfl, -⟩ | ⟨rfl, -⟩ | ⟨rfl, -⟩ | ⟨rfl, -⟩ <;>
      exact ⟨_, _, rfl, by decide, by decide, by decide⟩
  obtain ⟨c, rest, rfl, h1, h2, h3⟩ := hhead
  rw [List.cons_append] at hconst ⊢
  simp only [scanValueWith, h1, h2, h3, if_false, hconst]

theorem scanValueWith_string {s t : Str} (hs : splitFree s = true) (ht : QuotedSpelling s t)
    (r : Str) (nested : Option (Str → Scan (Json F))) :
    scanValueWith nested (t ++ r) = .ok (.str s, r) := by
  obtain ⟨u, hu, rfl⟩ := ht
  simp only [List.cons_append, List.append_assoc, List.nil_append, scanValueWith, if_true,
    scanString_spelled hs hu]

theorem scanValueWith_float [LawfulPyFloat F] (x : F) {r : Str} (hr : Delimited r)
    (nested : Option (Str → Scan (Json F))) :
    scanValueWith nested (PyFloat.dump x ++ r) = .ok (.float x, r) := by
  rcases LawfulPyFloat.dump_spec x with ⟨rfl, h⟩ | ⟨rfl, h⟩ | ⟨rfl, h⟩ |
    ⟨i, f, e, hi, hf, he, hne, h, hparse⟩
  · rw [h]
    exact scanValueWith_constant (by simp [constants]) r nested
  · rw [h]
    exact scanValueWith_constant (by simp [constants]) r nested
  · rw [h]
    exact scanValueWith_constant (by simp [constants]) r nested
  · rw [h] at hparse ⊢
    have hnum := scanNumber_float (F := F) hi hf he hne hr
    rw [List.append_assoc, List.append_assoc] at hnum ⊢
    rw [scanValueWith_number hi, hnum, hparse]

/-! ## Arrays and objects -/

/-- Key, colon and the text of a value. -/
def MemberSpelling (k t u : Str) : Prop :=
  ∃ q w w', QuotedSpelling k q ∧ Blank w ∧ Blank w' ∧ u = q ++ (w ++ colon :: (w' ++ t))

mutual
/-- The texts of a value without the white space around it. -/
def Spells : Json F → Str → Prop
  | .null, t => t = lit "null"
  | .bool true, t => t = lit "true"
  | .bool false, t => t = lit "false"
  | .int n, t => t = intText n
  | .float x, t => t = PyFloat.dump x
  | .str s, t => QuotedSpelling s t
  | .arr [], t => ∃ w, Blank w ∧ t = openBracket :: (w ++ [closeBracket])
  | .arr (x :: xs), t => ∃ w u v, Blank w ∧ Spells x u ∧ SpellsElems xs v ∧
      t = openBracket :: (w ++ (u ++ v))
  | .obj [], t => ∃ w, Blank w ∧ t = openBrace :: (w ++ [closeBrace])
  | .obj ((k, x) :: m), t => ∃ w y u v, Blank w ∧ Spells x y ∧ MemberSpelling k y u ∧
      SpellsMembers m v ∧ t = openBrace :: (w ++ (u ++ v))

/-- The elements after the first, up to the closing bracket. -/
def SpellsElems : List (Json F) → Str → Prop
  | [], t => ∃ w, Blank w ∧ t = w ++ [closeBracket]
  | x :: xs, t => ∃ w w' u v, Blank w ∧ Blank w' ∧ Spells x u ∧ SpellsElems xs v ∧
      t = w ++ comma :: (w' ++ (u ++ v))

def SpellsMembers : List (Str × Json F) → Str → Prop
  | [], t => ∃ w, Blank w ∧ t = w ++ [closeBrace]
  | (k, x) :: m, t => ∃ w w' y u v, Blank w ∧ Blank w' ∧ Spells x y ∧ MemberSpelling k y u ∧
      SpellsMembers m v ∧ t = w ++ comma :: (w' ++ (u ++ v))
end

/-- A text of the value, with white space around it. -/
def Spelling (j : Json F) (text : Str) : Prop :=
  ∃ w t w', Blank w ∧ Spells j t ∧ Blank w' ∧ text = w ++ (t ++ w')

/-- No value starts with white space or a closing bracket. -/
theorem spells_head [LawfulPyFloat F] {j : Json F} {t : Str} (h : Spells j t) :
    ∃ c rest, t = c :: rest ∧ isJsonSpace c = false ∧ c ≠ closeBracket ∧ c ≠ 0xfeff := by
  have hnum : ∀ {i t : Str}, IntPart i → ∃ c rest, i ++ t = c :: rest ∧ isJsonSpace c = false ∧
      c ≠ closeBracket ∧ c ≠ 0xfeff := by
    intro i t hi
    obtain ⟨c, rest, rfl, hc⟩ := intPart_head hi
    have hval : c.val ≤ 57 ∧ 45 ≤ c.val := by
      rcases hc with hc | ⟨rfl, -⟩
      · have := of_decide_eq_true hc
        omega
      · decide
    refine ⟨c, rest ++ t, rfl, ?_, ?_, ?_⟩
    · simp only [isJsonSpace, Bool.or_eq_false_iff, beq_eq_false_iff_ne]
      omega
    · rintro rfl
      exact absurd hval (by decide)
    · rintro rfl
      exact absurd hval (by decide)
  cases j with
  | null =>
    subst h
    exact ⟨_, _, rfl, by decide, by decide, by decide⟩
  | bool b =>
    cases b <;> subst h <;> exact ⟨_, _, rfl, by decide, by decide, by decide⟩
  | int n =>
    subst h
    have h := hnum (t := []) (intPart_intText n)
    rwa [List.append_nil] at h
  | float x =>
    subst h
    rcases LawfulPyFloat.dump_spec x with ⟨-, h⟩ | ⟨-, h⟩ | ⟨-, h⟩ | ⟨i, f, e, hi, -, -, -, h, -⟩
    · exact ⟨_, _, h, by decide, by decide, by decide⟩
    · exact ⟨_, _, h, by decide, by decide, by decide⟩
    · exact ⟨_, _, h, by decide, by decide, by decide⟩
    · rw [h, List.append_assoc]
      exact hnum hi
  | str s =>
    obtain ⟨u, -, rfl⟩ := h
    exact ⟨_, _, rfl, by decide, by decide, by decide⟩
  | arr xs =>
    cases xs with
    | nil =>
      obtain ⟨w, -, rfl⟩ := h
      exact ⟨_, _, rfl, by decide, by decide, by decide⟩
    | cons x xs =>
      obtain ⟨w, u, v, -, -, -, rfl⟩ := h
      exact ⟨_, _, rfl, by decide, by decide, by decide⟩
  | obj m =>
    cases m with
    | nil =>
      obtain ⟨w, -, rfl⟩ := h
      exact ⟨_, _, rfl, by decide, by decide, by decide⟩
    | cons kv m =>
      obtain ⟨w, y, u, v, -, -, -, -, rfl⟩ := h
      exact ⟨_, _, rfl, by decide, by decide, by decide⟩

theorem skipSpace_spelled [LawfulPyFloat F] {j : Json F} {w t : Str} (hw : Blank w)
    (h : Spells j t) (r : Str) : skipSpace (w ++ (t ++ r)) = t ++ r := by
  obtain ⟨c, rest, rfl, hsp, -⟩ := spells_head h
  exact skipSpace_token hw hsp

theorem delimited_spellsElems {xs : List (Json F)} {v : Str} (h : SpellsElems xs v) (r : Str) :
    Delimited (v ++ r) := by
  cases xs with
  | nil =>
    obtain ⟨w, hw, rfl⟩ := h
    rw [List.append_assoc]
    exact delimited_blank hw _ (.inr (.inl rfl))
  | cons x xs =>
    obtain ⟨w, w', u, v, hw, -, -, -, rfl⟩ := h
    rw [List.append_assoc]
    exact delimited_blank hw _ (.inl rfl)

theorem delimited_spellsMembers {m : Members F} {v : Str} (h : SpellsMembers m v) (r : Str) :
    Delimited (v ++ r) := by
  cases m with
  | nil =>
    obtain ⟨w, hw, rfl⟩ := h
    rw [List.append_assoc]
    exact delimited_blank hw _ (.inr (.inr rfl))
  | cons kv m =>
    obtain ⟨w, w', y, u, v, hw, -, -, -, -, rfl⟩ := h
    rw [List.append_assoc]
    exact delimited_blank hw _ (.inl rfl)

/-- The scanner reads a value back from all its texts. -/
def Reads (value : Str → Scan (Json F)) (j : Json F) : Prop :=
  ∀ t r, Spells j t → Delimited r → value (t ++ r) = .ok (j, r)

theorem scanElems_spelled [LawfulPyFloat F] {value : Str → Scan (Json F)} {x : Json F}
    {xs : List (Json F)} (hx : Reads value x) (hxs : ∀ y ∈ xs, Reads value y) {u v : Str}
    (hu : Spells x u) (hv : SpellsElems xs v) (r : Str) {n : Nat} (hn : xs.length < n) :
    scanElems value n (u ++ (v ++ r)) = .ok (x :: xs, r) := by
  induction xs generalizing x u v n with
  | nil =>
    obtain ⟨n, rfl⟩ : ∃ m, n = m + 1 := ⟨n - 1, by simp at hn; omega⟩
    rw [scanElems, hx u _ hu (delimited_spellsElems hv r)]
    obtain ⟨w, hw, rfl⟩ := hv
    rw [List.append_assoc]
    simp only [List.cons_append, List.nil_append,
      skipSpace_token hw (show isJsonSpace closeBracket = false by decide), if_true]
  | cons y ys ih =>
    obtain ⟨n, rfl⟩ : ∃ m, n = m + 1 := ⟨n - 1, by simp at hn; omega⟩
    rw [scanElems, hx u _ hu (delimited_spellsElems hv r)]
    obtain ⟨w, w', u', v', hw, hw', hu', hv', rfl⟩ := hv
    have ih := ih (hxs y List.mem_cons_self) (fun z hz => hxs z (List.mem_cons_of_mem y hz))
      hu' hv' (n := n) (by simp at hn; omega)
    have hne : comma ≠ closeBracket := by decide
    rw [List.append_assoc]
    simp only [List.cons_append, List.append_assoc,
      skipSpace_token hw (show isJsonSpace comma = false by decide), hne, if_false, if_true,
      skipSpace_spelled hw' hu', ih]

theorem scanMember_spelled [LawfulPyFloat F] {value : Str → Scan (Json F)} {k : Str} {x : Json F}
    (hk : splitFree k = true) (hx : Reads value x) {y u : Str} (hy : Spells x y)
    (hu : MemberSpelling k y u) {r : Str} (hr : Delimited r) :
    scanMember value (u ++ r) = .ok ((k, x), r) := by
  obtain ⟨q, w, w', ⟨s, hs, rfl⟩, hw, hw', rfl⟩ := hu
  simp only [scanMember, List.cons_append, List.append_assoc, List.nil_append, scanKey, if_true,
    scanString_spelled hk hs, scanColon,
    skipSpace_token hw (show isJsonSpace colon = false by decide), skipSpace_spelled hw' hy,
    hx y r hy hr]

theorem skipSpace_member {w k y u : Str} (hw : Blank w) (hu : MemberSpelling k y u) (r : Str) :
    skipSpace (w ++ (u ++ r)) = u ++ r := by
  obtain ⟨q, w₁, w₂, ⟨s, -, rfl⟩, -, -, rfl⟩ := hu
  exact skipSpace_token hw (by decide)

theorem scanMembers_spelled [LawfulPyFloat F] {value : Str → Scan (Json F)} {k : Str} {x : Json F}
    {m acc : Members F} (hk : splitFree k = true) (hx : Reads value x)
    (hm : ∀ kv ∈ m, splitFree kv.1 = true ∧ Reads value kv.2)
    (hnodup : (acc ++ (k, x) :: m).keys.Nodup) {y u v : Str} (hy : Spells x y)
    (hu : MemberSpelling k y u) (hv : SpellsMembers m v) (r : Str) {n : Nat} (hn : m.length < n) :
    scanMembers value n (u ++ (v ++ r)) acc = .ok (acc ++ (k, x) :: m, r) := by
  have hset : acc.set k x = acc ++ [(k, x)] := by
    apply Members.set_of_not_mem
    intro hmem
    simp only [Members.keys, List.map_append, List.map_cons] at hnodup hmem
    exact (List.nodup_append.mp hnodup).2.2 k hmem k List.mem_cons_self rfl
  induction m generalizing k x acc y u v n with
  | nil =>
    obtain ⟨n, rfl⟩ : ∃ m, n = m + 1 := ⟨n - 1, by simp at hn; omega⟩
    rw [scanMembers, scanMember_spelled hk hx hy hu (delimited_spellsMembers hv r)]
    obtain ⟨w, hw, rfl⟩ := hv
    rw [List.append_assoc]
    simp only [List.cons_append, List.nil_append,
      skipSpace_token hw (show isJsonSpace closeBrace = false by decide), if_true, hset]
  | cons kv m ih =>
    obtain ⟨k', x'⟩ := kv
    obtain ⟨n, rfl⟩ : ∃ m, n = m + 1 := ⟨n - 1, by simp at hn; omega⟩
    obtain ⟨hk', hx'⟩ := hm _ List.mem_cons_self
    rw [scanMembers, scanMember_spelled hk hx hy hu (delimited_spellsMembers hv r)]
    obtain ⟨w, w', y', u', v', hw, hw', hy', hu', hv', rfl⟩ := hv
    have hsplit : acc ++ (k, x) :: (k', x') :: m = (acc ++ [(k, x)]) ++ (k', x') :: m := by simp
    rw [hsplit] at hnodup ⊢
    have hset' : (acc ++ [(k, x)]).set k' x' = (acc ++ [(k, x)]) ++ [(k', x')] := by
      apply Members.set_of_not_mem
      intro hmem
      simp only [Members.keys, List.map_append, List.map_cons] at hnodup hmem
      exact (List.nodup_append.mp hnodup).2.2 k' hmem k' List.mem_cons_self rfl
    have ih := ih hk' hx' (fun kv hkv => hm kv (List.mem_cons_of_mem _ hkv)) hnodup hy' hu' hv'
      (n := n) (by simp at hn; omega) hset'
    have hne : comma ≠ closeBrace := by decide
    simp only [List.cons_append, List.append_assoc,
      skipSpace_token hw (show isJsonSpace comma = false by decide), hne, if_false, if_true, hset,
      skipSpace_member hw' hu', ih]

/-! ## Reading back -/

theorem scanValue_eq (limit : Nat) :
    ∃ nested : Option (Str → Scan (Json F)), scanValue limit = scanValueWith nested := by
  cases limit with
  | zero => exact ⟨none, rfl⟩
  | succ limit => exact ⟨some (scanValue limit), rfl⟩

theorem length_lt_spellsElems {xs : List (Json F)} {v : Str} (h : SpellsElems xs v) :
    xs.length < v.length := by
  induction xs generalizing v with
  | nil =>
    obtain ⟨w, -, rfl⟩ := h
    simp
  | cons x xs ih =>
    obtain ⟨w, w', u, v, -, -, -, hv, rfl⟩ := h
    have := ih hv
    simp only [List.length_cons, List.length_append]
    omega

theorem length_lt_spellsMembers {m : Members F} {v : Str} (h : SpellsMembers m v) :
    m.length < v.length := by
  induction m generalizing v with
  | nil =>
    obtain ⟨w, -, rfl⟩ := h
    simp
  | cons kv m ih =>
    obtain ⟨w, w', y, u, v, -, -, -, -, hv, rfl⟩ := h
    have := ih hv
    simp only [List.length_cons, List.length_append]
    omega

theorem scanValue_spelled [LawfulPyFloat F] (j : Json F) (hj : WF j) {limit : Nat}
    (hd : depth j ≤ limit) : Reads (scanValue limit) j := by
  intro t r ht hr
  induction j using inside_induction generalizing limit t r with
  | null =>
    obtain ⟨nested, h⟩ := scanValue_eq (F := F) limit
    rw [h, ht]
    exact scanValueWith_constant (by simp [constants]) r nested
  | bool b =>
    obtain ⟨nested, h⟩ := scanValue_eq (F := F) limit
    rw [h]
    cases b with
    | true =>
      rw [ht]
      exact scanValueWith_constant (by simp [constants]) r nested
    | false =>
      rw [ht]
      exact scanValueWith_constant (by simp [constants]) r nested
  | int n =>
    obtain ⟨nested, h⟩ := scanValue_eq (F := F) limit
    rw [h, ht, scanValueWith_number (intPart_intText n)]
    exact scanNumber_int hj hr
  | float x =>
    obtain ⟨nested, h⟩ := scanValue_eq (F := F) limit
    rw [h, ht]
    exact scanValueWith_float x hr nested
  | str s =>
    obtain ⟨nested, h⟩ := scanValue_eq (F := F) limit
    rw [h]
    exact scanValueWith_string hj ht r nested
  | arr xs ih =>
    obtain ⟨limit, rfl⟩ : ∃ l, limit = l + 1 := ⟨limit - 1, by simp [depth] at hd; omega⟩
    have hwf := wfElems_iff.mp hj
    have hdepth := depthElems_le_iff.mp (Nat.le_of_succ_le_succ hd)
    have hread : ∀ x ∈ xs, Reads (scanValue limit) x := fun x hx t' r' ht' hr' =>
      ih x hx (hwf x hx) (hdepth x hx) t' r' ht' hr'
    have hq : openBracket ≠ quote ∧ openBracket ≠ openBrace := by decide
    cases xs with
    | nil =>
      obtain ⟨w, hw, rfl⟩ := ht
      simp only [scanValue, List.cons_append, List.append_assoc, List.nil_append, scanValueWith,
        hq.1, hq.2, if_false, if_true, scanArray,
        skipSpace_token hw (show isJsonSpace closeBracket = false by decide)]
    | cons x xs =>
      obtain ⟨w, u, v, hw, hu, hv, rfl⟩ := ht
      have helems := scanElems_spelled (hread x List.mem_cons_self)
        (fun y hy => hread y (List.mem_cons_of_mem x hy)) hu hv r (n := (u ++ (v ++ r)).length)
        (by
          have := length_lt_spellsElems hv
          simp only [List.length_append]
          omega)
      have hsp := skipSpace_spelled hw hu (v ++ r)
      obtain ⟨c, rest, rfl, -, hclose, -⟩ := spells_head hu
      simp only [scanValue, List.cons_append, List.append_assoc, scanValueWith, hq.1, hq.2,
        if_false, if_true, scanArray]
      simp only [List.cons_append] at helems hsp
      rw [hsp]
      simp only [hclose, if_false, helems]
  | obj m ih =>
    obtain ⟨limit, rfl⟩ : ∃ l, limit = l + 1 := ⟨limit - 1, by simp [depth] at hd; omega⟩
    obtain ⟨hnodup, hwf⟩ := hj
    have hwf := wfMembers_iff.mp hwf
    have hdepth := depthMembers_le_iff.mp (Nat.le_of_succ_le_succ hd)
    have hread : ∀ kv ∈ m, splitFree kv.1 = true ∧ Reads (scanValue limit) kv.2 := fun kv hkv =>
      ⟨(hwf kv hkv).1, fun t' r' ht' hr' => ih kv hkv (hwf kv hkv).2 (hdepth kv hkv) t' r' ht' hr'⟩
    have hq : openBrace ≠ quote := by decide
    cases m with
    | nil =>
      obtain ⟨w, hw, rfl⟩ := ht
      simp only [scanValue, List.cons_append, List.append_assoc, List.nil_append, scanValueWith, hq,
        if_false, if_true, scanObject,
        skipSpace_token hw (show isJsonSpace closeBrace = false by decide)]
    | cons kv m =>
      obtain ⟨k, x⟩ := kv
      obtain ⟨hk, hx⟩ := hread _ List.mem_cons_self
      obtain ⟨w, y, u, v, hw, hy, hu, hv, rfl⟩ := ht
      have hmembers := scanMembers_spelled hk hx
        (fun kv hkv => hread kv (List.mem_cons_of_mem _ hkv))
        (show Members.keys ([] ++ (k, x) :: m) |>.Nodup from hnodup) hy hu hv r
        (n := (u ++ (v ++ r)).length)
        (by
          have := length_lt_spellsMembers hv
          simp only [List.length_append]
          omega)
      have hsp := skipSpace_member hw hu (v ++ r)
      obtain ⟨q, w₁, w₂, ⟨s, -, rfl⟩, -, -, rfl⟩ := hu
      have hclose : quote ≠ closeBrace := by decide
      simp only [scanValue, List.cons_append, List.append_assoc, scanValueWith, hq, if_false,
        if_true, scanObject]
      simp only [List.cons_append, List.append_assoc] at hmembers hsp
      rw [hsp]
      simp only [hclose, if_false]
      rw [hmembers]
      rfl

/-- Every text of a well-formed value reads back as the value. -/
theorem loads_spelling [LawfulPyFloat F] {j : Json F} (hj : WF j) {limit : Nat}
    (hd : depth j ≤ limit) {text : Str} (h : Spelling j text) : loads limit text = .ok j := by
  obtain ⟨w, t, w', hw, ht, hw', rfl⟩ := h
  have hdelim : Delimited w' := by
    intro c rest he
    exact .inr (.inr (.inr (hw' c (he ▸ List.mem_cons_self))))
  have hscan := scanValue_spelled j hj hd t w' ht hdelim
  have hsp := skipSpace_spelled hw ht w'
  have hend : skipSpace w' = [] := by
    have := skipSpace_blank hw' []
    rwa [List.append_nil] at this
  have hhead : (w ++ (t ++ w')).head? ≠ some 0xfeff := by
    cases w with
    | nil =>
      obtain ⟨c, rest, rfl, -, -, hbom⟩ := spells_head ht
      intro he
      exact hbom (Option.some.inj he)
    | cons c w =>
      intro he
      have hc := hw c List.mem_cons_self
      rw [Option.some.inj he] at hc
      exact absurd hc (by decide)
  simp only [loads, hhead, if_false, hsp, hscan, hend, if_true]

end Support.Json
