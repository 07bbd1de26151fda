import IsaCloud.Support.JsonSpelling

/-!
# Integers beyond the digit limit

`json.loads` refuses an integer of more digits than `intMaxStrDigits`, and with it
the object that holds it.
-/

namespace Support.Json

set_option autoImplicit false

open Text Python

variable {F : Type} [PyFloat F]

/-- The scanner reads no text of the value. -/
def Fails (value : Str → Scan (Json F)) (j : Json F) : Prop :=
  ∀ t r, Spells j t → Delimited r → ∃ e, value (t ++ r) = .error e

theorem fails_int {n : Int} (hn : intMaxStrDigits < (natText n.natAbs).length) (limit : Nat) :
    Fails (scanValue (F := F) limit) (.int n) := by
  rintro t r rfl hr
  obtain ⟨nested, h⟩ := scanValue_eq (F := F) limit
  refine ⟨tooManyDigits, ?_⟩
  have hdigits : intMaxStrDigits < ((intText n).filter isDigit).length := by
    rw [digits_intText]
    exact hn
  rw [h, scanValueWith_number (intPart_intText n), scanNumber,
    scanInt_append (intPart_intText n) (not_digit_delimited hr)]
  simp only [scanFraction_delimited hr, scanExponent_delimited hr, and_self, if_true, hdigits]

theorem scanMember_fails [LawfulPyFloat F] {value : Str → Scan (Json F)} {k : Str} {x : Json F}
    (hk : splitFree k = true) (hx : Fails value x) {y u : Str} (hy : Spells x y) (hu : MemberSpelling k y u) {r : Str}
    (hr : Delimited r) : ∃ e, scanMember value (u ++ r) = .error e := by
  obtain ⟨q, w, w', ⟨s, hs, rfl⟩, hw, hw', rfl⟩ := hu
  obtain ⟨e, he⟩ := hx y r hy hr
  refine ⟨e, ?_⟩
  simp only [scanMember, List.cons_append, List.append_assoc, List.nil_append, scanKey, if_true,
    scanString_spelled hk hs, scanColon, skipSpace_token hw (show isJsonSpace colon = false by decide),
    skipSpace_spelled hw' hy, he]

/-- One member that cannot be read spoils the object. -/
theorem scanMembers_fails [LawfulPyFloat F] {value : Str → Scan (Json F)} {k : Str} {x : Json F} {m acc : Members F}
    (hm : ∀ kv ∈ (k, x) :: m, splitFree kv.1 = true ∧ (Reads value kv.2 ∨ Fails value kv.2))
    (hbad : ∃ kv ∈ (k, x) :: m, Fails value kv.2) {y u v : Str} (hy : Spells x y) (hu : MemberSpelling k y u)
    (hv : SpellsMembers m v) (r : Str) (n : Nat) : ∃ e, scanMembers value n (u ++ (v ++ r)) acc = .error e := by
  induction m generalizing k x acc y u v n with
  | nil =>
    obtain ⟨kv, hkv, hfail⟩ := hbad
    obtain rfl := List.mem_singleton.mp hkv
    cases n with
    | zero => exact ⟨_, rfl⟩
    | succ n =>
      obtain ⟨e, he⟩ := scanMember_fails (hm _ List.mem_cons_self).1 hfail hy hu (delimited_spellsMembers hv r)
      exact ⟨e, by rw [scanMembers, he]⟩
  | cons kv m ih =>
    obtain ⟨k', x'⟩ := kv
    obtain ⟨hk, hx⟩ := hm _ List.mem_cons_self
    cases n with
    | zero => exact ⟨_, rfl⟩
    | succ n =>
      rcases hx with hx | hx
      · rw [scanMembers, scanMember_spelled hk hx hy hu (delimited_spellsMembers hv r)]
        obtain ⟨w, w', y', u', v', hw, hw', hy', hu', hv', rfl⟩ := hv
        have hne : comma ≠ closeBrace := by decide
        by_cases hlast : ∃ kv ∈ (k', x') :: m, Fails value kv.2
        · obtain ⟨e, he⟩ := @ih k' x' (acc.set k x) (fun kv hkv => hm kv (List.mem_cons_of_mem _ hkv)) hlast y' u' v' hy' hu'
            hv' n
          refine ⟨e, ?_⟩
          simp only [List.cons_append, List.append_assoc, skipSpace_token hw (show isJsonSpace comma = false by decide),
            hne, if_false, if_true, skipSpace_member hw' hu', he]
        · -- then the first member is the one, and has just been read
          obtain ⟨bad, hmem, hfail⟩ := hbad
          rcases List.mem_cons.mp hmem with rfl | hmem
          · obtain ⟨e, he⟩ := hfail y [] hy delimited_nil
            rw [hx y [] hy delimited_nil] at he
            cases he
          · exact absurd ⟨bad, hmem, hfail⟩ hlast
      · obtain ⟨e, he⟩ := scanMember_fails hk hx hy hu (delimited_spellsMembers hv r)
        exact ⟨e, by rw [scanMembers, he]⟩

/-- An object of readable members and integers, one of which is too long, has no text that is read. -/
theorem loads_fails [LawfulPyFloat F] {m : Members F} {limit : Nat}
    (hm : ∀ kv ∈ m, splitFree kv.1 = true ∧
      (WF kv.2 ∧ depth kv.2 < limit ∨ ∃ n, kv.2 = .int n ∧ intMaxStrDigits < (natText n.natAbs).length))
    (hbad : ∃ kv ∈ m, ∃ n, kv.2 = .int n ∧ intMaxStrDigits < (natText n.natAbs).length) {t : Str}
    (ht : Spells (.obj m) t) : ∃ e, loads (F := F) limit t = .error e := by
  have hscan : ∃ e, scanValue (F := F) limit t = .error e := by
    cases m with
    | nil =>
      obtain ⟨kv, hkv, -⟩ := hbad
      cases hkv
    | cons kv m =>
      obtain ⟨k, x⟩ := kv
      obtain ⟨w, y, u, v, hw, hy, hu, hv, rfl⟩ := ht
      have hq : openBrace ≠ quote := by decide
      cases limit with
      | zero =>
        refine ⟨recursionError, ?_⟩
        simp only [scanValue, scanValueWith, hq, if_false, if_true]
      | succ limit =>
        have hreads : ∀ kv ∈ (k, x) :: m, splitFree kv.1 = true ∧
            (Reads (scanValue limit) kv.2 ∨ Fails (scanValue limit) kv.2) := by
          intro kv hkv
          obtain ⟨hk, ⟨hwf, hd⟩ | ⟨n, hn, hlong⟩⟩ := hm kv hkv
          · exact ⟨hk, Or.inl (scanValue_spelled kv.2 hwf (Nat.le_of_lt_succ hd))⟩
          · exact ⟨hk, Or.inr (hn ▸ fails_int hlong limit)⟩
        have hfails : ∃ kv ∈ (k, x) :: m, Fails (scanValue (F := F) limit) kv.2 := by
          obtain ⟨kv, hkv, n, hn, hlong⟩ := hbad
          exact ⟨kv, hkv, hn ▸ fails_int hlong limit⟩
        obtain ⟨e, he⟩ := @scanMembers_fails F _ _ (scanValue limit) k x m [] hreads hfails y u v hy hu hv []
          (u ++ (v ++ [])).length
        have hsp := skipSpace_member hw hu (v ++ [])
        obtain ⟨q, w₁, w₂, ⟨s, -, rfl⟩, -, -, rfl⟩ := hu
        have hclose : quote ≠ closeBrace := by decide
        refine ⟨e, ?_⟩
        simp only [scanValue, List.cons_append, List.append_assoc, scanValueWith, hq, if_false, if_true, scanObject]
        simp only [List.cons_append, List.append_assoc, List.append_nil] at he hsp
        rw [hsp]
        simp only [hclose, if_false]
        rw [he]
  obtain ⟨e, he⟩ := hscan
  obtain ⟨c, rest, hc, hspace, -, -⟩ := spells_head ht
  have hskip : skipSpace t = t := by
    rw [hc]
    exact skipSpace_cons hspace
  unfold loads
  split
  · exact ⟨_, rfl⟩
  · rw [hskip, he]
    exact ⟨e, rfl⟩

end Support.Json

/-! ## Floats with whole values

A float type that can be computed with: the integers, written with all their
digits, and the special values. Up to `10 ^ 16` these are the texts of Python.
-/

namespace Support

set_option autoImplicit false

open Text Python

inductive WholeFloat where
  | whole (n : Int)
  | nan
  | inf
  | negInf
  deriving DecidableEq, Repr

namespace WholeFloat

def wholeText (n : Int) : Str := intText n ++ lit ".0"

def parse (s : Str) : WholeFloat := whole (Json.intValue (s.takeWhile (· != cp '.')))

instance : PyFloat WholeFloat where
  parse := parse
  dump
    | whole n => wholeText n
    | nan => lit "NaN"
    | inf => lit "Infinity"
    | negInf => lit "-Infinity"
  repr
    | whole n => wholeText n
    | nan => lit "nan"
    | inf => lit "inf"
    | negInf => lit "-inf"
  trunc
    | whole n => .ok n
    | nan => .error ⟨.valueError, lit "cannot convert float NaN to integer"⟩
    | _ => .error ⟨.overflowError, lit "cannot convert float infinity to integer"⟩
  isZero x := decide (x = whole 0)
  nan := nan
  inf := inf
  negInf := negInf

theorem intText_no_point (n : Int) : ∀ c ∈ intText n, (c != cp '.') = true := by
  have hnat : ∀ m : Nat, ∀ c ∈ natText m, (c != cp '.') = true := by
    intro m c hc
    have hdigit := isDigit_of_mem_natText hc
    by_contra hne
    have hpoint : c = cp '.' := by simpa using hne
    rw [hpoint] at hdigit
    exact absurd hdigit (by decide)
  intro c hc
  cases n with
  | ofNat m => exact hnat m c hc
  | negSucc m =>
    rcases List.mem_cons.mp hc with rfl | hc
    · decide
    · exact hnat _ c hc

theorem parse_wholeText (n : Int) : parse (wholeText n) = whole n := by
  rw [parse, wholeText, List.takeWhile_append_of_pos (intText_no_point n)]
  have hrest : (lit ".0").takeWhile (· != cp '.') = [] := by decide
  rw [hrest, List.append_nil, Json.intValue_intText]

instance : Json.LawfulPyFloat WholeFloat where
  dump_spec x := by
    cases x with
    | nan => exact .inl ⟨rfl, rfl⟩
    | inf => exact .inr (.inl ⟨rfl, rfl⟩)
    | negInf => exact .inr (.inr (.inl ⟨rfl, rfl⟩))
    | whole n =>
      refine .inr (.inr (.inr ⟨intText n, lit ".0", [], Json.intPart_intText n, ?_, .none, ?_, ?_, ?_⟩))
      · have hzero : Json.FractionPart (cp '.' :: digit 0 :: []) := .digits (by decide) (by simp)
        exact hzero
      · exact .inl (by decide)
      · exact (List.append_nil _).symm
      · exact parse_wholeText n

end WholeFloat

end Support
