import IsaCloud.Support.Encoding
import IsaCloud.Support.JsonDigits
import IsaCloud.Support.JsonRoundTrip
import IsaCloud.Support.Pydantic

/-!
# JSON text as pydantic writes it

`model_dump_json` writes compact JSON: only quotes, backslashes and control
characters are escaped, any other code point stands for itself, and a float has
its shortest text. `json.loads` reads back what was written.
-/

namespace Support.Json

set_option autoImplicit false

open Text Python Pydantic Encoding

/-- What the writer makes of a float: a text if it is finite. -/
class SerdeFloat (F : Type) where
  text : F → Str
  isFinite : F → Bool

/-- The text of a finite float is a number with a fraction or an exponent that reads back as it. -/
class LawfulSerdeFloat (F : Type) [PyFloat F] [SerdeFloat F] : Prop where
  text_spec : ∀ x : F, SerdeFloat.isFinite x = true →
    ∃ i f e, IntPart i ∧ FractionPart f ∧ ExponentPart e ∧ (f ≠ [] ∨ e ≠ []) ∧
      SerdeFloat.text x = i ++ f ++ e ∧ PyFloat.parse (SerdeFloat.text x) = x

def serdePoint (c : CodePoint) : Str :=
  match shortEscapes.lookup c with
  | some letter => [backslash, letter]
  | none => if c.val < 0x20 then escapeUnit c.val else [c]

def serdeQuoted (s : Str) : Str := quote :: (s.flatMap serdePoint ++ [quote])

section Writing
variable {F : Type} [SerdeFloat F]

mutual
def serdeText : Json F → Str
  | .null => lit "null"
  | .bool true => lit "true"
  | .bool false => lit "false"
  | .int n => intText n
  | .float x => SerdeFloat.text x
  | .str s => serdeQuoted s
  | .arr [] => [openBracket, closeBracket]
  | .arr (x :: xs) => openBracket :: (serdeText x ++ serdeElems xs)
  | .obj [] => [openBrace, closeBrace]
  | .obj ((k, v) :: m) => openBrace :: (serdeQuoted k ++ colon :: (serdeText v ++ serdeMembers m))

/-- The elements after the first, up to the closing bracket. -/
def serdeElems : List (Json F) → Str
  | [] => [closeBracket]
  | x :: xs => comma :: (serdeText x ++ serdeElems xs)

def serdeMembers : List (Str × Json F) → Str
  | [] => [closeBrace]
  | (k, v) :: m => comma :: (serdeQuoted k ++ colon :: (serdeText v ++ serdeMembers m))
end

mutual
/-- All floats of the value are finite. -/
def Finite : Json F → Prop
  | .float x => SerdeFloat.isFinite x = true
  | .arr xs => FiniteElems xs
  | .obj m => FiniteMembers m
  | _ => True

def FiniteElems : List (Json F) → Prop
  | [] => True
  | x :: xs => Finite x ∧ FiniteElems xs

def FiniteMembers : List (Str × Json F) → Prop
  | [] => True
  | (_, v) :: m => Finite v ∧ FiniteMembers m
end

theorem finiteElems_iff {xs : List (Json F)} : FiniteElems xs ↔ ∀ x ∈ xs, Finite x := by
  induction xs with
  | nil => simp [FiniteElems]
  | cons x xs ih => simp [FiniteElems, ih]

theorem finiteMembers_iff {m : Members F} : FiniteMembers m ↔ ∀ kv ∈ m, Finite kv.2 := by
  induction m with
  | nil => simp [FiniteMembers]
  | cons kv m ih => simp [FiniteMembers, ih]

end Writing

section Texts
variable {F : Type}

mutual
/-- All strings of the value can be encoded. -/
def Texts : Json F → Prop
  | .str s => isText s = true
  | .arr xs => TextsElems xs
  | .obj m => TextsMembers m
  | _ => True

def TextsElems : List (Json F) → Prop
  | [] => True
  | x :: xs => Texts x ∧ TextsElems xs

def TextsMembers : List (Str × Json F) → Prop
  | [] => True
  | (k, v) :: m => isText k = true ∧ Texts v ∧ TextsMembers m
end

theorem textsElems_iff {xs : List (Json F)} : TextsElems xs ↔ ∀ x ∈ xs, Texts x := by
  induction xs with
  | nil => simp [TextsElems]
  | cons x xs ih => simp [TextsElems, ih]

theorem textsMembers_iff {m : Members F} : TextsMembers m ↔ ∀ kv ∈ m, isText kv.1 = true ∧ Texts kv.2 := by
  induction m with
  | nil => simp [TextsMembers]
  | cons kv m ih => simp [TextsMembers, ih, and_assoc]

theorem wf_of_texts (j : Json F) (hd : Dicts j) (ht : Texts j) : WF j := by
  induction j using inside_induction with
  | null | bool | float => trivial
  | int n => exact hd
  | str s => exact splitFree_of_plain (plain_of_isText ht)
  | arr xs ih =>
    exact wfElems_iff.mpr fun x hx => ih x hx (dictsElems_iff.mp hd x hx) (textsElems_iff.mp ht x hx)
  | obj m ih =>
    refine ⟨hd.1, wfMembers_iff.mpr fun kv hkv => ?_⟩
    obtain ⟨hk, hv⟩ := textsMembers_iff.mp ht kv hkv
    exact ⟨splitFree_of_plain (plain_of_isText hk), ih kv hkv (dictsMembers_iff.mp hd.2 kv hkv) hv⟩

end Texts

section Native
variable {F : Type} [SerdeFloat F]

/-- A value of JSON: its integers can be read, its keys are distinct, its floats finite. -/
def Native (j : Json F) : Prop := Dicts j ∧ Finite j

theorem native_obj {m : Members F} (hm : m.keys.Nodup) (h : ∀ kv ∈ m, Native kv.2) : Native (.obj m) :=
  ⟨⟨hm, dictsMembers_iff.mpr fun kv hkv => (h kv hkv).1⟩, finiteMembers_iff.mpr fun kv hkv => (h kv hkv).2⟩

theorem native_arr {xs : List (Json F)} (h : ∀ x ∈ xs, Native x) : Native (.arr xs) :=
  ⟨dictsElems_iff.mpr fun x hx => (h x hx).1, finiteElems_iff.mpr fun x hx => (h x hx).2⟩

end Native

/-! ## The text is a spelling -/

theorem pointSpelling_serdePoint (c : CodePoint) : PointSpelling c (serdePoint c) := by
  unfold serdePoint
  cases hl : shortEscapes.lookup c with
  | some letter =>
    obtain ⟨l₁, l₂, h, -⟩ := List.lookup_eq_some_iff.mp hl
    apply PointSpelling.short
    apply shortEscapes_unescape (p := (c, letter))
    rw [h]
    exact List.mem_append_right _ List.mem_cons_self
  | none =>
    have hq : c ≠ quote := by
      rintro rfl
      exact absurd hl (by decide)
    have hb : c ≠ backslash := by
      rintro rfl
      exact absurd hl (by decide)
    dsimp only
    split
    · exact .unit (unitSpelling_escapeUnit (by omega))
    · exact .raw hq hb (by omega)

theorem quotedSpelling_serdeQuoted (s : Str) : QuotedSpelling s (serdeQuoted s) := by
  refine ⟨_, ?_, rfl⟩
  induction s with
  | nil => exact .nil
  | cons c s ih => exact .cons (pointSpelling_serdePoint c) ih

theorem memberSpelling_serde (k t : Str) : MemberSpelling k t (serdeQuoted k ++ colon :: t) :=
  ⟨serdeQuoted k, [], [], quotedSpelling_serdeQuoted k, blank_nil, blank_nil, rfl⟩

section Reading
variable {F : Type} [PyFloat F] [SerdeFloat F]

/-- The floats, with the texts of the writer. -/
@[reducible] def serdeFloats : PyFloat F :=
  { (inferInstance : PyFloat F) with
    dump := fun x => if SerdeFloat.isFinite x then SerdeFloat.text x else PyFloat.dump x }

theorem serdeFloats_lawful [LawfulPyFloat F] [LawfulSerdeFloat F] : @LawfulPyFloat F serdeFloats := by
  refine @LawfulPyFloat.mk F serdeFloats fun x => ?_
  by_cases hx : SerdeFloat.isFinite x = true
  · obtain ⟨i, f, e, hi, hf, he, hne, htext, hparse⟩ := LawfulSerdeFloat.text_spec x hx
    have hdump : @PyFloat.dump F serdeFloats x = SerdeFloat.text x := if_pos hx
    refine Or.inr (Or.inr (Or.inr ⟨i, f, e, hi, hf, he, hne, hdump.trans htext, ?_⟩))
    rw [hdump]
    exact hparse
  · have hdump : @PyFloat.dump F serdeFloats x = PyFloat.dump x := if_neg hx
    rw [hdump]
    exact LawfulPyFloat.dump_spec x

/-- Reading does not depend on how floats are written. -/
theorem scanValue_serdeFloats (limit : Nat) : @scanValue F serdeFloats limit = scanValue limit := by
  have hwith : ∀ nested : Option (Str → Scan (Json F)),
      @scanValueWith F serdeFloats nested = scanValueWith nested := fun _ => rfl
  induction limit with
  | zero => exact hwith none
  | succ limit ih =>
    calc @scanValue F serdeFloats (limit + 1) = @scanValueWith F serdeFloats (some (@scanValue F serdeFloats limit)) := rfl
      _ = scanValueWith (some (scanValue limit)) := by rw [ih, hwith]
      _ = scanValue (limit + 1) := rfl

theorem loads_serdeFloats (limit : Nat) (s : Str) : @loads F serdeFloats limit s = loads limit s := by
  unfold loads
  rw [scanValue_serdeFloats]

theorem spells_serdeText (j : Json F) (hj : Finite j) : @Spells F serdeFloats j (serdeText j) := by
  induction j using inside_induction with
  | null => rfl
  | bool b =>
    cases b with
    | true => rfl
    | false => rfl
  | int n => rfl
  | float x => exact (if_pos hj).symm
  | str s => exact quotedSpelling_serdeQuoted s
  | arr xs ih =>
    have hfinite := finiteElems_iff.mp hj
    have helems : ∀ ys : List (Json F), (∀ y ∈ ys, y ∈ xs) → @SpellsElems F serdeFloats ys (serdeElems ys) := by
      intro ys
      induction ys with
      | nil =>
        intro _
        exact ⟨[], blank_nil, rfl⟩
      | cons y ys ihs =>
        intro hsub
        have hy := hsub y List.mem_cons_self
        exact ⟨[], [], _, _, blank_nil, blank_nil, ih y hy (hfinite y hy),
          ihs fun z hz => hsub z (List.mem_cons_of_mem y hz), rfl⟩
    cases xs with
    | nil => exact ⟨[], blank_nil, rfl⟩
    | cons x xs =>
      exact ⟨[], _, _, blank_nil, ih x List.mem_cons_self (hfinite x List.mem_cons_self),
        helems xs fun y hy => List.mem_cons_of_mem x hy, rfl⟩
  | obj m ih =>
    have hfinite := finiteMembers_iff.mp hj
    have hmembers : ∀ n : Members F, (∀ kv ∈ n, kv ∈ m) → @SpellsMembers F serdeFloats n (serdeMembers n) := by
      intro n
      induction n with
      | nil =>
        intro _
        exact ⟨[], blank_nil, rfl⟩
      | cons kv n ihs =>
        intro hsub
        have hkv := hsub kv List.mem_cons_self
        refine ⟨[], [], _, _, _, blank_nil, blank_nil, ih kv hkv (hfinite kv hkv), memberSpelling_serde kv.1 _,
          ihs fun x hx => hsub x (List.mem_cons_of_mem kv hx), ?_⟩
        simp only [serdeMembers, List.nil_append, List.append_assoc, List.cons_append]
    cases m with
    | nil => exact ⟨[], blank_nil, rfl⟩
    | cons kv m =>
      refine ⟨[], _, _, _, blank_nil, ih kv List.mem_cons_self (hfinite kv List.mem_cons_self),
        memberSpelling_serde kv.1 _, hmembers m fun x hx => List.mem_cons_of_mem kv hx, ?_⟩
      simp only [serdeText, List.nil_append, List.append_assoc, List.cons_append]

/-- `json.loads` reads the value back from the text that was written. -/
theorem loads_serdeText [LawfulPyFloat F] [LawfulSerdeFloat F] {j : Json F} (hj : WF j) (hf : Finite j) {limit : Nat}
    (hd : depth j ≤ limit) : loads limit (serdeText j) = .ok j := by
  have hlawful : @LawfulPyFloat F serdeFloats := serdeFloats_lawful
  have hspell : @Spelling F serdeFloats j (serdeText j) :=
    ⟨[], serdeText j, [], blank_nil, spells_serdeText j hf, blank_nil, (List.append_nil _).symm⟩
  rw [← loads_serdeFloats]
  exact @loads_spelling F serdeFloats hlawful j hj limit hd (serdeText j) hspell

end Reading

/-! ## Encoded text -/

/-- No surrogates, as in every text that has been encoded. -/
def Scalar (s : Str) : Prop := ∀ c ∈ s, isSurrogate c.val = false

theorem scalar_of_encode {s : Str} {bs : Bytes} (h : utf8Encode s = .ok bs) : Scalar s := by
  unfold utf8Encode at h
  split at h
  · cases h
  · rename_i hany
    intro c hc
    by_contra hne
    exact hany (List.any_eq_true.mpr ⟨c, hc, by simpa using hne⟩)

theorem Scalar.subset {s t : Str} (h : Scalar t) (hs : s ⊆ t) : Scalar s := fun c hc => h c (hs hc)

theorem isText_of_scalar {s : Str} (h : Scalar s) : isText s = true := by
  refine List.all_eq_true.mpr fun c hc => ?_
  obtain ⟨hhigh, hlow⟩ := plain_of_scalar h c hc
  rw [hhigh, hlow]
  rfl

/-- A surrogate is written as it is. -/
theorem serdePoint_surrogate {c : CodePoint} (h : isSurrogate c.val = true) : serdePoint c = [c] := by
  have hrange : 0xd800 ≤ c.val ∧ c.val ≤ 0xdfff := of_decide_eq_true h
  unfold serdePoint
  cases hl : shortEscapes.lookup c with
  | some letter =>
    obtain ⟨l₁, l₂, hsplit, -⟩ := List.lookup_eq_some_iff.mp hl
    have hmem : (c, letter) ∈ shortEscapes := by
      rw [hsplit]
      exact List.mem_append_right _ List.mem_cons_self
    have hall : shortEscapes.all (fun p => decide (p.1.val < 0x80)) = true := by decide
    have hsmall : c.val < 0x80 := of_decide_eq_true (List.all_eq_true.mp hall _ hmem)
    omega
  | none => exact if_neg (by omega)

theorem isText_of_serdeQuoted {s : Str} (h : Scalar (serdeQuoted s)) : isText s = true := by
  apply isText_of_scalar
  intro c hc
  by_contra hne
  have hsur : isSurrogate c.val = true := by simpa using hne
  have hmem : c ∈ serdeQuoted s := by
    apply List.mem_cons_of_mem
    apply List.mem_append_left
    exact List.mem_flatMap.mpr ⟨c, hc, by rw [serdePoint_surrogate hsur]; exact List.mem_singleton.mpr rfl⟩
  exact Bool.false_ne_true ((h c hmem).symm.trans hsur)

section Subtexts
variable {F : Type} [SerdeFloat F]

theorem subset_serdeElems {x y : Json F} {ys : List (Json F)} (h : x ∈ y :: ys) :
    serdeText x ⊆ serdeText y ++ serdeElems ys := by
  induction ys generalizing y with
  | nil =>
    obtain rfl := List.mem_singleton.mp h
    exact List.subset_append_left _ _
  | cons z ys ih =>
    rcases List.mem_cons.mp h with rfl | h
    · exact List.subset_append_left _ _
    · apply List.subset_append_of_subset_right
      exact List.subset_cons_of_subset _ (ih h)

theorem subset_serdeMembers {kv x : Str × Json F} {m : Members F} (h : kv ∈ x :: m) :
    serdeQuoted kv.1 ⊆ serdeQuoted x.1 ++ colon :: (serdeText x.2 ++ serdeMembers m) ∧
      serdeText kv.2 ⊆ serdeQuoted x.1 ++ colon :: (serdeText x.2 ++ serdeMembers m) := by
  induction m generalizing x with
  | nil =>
    obtain rfl := List.mem_singleton.mp h
    constructor
    · exact List.subset_append_left _ _
    · apply List.subset_append_of_subset_right
      exact List.subset_cons_of_subset _ (List.subset_append_left _ _)
  | cons z m ih =>
    rcases List.mem_cons.mp h with rfl | h
    · constructor
      · exact List.subset_append_left _ _
      · apply List.subset_append_of_subset_right
        exact List.subset_cons_of_subset _ (List.subset_append_left _ _)
    · have hrest : serdeQuoted z.1 ++ colon :: (serdeText z.2 ++ serdeMembers m) ⊆
          serdeQuoted x.1 ++ colon :: (serdeText x.2 ++ serdeMembers (z :: m)) := by
        apply List.subset_append_of_subset_right
        apply List.subset_cons_of_subset
        apply List.subset_append_of_subset_right
        exact List.subset_cons_of_subset _ (List.Subset.refl _)
      exact ⟨List.Subset.trans (ih h).1 hrest, List.Subset.trans (ih h).2 hrest⟩

/-- The strings of a value whose text could be encoded. -/
theorem texts_of_scalar (j : Json F) (h : Scalar (serdeText j)) : Texts j := by
  induction j using inside_induction with
  | null | bool | float | int => trivial
  | str s => exact isText_of_serdeQuoted h
  | arr xs ih =>
    refine textsElems_iff.mpr fun x hx => ih x hx (h.subset ?_)
    cases xs with
    | nil => cases hx
    | cons y ys => exact List.subset_cons_of_subset _ (subset_serdeElems hx)
  | obj m ih =>
    refine textsMembers_iff.mpr fun kv hkv => ?_
    cases m with
    | nil => cases hkv
    | cons x m =>
      obtain ⟨hkey, hvalue⟩ := subset_serdeMembers hkv
      exact ⟨isText_of_serdeQuoted (h.subset (List.subset_cons_of_subset _ hkey)),
        ih kv hkv (h.subset (List.subset_cons_of_subset _ hvalue))⟩

end Subtexts

end Support.Json
