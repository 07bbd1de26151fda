import IsaCloud.Support.JsonJoin
import IsaCloud.Support.JsonOrder

/-!
# What the canonical text determines

A character outside the basic plane and its two surrogates are escaped alike. Apart from
that and from the order of members, two values with one canonical text are one value, and
no text of a value is the beginning of another's.
-/

namespace Support.Json

set_option autoImplicit false

open Text Python

section Rejoined
variable {F : Type}

mutual
/-- The value with every split pair joined, in strings and in keys. -/
def rejoined : Json F → Json F
  | .str s => .str (joinPairs s)
  | .arr xs => .arr (rejoinedElems xs)
  | .obj m => .obj (rejoinedMembers m)
  | j => j

def rejoinedElems : List (Json F) → List (Json F)
  | [] => []
  | x :: xs => rejoined x :: rejoinedElems xs

def rejoinedMembers : List (Str × Json F) → List (Str × Json F)
  | [] => []
  | (k, v) :: m => (joinPairs k, rejoined v) :: rejoinedMembers m

/-- No string and no key has a split pair. -/
def Unsplit : Json F → Prop
  | .str s => splitFree s = true
  | .arr xs => UnsplitElems xs
  | .obj m => UnsplitMembers m
  | _ => True

def UnsplitElems : List (Json F) → Prop
  | [] => True
  | x :: xs => Unsplit x ∧ UnsplitElems xs

def UnsplitMembers : List (Str × Json F) → Prop
  | [] => True
  | (k, v) :: m => splitFree k = true ∧ Unsplit v ∧ UnsplitMembers m
end

theorem rejoinedElems_eq_map (xs : List (Json F)) : rejoinedElems xs = xs.map rejoined := by
  induction xs with
  | nil => rfl
  | cons x xs ih => simp [rejoinedElems, ih]

theorem rejoinedMembers_eq_map (m : Members F) :
    rejoinedMembers m = m.map fun kv => (joinPairs kv.1, rejoined kv.2) := by
  induction m with
  | nil => rfl
  | cons kv m ih => simp [rejoinedMembers, ih]

theorem unsplitElems_iff {xs : List (Json F)} : UnsplitElems xs ↔ ∀ x ∈ xs, Unsplit x := by
  induction xs with
  | nil => simp [UnsplitElems]
  | cons x xs ih => simp [UnsplitElems, ih]

theorem unsplitMembers_iff {m : Members F} :
    UnsplitMembers m ↔ ∀ kv ∈ m, splitFree kv.1 = true ∧ Unsplit kv.2 := by
  induction m with
  | nil => simp [UnsplitMembers]
  | cons kv m ih => simp [UnsplitMembers, ih, and_assoc]

theorem rejoined_of_unsplit (j : Json F) (h : Unsplit j) : rejoined j = j := by
  induction j using inside_induction with
  | null | bool | int | float => rfl
  | str s => rw [rejoined, joinPairs_of_splitFree h]
  | arr xs ih =>
    rw [rejoined, rejoinedElems_eq_map]
    exact congrArg Json.arr ((List.map_congr_left fun x hx => ih x hx (unsplitElems_iff.mp h x hx)).trans
      (List.map_id xs))
  | obj m ih =>
    rw [rejoined, rejoinedMembers_eq_map]
    refine congrArg Json.obj ((List.map_congr_left fun kv hkv => ?_).trans (List.map_id m))
    obtain ⟨hk, hv⟩ := unsplitMembers_iff.mp h kv hkv
    rw [joinPairs_of_splitFree hk, ih kv hkv hv]
    rfl

theorem unsplit_sorted (j : Json F) (h : Unsplit j) : Unsplit j.sorted := by
  induction j using inside_induction with
  | null | bool | int | float => trivial
  | str s => exact h
  | arr xs ih =>
    rw [sorted, sortedElems_eq_map]
    apply unsplitElems_iff.mpr
    intro y hy
    obtain ⟨x, hx, rfl⟩ := List.mem_map.mp hy
    exact ih x hx (unsplitElems_iff.mp h x hx)
  | obj m ih =>
    rw [sorted, sortedMembers_eq_map]
    apply unsplitMembers_iff.mpr
    intro kv hkv
    obtain ⟨kv', hkv', rfl⟩ := List.mem_map.mp ((List.mem_insertionSort keyLe).mp hkv)
    obtain ⟨hk, hv⟩ := unsplitMembers_iff.mp h kv' hkv'
    exact ⟨hk, ih kv' hkv' hv⟩

theorem intsFit_sorted (j : Json F) (h : intsFit j = true) : intsFit j.sorted = true := by
  induction j using inside_induction with
  | null | bool | float | str => rfl
  | int n => exact h
  | arr xs ih =>
    rw [sorted, sortedElems_eq_map]
    apply intsFitElems_iff.mpr
    intro y hy
    obtain ⟨x, hx, rfl⟩ := List.mem_map.mp hy
    exact ih x hx (intsFitElems_iff.mp h x hx)
  | obj m ih =>
    rw [sorted, sortedMembers_eq_map]
    apply intsFitMembers_iff.mpr
    intro kv hkv
    obtain ⟨kv', hkv', rfl⟩ := List.mem_map.mp ((List.mem_insertionSort keyLe).mp hkv)
    exact ih kv' hkv' (intsFitMembers_iff.mp h kv' hkv')

end Rejoined

/-! ## The first value of a text -/

section Determined
variable {F : Type} [PyFloat F]

theorem quoted_append_injective {s t r r' : Str} (h : quoted s ++ r = quoted t ++ r') :
    joinPairs s = joinPairs t ∧ r = r' := by
  have hscan : ∀ s r : Str, scanValueWith (F := Unit) none (quoted s ++ r) = .ok (.str (joinPairs s), r) := by
    intro s r
    rw [← quoted_joinPairs s]
    exact scanValueWith_string (splitFree_joinPairs s) (quotedSpelling_quoted _) r none
  have heq := (hscan s r).symm.trans ((congrArg (scanValueWith none) h).trans (hscan t r'))
  simp only [Except.ok.injEq, Prod.mk.injEq, Json.str.injEq] at heq
  exact heq

def isContainer : Json F → Bool
  | .arr _ => true
  | .obj _ => true
  | _ => false

/-- A scanner that goes no deeper reads every other value. -/
theorem scan_scalar [LawfulPyFloat F] {j : Json F} (hs : isContainer j = false) (hfit : intsFit j = true) {r : Str}
    (hr : Delimited r) : scanValueWith none (compact j ++ r) = .ok (rejoined j, r) := by
  cases j with
  | null => exact scanValueWith_constant (w := lit "null") (v := .null) (by simp [constants]) r none
  | bool b =>
    cases b with
    | true => exact scanValueWith_constant (w := lit "true") (v := .bool true) (by simp [constants]) r none
    | false => exact scanValueWith_constant (w := lit "false") (v := .bool false) (by simp [constants]) r none
  | int n =>
    rw [compact, scanValueWith_number (intPart_intText n), scanNumber_int (of_decide_eq_true hfit) hr]
    rfl
  | float x => exact scanValueWith_float x hr none
  | str s =>
    rw [compact, ← quoted_joinPairs s]
    exact scanValueWith_string (splitFree_joinPairs s) (quotedSpelling_quoted _) r none
  | arr xs => cases hs
  | obj m => cases hs

theorem scan_container {j : Json F} (hs : isContainer j = true) (r : Str) :
    scanValueWith (F := F) none (compact j ++ r) = .error recursionError := by
  cases j with
  | arr xs => cases xs <;> rfl
  | obj m => cases m <;> rfl
  | _ => cases hs

theorem delimited_compactElems (xs : List (Json F)) (r : Str) : Delimited (compactElems xs ++ r) := by
  cases xs with
  | nil => exact delimited_cons _ (.inr (.inl rfl))
  | cons x xs => exact delimited_cons _ (.inl rfl)

theorem delimited_compactMembers (m : Members F) (r : Str) : Delimited (compactMembers m ++ r) := by
  cases m with
  | nil => exact delimited_cons _ (.inr (.inr (.inl rfl)))
  | cons kv m => exact delimited_cons _ (.inl rfl)

/-- What a text that begins with `j` says of any value it begins with. -/
def Determined (j : Json F) : Prop :=
  ∀ (j' : Json F) (r r' : Str), intsFit j = true → intsFit j' = true → Delimited r → Delimited r' →
    compact j ++ r = compact j' ++ r' → rejoined j = rejoined j' ∧ r = r'

theorem elems_determined {xs : List (Json F)} (h : ∀ x ∈ xs, Determined x) {ys : List (Json F)} {r r' : Str}
    (hx : ∀ x ∈ xs, intsFit x = true) (hy : ∀ y ∈ ys, intsFit y = true)
    (heq : compactElems xs ++ r = compactElems ys ++ r') : rejoinedElems xs = rejoinedElems ys ∧ r = r' := by
  induction xs generalizing ys with
  | nil =>
    cases ys with
    | nil => exact ⟨rfl, (List.cons.inj heq).2⟩
    | cons y ys => exact absurd (List.cons.inj heq).1 (by decide)
  | cons x xs ih =>
    cases ys with
    | nil => exact absurd (List.cons.inj heq).1 (by decide)
    | cons y ys =>
      have htail : compact x ++ (compactElems xs ++ r) = compact y ++ (compactElems ys ++ r') := by
        simpa only [compactElems, List.cons_append, List.append_assoc, List.cons.injEq, true_and] using heq
      obtain ⟨hhead, hrest⟩ := h x List.mem_cons_self y _ _ (hx x List.mem_cons_self) (hy y List.mem_cons_self)
        (delimited_compactElems xs r) (delimited_compactElems ys r') htail
      obtain ⟨hothers, hr⟩ := ih (fun z hz => h z (List.mem_cons_of_mem x hz))
        (fun z hz => hx z (List.mem_cons_of_mem x hz)) (fun z hz => hy z (List.mem_cons_of_mem y hz)) hrest
      exact ⟨by rw [rejoinedElems, rejoinedElems, hhead, hothers], hr⟩

/-- Key, colon and value of a member. -/
theorem member_determined {k k' : Str} {v v' : Json F} (h : Determined v) {r r' : Str}
    (hv : intsFit v = true) (hv' : intsFit v' = true) (hr : Delimited r) (hr' : Delimited r')
    (heq : quoted k ++ colon :: (compact v ++ r) = quoted k' ++ colon :: (compact v' ++ r')) :
    joinPairs k = joinPairs k' ∧ rejoined v = rejoined v' ∧ r = r' := by
  obtain ⟨hk, hrest⟩ := quoted_append_injective heq
  exact ⟨hk, h v' r r' hv hv' hr hr' (List.cons.inj hrest).2⟩

theorem members_determined {m : Members F} (h : ∀ kv ∈ m, Determined kv.2) {m' : Members F} {r r' : Str}
    (hm : ∀ kv ∈ m, intsFit kv.2 = true) (hm' : ∀ kv ∈ m', intsFit kv.2 = true)
    (heq : compactMembers m ++ r = compactMembers m' ++ r') :
    rejoinedMembers m = rejoinedMembers m' ∧ r = r' := by
  induction m generalizing m' with
  | nil =>
    cases m' with
    | nil => exact ⟨rfl, (List.cons.inj heq).2⟩
    | cons kv' m' => exact absurd (List.cons.inj heq).1 (by decide)
  | cons kv m ih =>
    cases m' with
    | nil => exact absurd (List.cons.inj heq).1 (by decide)
    | cons kv' m' =>
      have htail : quoted kv.1 ++ colon :: (compact kv.2 ++ (compactMembers m ++ r)) =
          quoted kv'.1 ++ colon :: (compact kv'.2 ++ (compactMembers m' ++ r')) := by
        simpa only [compactMembers, List.cons_append, List.append_assoc, List.cons.injEq, true_and] using heq
      obtain ⟨hk, hv, hrest⟩ := member_determined (h kv List.mem_cons_self) (hm kv List.mem_cons_self)
        (hm' kv' List.mem_cons_self) (delimited_compactMembers m r) (delimited_compactMembers m' r') htail
      obtain ⟨hothers, hr⟩ := ih (fun kv hkv => h kv (List.mem_cons_of_mem _ hkv))
        (fun kv hkv => hm kv (List.mem_cons_of_mem _ hkv)) (fun kv hkv => hm' kv (List.mem_cons_of_mem _ hkv)) hrest
      exact ⟨by rw [rejoinedMembers, rejoinedMembers, hk, hv, hothers], hr⟩

variable [LawfulPyFloat F]

theorem compact_head (j : Json F) : ∃ c rest, compact j = c :: rest ∧ c ≠ closeBracket := by
  obtain ⟨c, rest, h, -, hc, -⟩ := spells_head (spells_compact j)
  exact ⟨c, rest, h, hc⟩

theorem determined_scalar {j : Json F} (hs : isContainer j = false) : Determined j := by
  intro j' r r' hj hj' hr hr' heq
  have hscan := scan_scalar hs hj hr
  rw [heq] at hscan
  cases hs' : isContainer j' with
  | true => cases hscan.symm.trans (scan_container hs' r')
  | false =>
    have hpair := hscan.symm.trans (scan_scalar hs' hj' hr')
    simp only [Except.ok.injEq, Prod.mk.injEq] at hpair
    exact hpair

/-- A text that begins with a container begins with no scalar. -/
theorem isContainer_of_text {j j' : Json F} {r r' : Str} (hs : isContainer j = true)
    (hj' : intsFit j' = true) (hr' : Delimited r') (heq : compact j ++ r = compact j' ++ r') :
    isContainer j' = true := by
  rw [← Bool.not_eq_false]
  intro hs'
  have hscan := scan_scalar hs' hj' hr'
  rw [← heq] at hscan
  cases hscan.symm.trans (scan_container hs r)

theorem determined_arr {xs : List (Json F)} (ih : ∀ x ∈ xs, Determined x) : Determined (.arr xs) := by
  intro j' r r' hj hj' hr hr' heq
  have hs' := isContainer_of_text rfl hj' hr' heq
  cases j' with
  | arr ys =>
    have hxs := intsFitElems_iff.mp hj
    have hys := intsFitElems_iff.mp hj'
    cases xs with
    | nil =>
      cases ys with
      | nil => exact ⟨rfl, by simpa [compact] using heq⟩
      | cons y ys =>
        obtain ⟨c, rest, hc, hne⟩ := compact_head y
        simp [compact, hc, Ne.symm hne] at heq
    | cons x xs =>
      cases ys with
      | nil =>
        obtain ⟨c, rest, hc, hne⟩ := compact_head x
        simp [compact, hc, hne] at heq
      | cons y ys =>
        -- The first element lacks the comma that the others have.
        have hlist : compactElems (x :: xs) ++ r = compactElems (y :: ys) ++ r' :=
          congrArg (comma :: ·) (List.cons.inj heq).2
        obtain ⟨hrejoined, hrest⟩ := elems_determined ih hxs hys hlist
        exact ⟨congrArg Json.arr hrejoined, hrest⟩
  | obj m => cases xs <;> cases m <;> exact absurd (List.cons.inj heq).1 (by decide)
  | null | bool | int | float | str => cases hs'

theorem determined_obj {m : List (Str × Json F)} (ih : ∀ kv ∈ m, Determined kv.2) : Determined (.obj m) := by
  intro j' r r' hj hj' hr hr' heq
  have hs' := isContainer_of_text rfl hj' hr' heq
  cases j' with
  | obj m' =>
    have hms := intsFitMembers_iff.mp hj
    have hms' := intsFitMembers_iff.mp hj'
    cases m with
    | nil =>
      cases m' with
      | nil => exact ⟨rfl, by simpa [compact] using heq⟩
      | cons kv' m' => exact absurd (List.cons.inj (List.cons.inj heq).2).1 (by decide)
    | cons kv m =>
      cases m' with
      | nil => exact absurd (List.cons.inj (List.cons.inj heq).2).1 (by decide)
      | cons kv' m' =>
        have hlist : compactMembers (kv :: m) ++ r = compactMembers (kv' :: m') ++ r' :=
          congrArg (comma :: ·) (List.cons.inj heq).2
        obtain ⟨hrejoined, hrest⟩ := members_determined ih hms hms' hlist
        exact ⟨congrArg Json.obj hrejoined, hrest⟩
  | arr xs => cases xs <;> cases m <;> exact absurd (List.cons.inj heq).1 (by decide)
  | null | bool | int | float | str => cases hs'

/-- Whatever value a text begins with, it begins with no other. -/
theorem determined (j : Json F) : Determined j := by
  induction j using inside_induction with
  | null | bool | int | float | str => exact determined_scalar rfl
  | arr xs ih => exact determined_arr ih
  | obj m ih => exact determined_obj ih

/-- Values with one canonical text are one value, up to split pairs and the order of members. -/
theorem rejoined_of_canonical_eq {j j' : Json F} (hj : intsFit j = true) (hj' : intsFit j' = true)
    (h : canonical j = canonical j') : rejoined j.sorted = rejoined j'.sorted := by
  refine (determined j.sorted j'.sorted [] [] (intsFit_sorted j hj) (intsFit_sorted j' hj') delimited_nil
    delimited_nil ?_).1
  rw [List.append_nil, List.append_nil]
  exact h

end Determined

end Support.Json
