import IsaCloud.Support.JsonOrder

/-!
# What a written value reads back as

A Python string may hold the two halves of a surrogate pair as separate code
points; written as escapes they read back as one. `joined` is the value with all
such pairs joined. It has the same text in every layout, and it is well formed
when the integers fit and the keys are distinct.
-/

namespace Support.Json

set_option autoImplicit false

open Text Python

/-! ## Strings -/

def joinPairs : Str → Str
  | a :: b :: s =>
    if isHigh a.val && isLow b.val then Fin.ofNat 0x110000 (joinSurrogates a.val b.val) :: joinPairs s
    else a :: joinPairs (b :: s)
  | s => s

theorem joinSurrogates_val {a b : CodePoint} (ha : isHigh a.val = true) (hb : isLow b.val = true) :
    (Fin.ofNat 0x110000 (joinSurrogates a.val b.val)).val = joinSurrogates a.val b.val ∧
      0x10000 ≤ joinSurrogates a.val b.val := by
  have ha := of_decide_eq_true ha
  have hb := of_decide_eq_true hb
  unfold joinSurrogates
  exact ⟨Nat.mod_eq_of_lt (by omega), by omega⟩

/-- The first code point is kept or joined; a low surrogate only stays in front. -/
theorem joinPairs_head {b : CodePoint} {s : Str} :
    ∃ c t, joinPairs (b :: s) = c :: t ∧ (isLow c.val = true → c = b) := by
  cases s with
  | nil => exact ⟨b, [], rfl, fun _ => rfl⟩
  | cons d s =>
    rw [joinPairs]
    split
    · rename_i h
      rw [Bool.and_eq_true] at h
      have hval := joinSurrogates_val h.1 h.2
      refine ⟨_, _, rfl, fun hlow => ?_⟩
      have := of_decide_eq_true hlow
      omega
    · exact ⟨b, _, rfl, fun _ => rfl⟩

theorem splitFree_cons {a : CodePoint} {s : Str} (hs : splitFree s = true)
    (h : ∀ b t, s = b :: t → (isHigh a.val && isLow b.val) = false) : splitFree (a :: s) = true := by
  cases s with
  | nil => rfl
  | cons b t =>
    rw [splitFree, h b t rfl, hs]
    rfl

/-- Induction along `joinPairs`: a pair is joined, a code point is kept, or too few are left. -/
theorem joinPairs_induction {P : Str → Prop}
    (pair : ∀ a b s, (isHigh a.val && isLow b.val) = true →
      joinPairs (a :: b :: s) = Fin.ofNat 0x110000 (joinSurrogates a.val b.val) :: joinPairs s → P s → P (a :: b :: s))
    (apart : ∀ a b s, ¬ (isHigh a.val && isLow b.val) = true →
      joinPairs (a :: b :: s) = a :: joinPairs (b :: s) → P (b :: s) → P (a :: b :: s))
    (short : ∀ s, splitFree s = true → joinPairs s = s → P s) (s : Str) : P s := by
  induction h : s.length using Nat.strong_induction_on generalizing s with
  | _ n ih =>
    cases s with
    | nil => exact short [] rfl rfl
    | cons a s =>
      cases s with
      | nil => exact short [a] rfl rfl
      | cons b s =>
        have hlen : s.length + 2 = n := h
        by_cases hpair : (isHigh a.val && isLow b.val) = true
        · exact pair a b s hpair (by rw [joinPairs, if_pos hpair]) (ih _ (by omega) s rfl)
        · exact apart a b s hpair (by rw [joinPairs, if_neg hpair]) (ih (s.length + 1) (by omega) (b :: s) rfl)

theorem splitFree_joinPairs (s : Str) : splitFree (joinPairs s) = true := by
  induction s using joinPairs_induction with
  | pair a b s h heq ih =>
    rw [heq]
    rw [Bool.and_eq_true] at h
    have hval := joinSurrogates_val h.1 h.2
    refine splitFree_cons ih fun c t _ => ?_
    have hhigh : isHigh (Fin.ofNat 0x110000 (joinSurrogates a.val b.val)).val = false :=
      decide_eq_false (by omega)
    rw [hhigh, Bool.false_and]
  | apart a b s h heq ih =>
    rw [heq]
    refine splitFree_cons ih fun c t hc => ?_
    obtain ⟨c', t', hhead, hlow⟩ := joinPairs_head (b := b) (s := s)
    rw [hhead] at hc
    cases hc
    by_contra hcon
    rw [Bool.not_eq_false, Bool.and_eq_true] at hcon
    rw [hlow hcon.2, Bool.and_eq_true] at *
    exact h hcon
  | short s h heq =>
    rw [heq]
    exact h

theorem joinPairs_of_splitFree {s : Str} (h : splitFree s = true) : joinPairs s = s := by
  induction s using joinPairs_induction with
  | pair a b s hp heq ih =>
    rw [splitFree, hp] at h
    cases h
  | apart a b s hp heq ih => rw [heq, ih (splitFree_tail h)]
  | short s hp heq => exact heq

theorem escapePoint_large {c : CodePoint} (h : 0x80 ≤ c.val) :
    escapePoint c = if c.val < 0x10000 then escapeUnit c.val
      else escapeUnit (highSurrogate c.val) ++ escapeUnit (lowSurrogate c.val) := by
  have hnone : shortEscapes.lookup c = none := by
    apply List.lookup_eq_none_iff.mpr
    intro p hp
    have hsmall : shortEscapes.all (fun p => decide (p.1.val < 0x80)) = true := by decide
    have hlt := of_decide_eq_true (List.all_eq_true.mp hsmall p hp)
    simp only [bne_iff_ne, ne_eq]
    rintro rfl
    omega
  have hp : ¬ (0x20 ≤ c.val ∧ c.val ≤ 0x7e) := by omega
  simp only [escapePoint, hnone, hp, if_false]

/-- The two halves of a pair are written like the code point they join to. -/
theorem escapePoint_joined {a b : CodePoint} (ha : isHigh a.val = true) (hb : isLow b.val = true) :
    escapePoint (Fin.ofNat 0x110000 (joinSurrogates a.val b.val)) =
      escapePoint a ++ escapePoint b := by
  obtain ⟨hval, hge⟩ := joinSurrogates_val ha hb
  have ha' := of_decide_eq_true ha
  have hb' := of_decide_eq_true hb
  have hhi : highSurrogate (joinSurrogates a.val b.val) = a.val := by
    unfold highSurrogate joinSurrogates
    omega
  have hlo : lowSurrogate (joinSurrogates a.val b.val) = b.val := by
    unfold lowSurrogate joinSurrogates
    omega
  rw [escapePoint_large (by omega), if_neg (by omega), hval, hhi, hlo,
    escapePoint_large (by omega), if_pos (by omega), escapePoint_large (by omega),
    if_pos (by omega)]

theorem escaped_joinPairs (s : Str) :
    (joinPairs s).flatMap escapePoint = s.flatMap escapePoint := by
  induction s using joinPairs_induction with
  | pair a b s h heq ih =>
    rw [Bool.and_eq_true] at h
    simp only [heq, List.flatMap_cons, ih, escapePoint_joined h.1 h.2, List.append_assoc]
  | apart a b s h heq ih => rw [heq, List.flatMap_cons, ih, ← List.flatMap_cons]
  | short s h heq => rw [heq]

theorem quoted_joinPairs (s : Str) : quoted (joinPairs s) = quoted s := by
  rw [quoted, quoted, escaped_joinPairs]

/-! ## Values -/

section Joined
variable {F : Type}

mutual
/-- The value with every split pair joined; keys are left alone. -/
def joined : Json F → Json F
  | .str s => .str (joinPairs s)
  | .arr xs => .arr (joinedElems xs)
  | .obj m => .obj (joinedMembers m)
  | j => j

def joinedElems : List (Json F) → List (Json F)
  | [] => []
  | x :: xs => joined x :: joinedElems xs

def joinedMembers : List (Str × Json F) → List (Str × Json F)
  | [] => []
  | (k, v) :: m => (k, joined v) :: joinedMembers m

/-- Integers that fit and distinct keys without split pairs; strings are free. -/
def Writable : Json F → Prop
  | .int n => (natText n.natAbs).length ≤ intMaxStrDigits
  | .arr xs => WritableElems xs
  | .obj m => (Members.keys m).Nodup ∧ WritableMembers m
  | _ => True

def WritableElems : List (Json F) → Prop
  | [] => True
  | x :: xs => Writable x ∧ WritableElems xs

def WritableMembers : List (Str × Json F) → Prop
  | [] => True
  | (k, v) :: m => splitFree k = true ∧ Writable v ∧ WritableMembers m
end

theorem joinedElems_eq_map (xs : List (Json F)) : joinedElems xs = xs.map joined := by
  induction xs with
  | nil => rfl
  | cons x xs ih => simp [joinedElems, ih]

theorem joinedMembers_eq_map (m : Members F) :
    joinedMembers m = m.map fun kv => (kv.1, joined kv.2) := by
  induction m with
  | nil => rfl
  | cons kv m ih => simp [joinedMembers, ih]

theorem writableElems_iff {xs : List (Json F)} : WritableElems xs ↔ ∀ x ∈ xs, Writable x := by
  induction xs with
  | nil => simp [WritableElems]
  | cons x xs ih => simp [WritableElems, ih]

theorem writableMembers_iff {m : Members F} :
    WritableMembers m ↔ ∀ kv ∈ m, splitFree kv.1 = true ∧ Writable kv.2 := by
  induction m with
  | nil => simp [WritableMembers]
  | cons kv m ih => simp [WritableMembers, ih, and_assoc]

theorem writable_of_wf (j : Json F) (h : WF j) : Writable j := by
  induction j using inside_induction with
  | null | bool | float | str => trivial
  | int n => exact h
  | arr xs ih =>
    exact writableElems_iff.mpr fun x hx => ih x hx (wfElems_iff.mp h x hx)
  | obj m ih =>
    refine ⟨h.1, writableMembers_iff.mpr fun kv hkv => ?_⟩
    have hkv' := wfMembers_iff.mp h.2 kv hkv
    exact ⟨hkv'.1, ih kv hkv hkv'.2⟩

theorem keys_joinedMembers (m : Members F) :
    Members.keys (joinedMembers m) = Members.keys m := by
  simp [joinedMembers_eq_map, Members.keys]

theorem wf_joined (j : Json F) (h : Writable j) : WF (joined j) := by
  induction j using inside_induction with
  | null | bool | float => trivial
  | int n => exact h
  | str s => exact splitFree_joinPairs s
  | arr xs ih =>
    rw [joined, joinedElems_eq_map]
    apply wfElems_iff.mpr
    intro y hy
    obtain ⟨x, hx, rfl⟩ := List.mem_map.mp hy
    exact ih x hx (writableElems_iff.mp h x hx)
  | obj m ih =>
    refine ⟨?_, ?_⟩
    · rw [keys_joinedMembers]
      exact h.1
    · rw [joinedMembers_eq_map]
      apply wfMembers_iff.mpr
      intro kv hkv
      obtain ⟨kv', hkv', rfl⟩ := List.mem_map.mp hkv
      have hw := writableMembers_iff.mp h.2 kv' hkv'
      exact ⟨hw.1, ih kv' hkv' hw.2⟩

theorem depth_joined (j : Json F) : (joined j).depth = j.depth := by
  induction j using inside_induction with
  | null | bool | int | float | str => rfl
  | arr xs ih =>
    rw [joined, joinedElems_eq_map]
    apply Nat.le_antisymm
    · apply Nat.succ_le_succ
      apply depthElems_le_iff.mpr
      intro y hy
      obtain ⟨x, hx, rfl⟩ := List.mem_map.mp hy
      rw [ih x hx]
      exact depthElems_le_iff.mp (Nat.le_refl _) x hx
    · apply Nat.succ_le_succ
      apply depthElems_le_iff.mpr
      intro x hx
      rw [← ih x hx]
      exact depthElems_le_iff.mp (Nat.le_refl _) _ (List.mem_map_of_mem hx)
  | obj m ih =>
    rw [joined, joinedMembers_eq_map]
    apply Nat.le_antisymm
    · apply Nat.succ_le_succ
      apply depthMembers_le_iff.mpr
      intro kv hkv
      obtain ⟨kv', hkv', rfl⟩ := List.mem_map.mp hkv
      rw [ih kv' hkv']
      exact depthMembers_le_iff.mp (Nat.le_refl _) kv' hkv'
    · apply Nat.succ_le_succ
      apply depthMembers_le_iff.mpr
      intro kv hkv
      rw [← ih kv hkv]
      exact depthMembers_le_iff.mp (Nat.le_refl _) (kv.1, joined kv.2)
        (List.mem_map_of_mem (f := fun kv => (kv.1, joined kv.2)) hkv)

/-- Sorting looks at the keys only. -/
theorem sorted_joined (j : Json F) : (joined j).sorted = joined j.sorted := by
  induction j using inside_induction with
  | null | bool | int | float | str => rfl
  | arr xs ih =>
    simp only [joined, sorted, joinedElems_eq_map, sortedElems_eq_map, List.map_map, Json.arr.injEq]
    apply List.map_congr_left
    exact ih
  | obj m ih =>
    simp only [joined, sorted, joinedMembers_eq_map, sortedMembers_eq_map, List.map_map,
      Json.obj.injEq]
    rw [List.map_insertionSort (r := keyLe) (s := keyLe)]
    · congr 1
      rw [List.map_map]
      apply List.map_congr_left
      intro kv hkv
      simp only [Function.comp, ih kv hkv]
    · intro a _ b _
      exact Iff.rfl

variable [PyFloat F]

theorem compactElems_joined {xs : List (Json F)} (h : ∀ x ∈ xs, compact (joined x) = compact x) :
    compactElems (joinedElems xs) = compactElems xs := by
  induction xs with
  | nil => rfl
  | cons x xs ih =>
    rw [joinedElems, compactElems, compactElems, h x List.mem_cons_self,
      ih fun y hy => h y (List.mem_cons_of_mem x hy)]

theorem compactMembers_joined {m : Members F} (h : ∀ kv ∈ m, compact (joined kv.2) = compact kv.2) :
    compactMembers (joinedMembers m) = compactMembers m := by
  induction m with
  | nil => rfl
  | cons kv m ih =>
    obtain ⟨k, v⟩ := kv
    rw [joinedMembers, compactMembers, compactMembers, h (k, v) List.mem_cons_self,
      ih fun kv hkv => h kv (List.mem_cons_of_mem _ hkv)]

theorem compact_joined (j : Json F) : compact (joined j) = compact j := by
  induction j using inside_induction with
  | null | bool | int | float => rfl
  | str s =>
    rw [joined, compact, compact, quoted_joinPairs]
  | arr xs ih =>
    cases xs with
    | nil => rfl
    | cons x xs =>
      rw [joined, joinedElems, compact, compact, ih x List.mem_cons_self,
        compactElems_joined fun y hy => ih y (List.mem_cons_of_mem x hy)]
  | obj m ih =>
    cases m with
    | nil => rfl
    | cons kv m =>
      obtain ⟨k, v⟩ := kv
      rw [joined, joinedMembers, compact, compact, ih (k, v) List.mem_cons_self,
        compactMembers_joined fun kv hkv => ih kv (List.mem_cons_of_mem _ hkv)]

theorem canonical_joined (j : Json F) : canonical (joined j) = canonical j := by
  rw [canonical, canonical, sorted_joined, compact_joined]

theorem indentedElems_joined {xs : List (Json F)} {level : Nat}
    (h : ∀ x ∈ xs, indented (level + 1) (joined x) = indented (level + 1) x) :
    indentedElems level (joinedElems xs) = indentedElems level xs := by
  induction xs with
  | nil => rfl
  | cons x xs ih =>
    rw [joinedElems, indentedElems, indentedElems, h x List.mem_cons_self,
      ih fun y hy => h y (List.mem_cons_of_mem x hy)]

theorem indentedMembers_joined {m : Members F} {level : Nat}
    (h : ∀ kv ∈ m, indented (level + 1) (joined kv.2) = indented (level + 1) kv.2) :
    indentedMembers level (joinedMembers m) = indentedMembers level m := by
  induction m with
  | nil => rfl
  | cons kv m ih =>
    obtain ⟨k, v⟩ := kv
    rw [joinedMembers, indentedMembers, indentedMembers, h (k, v) List.mem_cons_self,
      ih fun kv hkv => h kv (List.mem_cons_of_mem _ hkv)]

theorem indented_joined (j : Json F) (level : Nat) : indented level (joined j) = indented level j := by
  induction j using inside_induction generalizing level with
  | null | bool | int | float => rfl
  | str s => exact quoted_joinPairs s
  | arr xs ih =>
    cases xs with
    | nil => rfl
    | cons x xs =>
      rw [joined, joinedElems, indented, indented, ih x List.mem_cons_self,
        indentedElems_joined fun y hy => ih y (List.mem_cons_of_mem x hy) (level + 1)]
  | obj m ih =>
    cases m with
    | nil => rfl
    | cons kv m =>
      obtain ⟨k, v⟩ := kv
      rw [joined, joinedMembers, indented, indented, ih (k, v) List.mem_cons_self,
        indentedMembers_joined fun kv hkv => ih kv (List.mem_cons_of_mem _ hkv) (level + 1)]

omit [PyFloat F] in
theorem intsFit_of_writable (j : Json F) (h : Writable j) : intsFit j = true := by
  induction j using inside_induction with
  | null | bool | float | str => rfl
  | int n => exact decide_eq_true h
  | arr xs ih =>
    exact intsFitElems_iff.mpr fun x hx => ih x hx (writableElems_iff.mp h x hx)
  | obj m ih =>
    exact intsFitMembers_iff.mpr fun kv hkv => ih kv hkv (writableMembers_iff.mp h.2 kv hkv).2

end Joined

end Support.Json
