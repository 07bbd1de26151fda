import IsaCloud.Support.JsonWellFormed
import IsaCloud.Support.PyJson

/-!
# Member order

`sort_keys` forgets the order of the members of an object; `str` shows it. Two
values with the same sorted form agree in everything that `bool`, `int` and a
lookup can see, and in their text if no object inside has two members. A value
that has such an object always has a reordering with a different text.
-/

namespace Support

set_option autoImplicit false

open Text Python

namespace Members
variable {F : Type}

theorem get_sortedMembers (m : Members F) (k : Str) :
    Members.get (Json.sortedMembers m) k = (m.get k).map Json.sorted := by
  induction m with
  | nil => rfl
  | cons kv m ih =>
    obtain ⟨k', v⟩ := kv
    by_cases h : k' = k
    · simp [Json.sortedMembers, get, h]
    · simp [Json.sortedMembers, get, h, ih]

theorem get_set_self {m : Members F} {k : Str} {v : Json F} : (m.set k v).get k = some v := by
  induction m with
  | nil => simp [set, get]
  | cons kv m ih =>
    obtain ⟨k', v'⟩ := kv
    by_cases h : k' = k
    · simp [set, get, h]
    · simp [set, get, h, ih]

theorem get_set_of_ne {m : Members F} {k k' : Str} {v : Json F} (h : k ≠ k') :
    (m.set k v).get k' = m.get k' := by
  induction m with
  | nil => simp [set, get, h]
  | cons kv m ih =>
    obtain ⟨k'', v'⟩ := kv
    by_cases hk : k'' = k
    · subst hk
      simp [set, get, h]
    · simp [set, get, hk, ih]

theorem without_set {m : Members F} {k key : Str} {v : Json F} (h : k ≠ key) :
    (m.set k v).without key = (m.without key).set k v := by
  induction m with
  | nil => simp [set, without, h]
  | cons kv m ih =>
    obtain ⟨k', v'⟩ := kv
    simp only [without] at ih
    by_cases hk : k' = k
    · subst hk
      simp [set, without, h]
    · by_cases hkey : k' = key
      · subst hkey
        simp [set, without, Ne.symm h, ih]
      · simp [set, without, hk, hkey, ih]

theorem sortedMembers_set {m : Members F} {k : Str} {v v' : Json F} (hget : m.get k = some v)
    (hv : v'.sorted = v.sorted) : Json.sortedMembers (m.set k v') = Json.sortedMembers m := by
  induction m with
  | nil => cases hget
  | cons kv m ih =>
    obtain ⟨k', w⟩ := kv
    by_cases hk : k' = k
    · simp only [get, hk, if_true, Option.some.injEq] at hget
      simp [set, Json.sortedMembers, hk, hv, hget]
    · simp only [get, hk, if_false] at hget
      simp [set, Json.sortedMembers, hk, ih hget]

end Members

namespace Json
variable {F : Type}

/-! ## Values that sort the same -/

def byKey {V : Type} (a b : Str × V) : Prop := strLe a.1 b.1 = true

instance {V : Type} : DecidableRel (byKey (V := V)) := fun a b => inferInstanceAs (Decidable (strLe a.1 b.1 = true))

/-- Sorting by key does not see the order of entries with different keys. -/
theorem sort_byKey_eq_of_perm {V : Type} {m m' : List (Str × V)} (h : m.Perm m') (hm : (m.map Prod.fst).Nodup) :
    m.insertionSort byKey = m'.insertionSort byKey := by
  have total : ∀ a b : Str × V, byKey a b ∨ byKey b a := fun a b => strLe_total a.1 b.1
  have trans : ∀ a b c : Str × V, byKey a b → byKey b c → byKey a c := fun a b c => strLe_trans
  have : Std.Total (byKey (V := V)) := ⟨total⟩
  have : IsTrans (Str × V) byKey := ⟨trans⟩
  have hp : (m.insertionSort byKey).Perm (m'.insertionSort byKey) :=
    ((m.perm_insertionSort byKey).trans h).trans (m'.perm_insertionSort byKey).symm
  refine hp.eq_of_pairwise ?_ (m.pairwise_insertionSort byKey) (m'.pairwise_insertionSort byKey)
  intro a b ha hb hab hba
  apply List.inj_on_of_nodup_map hm
  · exact (m.perm_insertionSort byKey).mem_iff.mp ha
  · exact h.mem_iff.mpr ((m'.perm_insertionSort byKey).mem_iff.mp hb)
  · exact strLe_antisymm hab hba

theorem insertionSort_eq_of_perm {m m' : Members F} (h : m.Perm m') (hm : m.keys.Nodup) :
    m.insertionSort keyLe = m'.insertionSort keyLe := sort_byKey_eq_of_perm h hm

theorem sortedMembers_insertionSort (m : Members F) :
    sortedMembers (m.insertionSort keyLe) = (sortedMembers m).insertionSort keyLe := by
  rw [sortedMembers_eq_map, sortedMembers_eq_map, List.map_insertionSort keyLe keyLe]
  intro a _ b _
  exact Iff.rfl

/-- Sorting twice sorts once. -/
theorem sorted_idem (j : Json F) : j.sorted.sorted = j.sorted := by
  induction j using inside_induction with
  | null | bool | int | float | str => rfl
  | arr xs ih =>
    simp only [sorted, sortedElems_eq_map, List.map_map, Json.arr.injEq]
    apply List.map_congr_left
    exact ih
  | obj m ih =>
    have total : ∀ a b : Str × Json F, keyLe a b ∨ keyLe b a := fun a b => strLe_total a.1 b.1
    have trans : ∀ a b c : Str × Json F, keyLe a b → keyLe b c → keyLe a c :=
      fun a b c => strLe_trans
    have : Std.Total (keyLe (F := F)) := ⟨total⟩
    have : IsTrans (Str × Json F) keyLe := ⟨trans⟩
    have hinner : sortedMembers (sortedMembers m) = sortedMembers m := by
      simp only [sortedMembers_eq_map, List.map_map]
      apply List.map_congr_left
      intro kv hkv
      simp only [Function.comp, ih kv hkv]
    simp only [sorted, sortedMembers_insertionSort, hinner, Json.obj.injEq]
    exact List.Pairwise.insertionSort_eq (List.pairwise_insertionSort keyLe _)

theorem sorted_obj_perm {m m' : Members F} (h : (Json.obj m).sorted = (Json.obj m').sorted) :
    (sortedMembers m).Perm (sortedMembers m') := by
  simp only [sorted, Json.obj.injEq] at h
  have hp := (sortedMembers m).perm_insertionSort keyLe
  rw [h] at hp
  exact hp.symm.trans ((sortedMembers m').perm_insertionSort keyLe)

/-- Objects with the same sorted form hold values with the same sorted form. -/
theorem get_of_sorted_eq {m m' : Members F} (hm : m.keys.Nodup)
    (h : (Json.obj m).sorted = (Json.obj m').sorted) (k : Str) :
    (m.get k).map sorted = (m'.get k).map sorted := by
  rw [← Members.get_sortedMembers, ← Members.get_sortedMembers]
  exact Members.get_perm (sorted_obj_perm h) ((keys_sortedMembers m).symm ▸ hm) k

theorem sortedMembers_without (m : Members F) (key : Str) :
    sortedMembers (m.without key) = Members.without (sortedMembers m) key := by
  rw [sortedMembers_eq_map, sortedMembers_eq_map, Members.without, Members.without, List.filter_map]
  rfl

/-- Taking a key out keeps the sorted forms equal. -/
theorem sorted_without {m m' : Members F} (hm : m.keys.Nodup)
    (h : (Json.obj m).sorted = (Json.obj m').sorted) (key : Str) :
    (Json.obj (m.without key)).sorted = (Json.obj (m'.without key)).sorted := by
  have hperm : (Members.without (sortedMembers m) key).Perm
      (Members.without (sortedMembers m') key) := (sorted_obj_perm h).filter _
  have hnodup : (Members.without (sortedMembers m) key).keys.Nodup := by
    rw [← keys_sortedMembers] at hm
    exact hm.sublist (List.filter_sublist.map _)
  simp only [sorted, sortedMembers_without, insertionSort_eq_of_perm hperm hnodup]

theorem keys_perm_of_sorted_eq {m m' : Members F} (h : (Json.obj m).sorted = (Json.obj m').sorted) :
    m.keys.Perm m'.keys := by
  have := (sorted_obj_perm h).map Prod.fst
  rwa [← Members.keys, ← Members.keys, keys_sortedMembers, keys_sortedMembers] at this

theorem sortedMembers_isEmpty (m : Members F) :
    ((sortedMembers m).insertionSort keyLe).isEmpty = m.isEmpty := by
  have hlen : ((sortedMembers m).insertionSort keyLe).length = m.length := by
    rw [List.length_insertionSort, sortedMembers_eq_map, List.length_map]
  cases m with
  | nil => rfl
  | cons kv m =>
    rw [List.isEmpty_eq_false_iff.mpr, List.isEmpty_cons]
    intro hnil
    rw [hnil] at hlen
    simp at hlen

section Builtins
variable [PyFloat F]

theorem truthy_sorted (j : Json F) : j.sorted.truthy = j.truthy := by
  cases j with
  | arr xs => cases xs <;> rfl
  | obj m => simp only [sorted, truthy, sortedMembers_isEmpty]
  | _ => rfl

theorem pyInt_sorted [Unicode] (j : Json F) : j.sorted.pyInt = j.pyInt := by
  cases j <;> rfl

end Builtins

/-! ## Values whose text is fixed by their sorted form -/

mutual
/-- No object inside has two members. -/
def OrderFree : Json F → Prop
  | .arr xs => OrderFreeElems xs
  | .obj m => m.length ≤ 1 ∧ OrderFreeMembers m
  | _ => True

def OrderFreeElems : List (Json F) → Prop
  | [] => True
  | x :: xs => OrderFree x ∧ OrderFreeElems xs

def OrderFreeMembers : List (Str × Json F) → Prop
  | [] => True
  | (_, v) :: m => OrderFree v ∧ OrderFreeMembers m
end

theorem orderFreeElems_iff {xs : List (Json F)} : OrderFreeElems xs ↔ ∀ x ∈ xs, OrderFree x := by
  induction xs with
  | nil => simp [OrderFreeElems]
  | cons x xs ih => simp [OrderFreeElems, ih]

theorem orderFreeMembers_iff {m : Members F} :
    OrderFreeMembers m ↔ ∀ kv ∈ m, OrderFree kv.2 := by
  induction m with
  | nil => simp [OrderFreeMembers]
  | cons kv m ih => simp [OrderFreeMembers, ih]

theorem insertionSort_short {m : Members F} (h : m.length ≤ 1) :
    (sortedMembers m).insertionSort keyLe = sortedMembers m := by
  match m, h with
  | [], _ => rfl
  | [(k, v)], _ => rfl

theorem sorted_of_orderFree (j : Json F) (h : OrderFree j) : j.sorted = j := by
  induction j using inside_induction with
  | null | bool | int | float | str => rfl
  | arr xs ih =>
    have hx := orderFreeElems_iff.mp h
    rw [sorted, sortedElems_eq_map]
    congr 1
    calc xs.map sorted = xs.map id := List.map_congr_left fun x hmem => ih x hmem (hx x hmem)
      _ = xs := List.map_id xs
  | obj m ih =>
    have hv := orderFreeMembers_iff.mp h.2
    rw [sorted, insertionSort_short h.1, sortedMembers_eq_map]
    congr 1
    calc m.map (fun kv => (kv.1, kv.2.sorted)) = m.map id :=
          List.map_congr_left fun kv hmem => by rw [ih kv hmem (hv kv hmem)]; rfl
      _ = m := List.map_id m

theorem orderFree_sorted (j : Json F) : OrderFree j.sorted ↔ OrderFree j := by
  induction j using inside_induction with
  | null | bool | int | float | str => rfl
  | arr xs ih =>
    simp only [sorted, OrderFree, orderFreeElems_iff, sortedElems_eq_map, List.forall_mem_map]
    exact forall₂_congr ih
  | obj m ih =>
    have hp := (sortedMembers m).perm_insertionSort keyLe
    have hmem : (∀ kv ∈ (sortedMembers m).insertionSort keyLe, OrderFree kv.2) ↔
        ∀ kv ∈ m, OrderFree kv.2 := by
      simp only [hp.mem_iff]
      simp only [sortedMembers_eq_map, List.forall_mem_map]
      exact forall₂_congr ih
    have hlen : ((sortedMembers m).insertionSort keyLe).length = m.length := by
      rw [List.length_insertionSort, sortedMembers_eq_map, List.length_map]
    simp only [sorted, OrderFree, orderFreeMembers_iff, hmem, hlen]

/-- Without objects of two members the sorted form is the whole value. -/
theorem eq_of_sorted_eq {j j' : Json F} (hj : OrderFree j) (h : j'.sorted = j.sorted) : j' = j := by
  have hj' : OrderFree j' := by
    rw [← orderFree_sorted, h, orderFree_sorted]
    exact hj
  rw [← sorted_of_orderFree j' hj', h, sorted_of_orderFree j hj]

end Json

/-- A member that shows no order is fixed by its sorted form. -/
theorem Members.get_eq_of_orderFree {F : Type} {m m' : Members F} {k : Str}
    (hfree : ∀ j, m.get k = some j → j.OrderFree)
    (h : (m'.get k).map Json.sorted = (m.get k).map Json.sorted) : m'.get k = m.get k := by
  cases hj : m.get k with
  | none =>
    rw [hj, Option.map_none, Option.map_eq_none_iff] at h
    exact h
  | some j =>
    rw [hj, Option.map_some, Option.map_eq_some_iff] at h
    obtain ⟨j', hj', hsorted⟩ := h
    rw [hj', Json.eq_of_sorted_eq (hfree j hj) hsorted]

namespace Json
variable {F : Type}

/-! ## Reorderings -/

/-- The same value up to the order of members. -/
structure Reordering (j j' : Json F) : Prop where
  sorted : j'.sorted = j.sorted
  wf : WF j → WF j'
  depth : j'.depth = j.depth

theorem context_ne {pre post a b : Str} (h : a ≠ b) :
    pre ++ (a ++ post) ≠ pre ++ (b ++ post) := by
  intro he
  exact h (List.append_cancel_right (List.append_cancel_left he))

theorem depthElems_append (xs ys : List (Json F)) :
    depthElems (xs ++ ys) = max (depthElems xs) (depthElems ys) := by
  induction xs with
  | nil => simp [depthElems]
  | cons x xs ih => simp [depthElems, ih, Nat.max_assoc]

theorem depthMembers_append (xs ys : Members F) :
    depthMembers (xs ++ ys) = max (depthMembers xs) (depthMembers ys) := by
  induction xs with
  | nil => simp [depthMembers]
  | cons x xs ih => simp [depthMembers, ih, Nat.max_assoc]

theorem reordering_arr {x x' : Json F} (h : Reordering x x') (xs ys : List (Json F)) :
    Reordering (.arr (xs ++ x :: ys)) (.arr (xs ++ x' :: ys)) := by
  refine ⟨?_, ?_, ?_⟩
  · simp only [Json.sorted, sortedElems_eq_map, List.map_append, List.map_cons, h.sorted]
  · intro hwf
    simp only [WF, wfElems_iff, List.mem_append, List.mem_cons] at hwf ⊢
    rintro y (hy | rfl | hy)
    · exact hwf y (.inl hy)
    · exact h.wf (hwf x (.inr (.inl rfl)))
    · exact hwf y (.inr (.inr hy))
  · simp only [Json.depth, depthElems_append, depthElems, h.depth]

theorem reordering_obj {x x' : Json F} (h : Reordering x x') (k : Str) (xs ys : Members F) :
    Reordering (.obj (xs ++ (k, x) :: ys)) (.obj (xs ++ (k, x') :: ys)) := by
  refine ⟨?_, ?_, ?_⟩
  · simp only [Json.sorted, sortedMembers_eq_map, List.map_append, List.map_cons, h.sorted]
  · intro hwf
    simp only [WF, wfMembers_iff, List.mem_append, List.mem_cons, Members.keys, List.map_append,
      List.map_cons] at hwf ⊢
    refine ⟨hwf.1, ?_⟩
    rintro kv (hy | rfl | hy)
    · exact hwf.2 kv (.inl hy)
    · exact ⟨(hwf.2 (k, x) (.inr (.inl rfl))).1, h.wf (hwf.2 (k, x) (.inr (.inl rfl))).2⟩
    · exact hwf.2 kv (.inr (.inr hy))
  · simp only [Json.depth, depthMembers_append, depthMembers, h.depth]

theorem reordering_swap (kv kv' : Str × Json F) (m : Members F)
    (h : (Members.keys (kv :: kv' :: m)).Nodup) :
    Reordering (.obj (kv :: kv' :: m)) (.obj (kv' :: kv :: m)) := by
  have hp : (kv' :: kv :: m).Perm (kv :: kv' :: m) := List.Perm.swap kv kv' m
  have hkeys : (Members.keys (kv' :: kv :: m)).Nodup := (hp.map Prod.fst).nodup_iff.mpr h
  refine ⟨?_, ?_, ?_⟩
  · simp only [Json.sorted, Json.obj.injEq]
    apply insertionSort_eq_of_perm
    · rw [sortedMembers_eq_map, sortedMembers_eq_map]
      exact hp.map _
    · rw [keys_sortedMembers]
      exact hkeys
  · intro hwf
    simp only [WF, wfMembers_iff] at hwf ⊢
    exact ⟨hkeys, fun x hx => hwf.2 x (hp.mem_iff.mp hx)⟩
  · simp only [Json.depth, depthMembers]
    omega

theorem Reordering.refl (j : Json F) : Reordering j j := ⟨rfl, id, rfl⟩

theorem reordering_elems {xs ys : List (Json F)} (h : List.Forall₂ Reordering xs ys) :
    Reordering (.arr xs) (.arr ys) := by
  have hmap : ys.map Json.sorted = xs.map Json.sorted := by
    induction h with
    | nil => rfl
    | cons hx _ ih => rw [List.map_cons, List.map_cons, hx.sorted, ih]
  have hwf : (∀ x ∈ xs, WF x) → ∀ y ∈ ys, WF y := by
    clear hmap
    induction h with
    | nil => simp
    | cons hx _ ih =>
      intro hall y hy
      rcases List.mem_cons.mp hy with rfl | hy
      · exact hx.wf (hall _ List.mem_cons_self)
      · exact ih (fun x hx => hall x (List.mem_cons_of_mem _ hx)) y hy
  have hdepth : depthElems ys = depthElems xs := by
    clear hmap hwf
    induction h with
    | nil => rfl
    | cons hx _ ih => rw [depthElems, depthElems, hx.depth, ih]
  refine ⟨?_, ?_, ?_⟩
  · rw [Json.sorted, Json.sorted, sortedElems_eq_map, sortedElems_eq_map, hmap]
  · intro h
    exact wfElems_iff.mpr (hwf (wfElems_iff.mp h))
  · rw [Json.depth, Json.depth, hdepth]

theorem depth_sorted (j : Json F) : j.sorted.depth = j.depth := by
  induction j using inside_induction with
  | null | bool | int | float | str => rfl
  | arr xs ih =>
    have h : ∀ n, depthElems (sortedElems xs) ≤ n ↔ depthElems xs ≤ n := by
      intro n
      simp only [depthElems_le_iff, sortedElems_eq_map, List.forall_mem_map]
      exact forall₂_congr fun x hx => by rw [ih x hx]
    rw [Json.sorted, Json.depth, Json.depth, le_antisymm ((h _).mpr le_rfl) ((h _).mp le_rfl)]
  | obj m ih =>
    have hp := (sortedMembers m).perm_insertionSort keyLe
    have h : ∀ n, depthMembers ((sortedMembers m).insertionSort keyLe) ≤ n ↔
        depthMembers m ≤ n := by
      intro n
      simp only [depthMembers_le_iff, hp.mem_iff]
      simp only [sortedMembers_eq_map, List.forall_mem_map]
      exact forall₂_congr fun kv hkv => by rw [ih kv hkv]
    rw [Json.sorted, Json.depth, Json.depth, le_antisymm ((h _).mpr le_rfl) ((h _).mp le_rfl)]

theorem reordering_of_sorted_eq {j j' : Json F} (h : j'.sorted = j.sorted) (hwf : WF j') :
    Reordering j j' :=
  ⟨h, fun _ => hwf, by rw [← depth_sorted j', h, depth_sorted]⟩

theorem bounded_set {limit : Nat} {m : Members F} {k : Str} {j j' : Json F}
    (h : Bounded limit (.obj m)) (hget : m.get k = some j) (hre : Reordering j j') :
    Bounded limit (.obj (m.set k j')) := by
  obtain ⟨n, rfl⟩ : ∃ n, limit = n + 1 := by
    have := h.2
    simp only [depth] at this
    exact ⟨limit - 1, by omega⟩
  rw [bounded_obj] at h ⊢
  have hmem := (Members.get_eq_some_iff h.1 k j).mp hget
  obtain ⟨hkey, hj⟩ := h.2 _ hmem
  refine ⟨Members.nodup_set h.1 k j', ?_⟩
  intro kv hkv
  rcases mem_set hkv with rfl | hkv
  · exact ⟨hkey, hre.wf hj.1, by rw [hre.depth]; exact hj.2⟩
  · exact h.2 kv hkv

theorem wf_without {m : Members F} (h : WF (.obj m)) (key : Str) : WF (.obj (m.without key)) := by
  have hsub : (m.without key).Sublist m := List.filter_sublist
  refine ⟨(hsub.map Prod.fst).nodup h.1, ?_⟩
  rw [wfMembers_iff]
  exact fun kv hkv => wfMembers_iff.mp h.2 kv (hsub.subset hkv)

/-! ## Values whose text shows an order -/

/-- The number a run of hexadecimal digits denotes. -/
def hexNumber (s : Str) : Nat := s.foldl (fun n c => 16 * n + (hexValue c).getD 0) 0

theorem hexText_length (w n : Nat) : (hexText w n).length = w := by
  induction w generalizing n with
  | zero => rfl
  | succ w ih => simp [hexText, ih]

theorem hexNumber_hexText {w n : Nat} (h : n < 16 ^ w) : hexNumber (hexText w n) = n := by
  induction w generalizing n with
  | zero =>
    have : n = 0 := by simpa using h
    subst this
    rfl
  | succ w ih =>
    have hdiv : n / 16 < 16 ^ w := by
      apply Nat.div_lt_of_lt_mul
      rwa [Nat.pow_succ, Nat.mul_comm] at h
    have hdigit := hexValue_hexDigit (n % 16) (Nat.mod_lt _ (by decide))
    have happend : hexNumber (hexText w (n / 16) ++ [hexDigit (n % 16)]) =
        16 * hexNumber (hexText w (n / 16)) + n % 16 := by
      simp [hexNumber, List.foldl_append, hdigit]
    rw [hexText, happend, ih hdiv]
    omega

/-- The character that the escape after a backslash stands for. -/
def escapeMeaning (s : Str) : Option CodePoint :=
  match s with
  | [] => none
  | e :: rest =>
    if e = cp 't' then some 9
    else if e = cp 'n' then some 10
    else if e = cp 'r' then some 13
    else if e = cp 'x' then some (Fin.ofNat 0x110000 (hexNumber (rest.take 2)))
    else if e = cp 'u' then some (Fin.ofNat 0x110000 (hexNumber (rest.take 4)))
    else if e = cp 'U' then some (Fin.ofNat 0x110000 (hexNumber (rest.take 8)))
    else some e

/-- The first character of the text between two quotes, `none` at the closing one. -/
def firstMeaning (quote : CodePoint) (s : Str) : Option CodePoint :=
  match s with
  | [] => none
  | c :: rest =>
    if c = quote then none else if c = backslash then escapeMeaning rest else some c

theorem escapeMeaning_hex {c : CodePoint} {w : Nat} (h : c.val < 16 ^ w) (rest : Str) :
    (some (Fin.ofNat 0x110000 (hexNumber ((hexText w c.val ++ rest).take w))) : Option CodePoint) =
      some c := by
  have htake : (hexText w c.val ++ rest).take w = hexText w c.val :=
    List.take_left' (hexText_length w c.val)
  rw [htake, hexNumber_hexText h, ofNat_val]

theorem reprQuote_cases (s : Str) : reprQuote s = singleQuote ∨ reprQuote s = Json.quote := by
  unfold reprQuote
  split
  · exact .inr rfl
  · exact .inl rfl

section Repr
variable [Unicode]

theorem firstMeaning_reprPoint {q : CodePoint} (hq : q = singleQuote ∨ q = Json.quote)
    (c : CodePoint) (rest : Str) : firstMeaning q (reprPoint q c ++ rest) = some c := by
  have hback : backslash ≠ q := by
    rcases hq with rfl | rfl <;> decide
  have hx : ∀ s, firstMeaning q (backslash :: s) = escapeMeaning s := by
    intro s
    simp [firstMeaning, hback]
  unfold reprPoint
  split_ifs with h1 h2 h3 h4 h5 h6 h7
  · simp only [List.cons_append, List.nil_append, hx]
    have hplain : ∀ d : CodePoint, d = singleQuote ∨ d = Json.quote ∨ d = backslash →
        escapeMeaning (d :: rest) = some d := by
      rintro d (rfl | rfl | rfl) <;> rfl
    apply hplain
    rcases h1 with rfl | rfl
    · exact hq.imp_right .inl
    · exact .inr (.inr rfl)
  · simp only [List.cons_append, List.nil_append, hx, h2]
    rfl
  · simp only [List.cons_append, List.nil_append, hx, h3]
    rfl
  · simp only [List.cons_append, List.nil_append, hx, h4]
    rfl
  · rw [not_or] at h1
    simp [firstMeaning, h1.1, h1.2]
  · simp only [List.cons_append, hx]
    exact escapeMeaning_hex (w := 2) (by omega) rest
  · simp only [List.cons_append, hx]
    exact escapeMeaning_hex (w := 4) (by omega) rest
  · simp only [List.cons_append, hx]
    exact escapeMeaning_hex (w := 8) (by omega) rest

theorem reprPoints_prefix_free {q : CodePoint} (hq : q = singleQuote ∨ q = Json.quote)
    {s t r r' : Str} (h : s.flatMap (reprPoint q) ++ q :: r = t.flatMap (reprPoint q) ++ q :: r') :
    s = t := by
  have hend : ∀ rest, firstMeaning q (q :: rest) = none := by
    intro rest
    simp [firstMeaning]
  induction s generalizing t with
  | nil =>
    cases t with
    | nil => rfl
    | cons b t =>
      have hb := firstMeaning_reprPoint hq b (t.flatMap (reprPoint q) ++ q :: r')
      rw [← List.append_assoc, ← List.flatMap_cons, ← h, List.flatMap_nil, List.nil_append,
        hend] at hb
      cases hb
  | cons a s ih =>
    have ha := firstMeaning_reprPoint hq a (s.flatMap (reprPoint q) ++ q :: r)
    rw [← List.append_assoc, ← List.flatMap_cons, h] at ha
    cases t with
    | nil =>
      rw [List.flatMap_nil, List.nil_append, hend] at ha
      cases ha
    | cons b t =>
      rw [List.flatMap_cons, List.append_assoc, firstMeaning_reprPoint hq b] at ha
      obtain rfl := Option.some.inj ha
      simp only [List.flatMap_cons, List.append_assoc] at h
      rw [ih (List.append_cancel_left h)]

/-- Two quoted strings with anything behind them differ if the strings do. -/
theorem strRepr_prefix_free {s t r r' : Str} (h : strRepr s ++ r = strRepr t ++ r') : s = t := by
  simp only [strRepr, List.cons_append, List.append_assoc, List.cons.injEq, List.nil_append] at h
  obtain ⟨hq, h⟩ := h
  rw [← hq] at h
  exact reprPoints_prefix_free (reprQuote_cases s) h

variable [PyFloat F]

theorem reprElems_context (xs ys : List (Json F)) : ∃ pre post : Str, ∀ x : Json F,
    reprElems (xs ++ x :: ys) = pre ++ (pyRepr x ++ post) := by
  induction xs with
  | nil => exact ⟨lit ", ", reprElems ys, fun x => rfl⟩
  | cons y xs ih =>
    obtain ⟨pre, post, h⟩ := ih
    refine ⟨lit ", " ++ (pyRepr y ++ pre), post, fun x => ?_⟩
    simp only [List.cons_append, reprElems, h x, List.append_assoc]

theorem reprMembers_context (k : Str) (xs ys : Members F) : ∃ pre post : Str, ∀ x : Json F,
    reprMembers (xs ++ (k, x) :: ys) = pre ++ (pyRepr x ++ post) := by
  induction xs with
  | nil =>
    refine ⟨lit ", " ++ (strRepr k ++ lit ": "), reprMembers ys, fun x => ?_⟩
    simp only [List.nil_append, reprMembers, List.append_assoc]
  | cons kv xs ih =>
    obtain ⟨pre, post, h⟩ := ih
    obtain ⟨k', v⟩ := kv
    refine ⟨lit ", " ++ (strRepr k' ++ (lit ": " ++ (pyRepr v ++ pre))), post, fun x => ?_⟩
    simp only [List.cons_append, reprMembers, h x, List.append_assoc]

theorem pyRepr_arr_context (xs ys : List (Json F)) : ∃ pre post : Str, ∀ x : Json F,
    pyRepr (.arr (xs ++ x :: ys)) = pre ++ (pyRepr x ++ post) := by
  cases xs with
  | nil => exact ⟨[openBracket], reprElems ys, fun x => rfl⟩
  | cons y xs =>
    obtain ⟨pre, post, h⟩ := reprElems_context xs ys
    refine ⟨openBracket :: (pyRepr y ++ pre), post, fun x => ?_⟩
    simp only [List.cons_append, pyRepr, h x, List.append_assoc]

theorem pyRepr_obj_context (k : Str) (xs ys : Members F) : ∃ pre post : Str, ∀ x : Json F,
    pyRepr (.obj (xs ++ (k, x) :: ys)) = pre ++ (pyRepr x ++ post) := by
  cases xs with
  | nil =>
    refine ⟨openBrace :: (strRepr k ++ lit ": "), reprMembers ys, fun x => ?_⟩
    simp only [List.nil_append, pyRepr, List.cons_append, List.append_assoc]
  | cons kv xs =>
    obtain ⟨pre, post, h⟩ := reprMembers_context k xs ys
    obtain ⟨k', v⟩ := kv
    refine ⟨openBrace :: (strRepr k' ++ (lit ": " ++ (pyRepr v ++ pre))), post, fun x => ?_⟩
    simp only [List.cons_append, pyRepr, h x, List.append_assoc]

/-- A value in which an object has two members can be written in two ways. -/
theorem exists_reordering (j : Json F) (hwf : WF j) (h : ¬ OrderFree j) :
    ∃ j', Reordering j j' ∧ pyRepr j' ≠ pyRepr j := by
  induction j using inside_induction with
  | null | bool | int | float | str => exact absurd trivial h
  | arr xs ih =>
    simp only [OrderFree, orderFreeElems_iff, not_forall] at h
    obtain ⟨x, hx, hfree⟩ := h
    obtain ⟨x', hre, hne⟩ := ih x hx (wfElems_iff.mp hwf x hx) hfree
    obtain ⟨as, bs, rfl⟩ := List.append_of_mem hx
    obtain ⟨pre, post, hrepr⟩ := pyRepr_arr_context (F := F) as bs
    refine ⟨.arr (as ++ x' :: bs), reordering_arr hre as bs, ?_⟩
    rw [hrepr, hrepr]
    exact context_ne hne
  | obj m ih =>
    by_cases hinside : ∀ kv ∈ m, OrderFree kv.2
    · -- the object itself has two members: exchange the first two
      have hlen : ¬ m.length ≤ 1 := fun hl => h ⟨hl, orderFreeMembers_iff.mpr hinside⟩
      match m, hlen, hwf with
      | (k, v) :: (k', v') :: m, _, hwf =>
        refine ⟨.obj ((k', v') :: (k, v) :: m), reordering_swap _ _ m hwf.1, ?_⟩
        intro he
        simp only [pyRepr, List.cons.injEq, true_and] at he
        have hk : k' = k := strRepr_prefix_free he
        have hnodup := hwf.1
        simp [Members.keys, hk] at hnodup
      | [], hlen, _ => exact absurd (by simp) hlen
      | [_], hlen, _ => exact absurd (by simp) hlen
    · simp only [not_forall] at hinside
      obtain ⟨⟨k, x⟩, hx, hfree⟩ := hinside
      obtain ⟨x', hre, hne⟩ := ih (k, x) hx (wfMembers_iff.mp hwf.2 (k, x) hx).2 hfree
      obtain ⟨as, bs, rfl⟩ := List.append_of_mem hx
      obtain ⟨pre, post, hrepr⟩ := pyRepr_obj_context k as bs
      refine ⟨.obj (as ++ (k, x') :: bs), reordering_obj hre k as bs, ?_⟩
      rw [hrepr, hrepr]
      exact context_ne hne

theorem pyStr_eq_pyRepr {j : Json F} (h : ¬ OrderFree j) : pyStr j = pyRepr j := by
  cases j with
  | str s => exact absurd trivial h
  | _ => rfl

theorem exists_reordering_str {j : Json F} (hwf : WF j) (h : ¬ OrderFree j) :
    ∃ j', Reordering j j' ∧ pyStr j' ≠ pyStr j := by
  obtain ⟨j', hre, hne⟩ := exists_reordering j hwf h
  have h' : ¬ OrderFree j' := by
    rw [← orderFree_sorted, hre.sorted, orderFree_sorted]
    exact h
  exact ⟨j', hre, by rwa [pyStr_eq_pyRepr h, pyStr_eq_pyRepr h']⟩

/-- A text that no fixed element has can be avoided by reordering the others. -/
theorem exists_elems_avoiding {xs : List (Json F)} {text : Str} (hwf : ∀ x ∈ xs, WF x)
    (hfixed : ∀ x ∈ xs, OrderFree x → pyStr x ≠ text) :
    ∃ ys, List.Forall₂ Reordering xs ys ∧ ∀ y ∈ ys, pyStr y ≠ text := by
  induction xs with
  | nil => exact ⟨[], .nil, by simp⟩
  | cons x xs ih =>
    obtain ⟨ys, hys, havoid⟩ := ih (fun y hy => hwf y (List.mem_cons_of_mem x hy))
      (fun y hy => hfixed y (List.mem_cons_of_mem x hy))
    have hx : ∃ x', Reordering x x' ∧ pyStr x' ≠ text := by
      by_cases he : pyStr x = text
      · have hfree : ¬ OrderFree x := fun hf => hfixed x List.mem_cons_self hf he
        obtain ⟨x', hre, hne⟩ := exists_reordering_str (hwf x List.mem_cons_self) hfree
        exact ⟨x', hre, he ▸ hne⟩
      · exact ⟨x, Reordering.refl x, he⟩
    obtain ⟨x', hre, hne⟩ := hx
    refine ⟨x' :: ys, .cons hre hys, ?_⟩
    intro y hy
    rcases List.mem_cons.mp hy with rfl | hy
    · exact hne
    · exact havoid y hy

end Repr

end Json

end Support
