import Mathlib.Data.List.Basic
import Mathlib.Data.List.Sort
import Mathlib.Order.Defs.LinearOrder

/-!
# Selections from a sorted list

Rows are selected, sorted by comparators one after the other, and cut to a page. A
sort is any arrangement in which no row stands before a smaller one. Where only
equal rows tie, there is one such arrangement, so its pages are determined.
`nearest k` keeps the `k` best scored elements, ties in the order of the list.
Keeping only some elements before the cut or after it gives the same exactly when
the cut is not crowded by the others.
-/

set_option autoImplicit false

/-! ## Pages -/

namespace Support.SortedPages

universe u v
variable {α : Type u} {β : Type v}

/-! ## Comparators -/

/-- The first comparator that tells two rows apart decides. -/
def lexicographic : List (α → α → Ordering) → α → α → Ordering
  | [], _, _ => .eq
  | cmp :: cmps, a, b => (cmp a b).then (lexicographic cmps a b)

theorem transCmp_lexicographic {cmps : List (α → α → Ordering)} (h : ∀ cmp ∈ cmps, Std.TransCmp cmp) :
    Std.TransCmp (lexicographic cmps) := by
  induction cmps with
  | nil => exact { eq_swap := rfl, isLE_trans := fun _ _ => rfl }
  | cons cmp cmps ih =>
    have hfirst : Std.TransCmp cmp := h cmp List.mem_cons_self
    have hrest : Std.TransCmp (lexicographic cmps) := ih fun c hc => h c (List.mem_cons_of_mem cmp hc)
    exact inferInstanceAs (Std.TransCmp (compareLex cmp (lexicographic cmps)))

theorem transCmp_on {cmp : β → β → Ordering} (h : Std.TransCmp cmp) (f : α → β) :
    Std.TransCmp fun a b => cmp (f a) (f b) where
  eq_swap := h.eq_swap
  isLE_trans := h.isLE_trans

/-! ## Arrangements -/

/-- The same rows, with none before a smaller one. -/
structure Arranged (cmp : α → α → Ordering) (rows sorted : List α) : Prop where
  perm : sorted.Perm rows
  ordered : sorted.Pairwise fun a b => (cmp a b).isLE = true

/-- Only equal rows tie. -/
def Total (cmp : α → α → Ordering) (rows : List α) : Prop := ∀ a ∈ rows, ∀ b ∈ rows, cmp a b = .eq → a = b

def sort (cmp : α → α → Ordering) (rows : List α) : List α := rows.mergeSort fun a b => (cmp a b).isLE

section Arrangements
variable {cmp : α → α → Ordering} {rows sorted : List α}

theorem arranged_sort (h : Std.TransCmp cmp) (rows : List α) : Arranged cmp rows (sort cmp rows) where
  perm := List.mergeSort_perm rows _
  ordered := by
    apply List.pairwise_mergeSort
    · intro a b c hab hbc
      exact h.isLE_trans hab hbc
    · intro a b
      rw [h.eq_swap]
      cases cmp b a <;> rfl

theorem Total.filter (h : Total cmp rows) (p : α → Bool) : Total cmp (rows.filter p) := by
  intro a ha b hb
  exact h a (List.mem_of_mem_filter ha) b (List.mem_of_mem_filter hb)

/-- There is one arrangement. -/
theorem Arranged.eq_sort (h : Std.TransCmp cmp) (hs : Arranged cmp rows sorted) (ht : Total cmp rows) :
    sorted = sort cmp rows := by
  have hsort := arranged_sort h rows
  have hperm : sorted.Perm (sort cmp rows) := hs.perm.trans hsort.perm.symm
  refine hperm.eq_of_pairwise ?_ hs.ordered hsort.ordered
  intro a b ha hb hab hba
  apply ht a (hs.perm.subset ha) b (hsort.perm.subset hb)
  exact Std.OrientedCmp.isLE_antisymm hab hba

end Arrangements

/-! ## Pages -/

/-- The rows from an offset on, at most as many as the limit if there is one. -/
def page (limit : Option Nat) (offset : Nat) (rows : List α) : List α :=
  match limit with
  | none => rows.drop offset
  | some n => (rows.drop offset).take n

theorem mem_of_mem_page {limit : Option Nat} {offset : Nat} {rows : List α} {a : α} (h : a ∈ page limit offset rows) :
    a ∈ rows := by
  cases limit with
  | none => exact List.mem_of_mem_drop h
  | some n => exact List.mem_of_mem_drop (List.mem_of_mem_take h)

end Support.SortedPages

/-! ## The nearest few -/

namespace Support.NearestNeighbours

variable {α S : Type} [LinearOrder S] (score : α → S)

/-- `a` may stand before `b`. -/
def Nearer (a b : α) : Prop := score b ≤ score a

instance : DecidableRel (Nearer score) := fun a b => inferInstanceAs (Decidable (score b ≤ score a))

def ranked (xs : List α) : List α := xs.insertionSort (Nearer score)

def nearest (k : Nat) (xs : List α) : List α := (ranked score xs).take k

/-- Nobody is kept behind the cut, or everybody before it is. -/
def NotCrowded (keep : α → Bool) (k : Nat) (xs : List α) : Prop :=
  (∀ x ∈ (ranked score xs).drop k, keep x = false) ∨ ∀ x ∈ (ranked score xs).take k, keep x = true

variable {score} {keep : α → Bool}

theorem nearer_trans {a b c : α} (hab : Nearer score a b) (hbc : Nearer score b c) : Nearer score a c :=
  le_trans hbc hab

theorem pairwise_ranked (xs : List α) : (ranked score xs).Pairwise (Nearer score) := by
  have htotal : Std.Total (Nearer score) := ⟨fun a b => (le_total (score a) (score b)).symm⟩
  have htrans : IsTrans α (Nearer score) := ⟨fun _ _ _ => nearer_trans⟩
  exact List.pairwise_insertionSort _ xs

theorem filter_orderedInsert (a : α) {xs : List α} (hs : xs.Pairwise (Nearer score)) :
    (xs.orderedInsert (Nearer score) a).filter keep =
      if keep a then (xs.filter keep).orderedInsert (Nearer score) a else xs.filter keep := by
  induction xs with
  | nil => cases h : keep a <;> simp [h]
  | cons b xs ih =>
    obtain ⟨hb, hs⟩ := List.pairwise_cons.mp hs
    by_cases hab : Nearer score a b
    · rw [List.orderedInsert_cons_of_le _ _ hab, List.filter_cons]
      split
      · -- `a` stands before all of the sorted list, so before what is kept of it
        have hall : ∀ x ∈ (b :: xs).filter keep, Nearer score a x := by
          intro x hx
          rcases List.mem_cons.mp (List.mem_of_mem_filter hx) with rfl | hx
          · exact hab
          · exact nearer_trans hab (hb x hx)
        cases hf : (b :: xs).filter keep with
        | nil => rfl
        | cons c cs => rw [List.orderedInsert_cons_of_le _ _ (hall c (hf ▸ List.mem_cons_self))]
      · rfl
    · rw [List.orderedInsert_of_not_le _ _ hab, List.filter_cons, ih hs]
      cases hkb : keep b with
      | false => simp [hkb]
      | true =>
        cases hka : keep a with
        | false => simp [hkb]
        | true => simp [hkb, List.orderedInsert_of_not_le _ _ hab]

/-- Ranking is stable: what is kept is ranked as it would be alone. -/
theorem filter_ranked (xs : List α) : (ranked score xs).filter keep = ranked score (xs.filter keep) := by
  induction xs with
  | nil => rfl
  | cons a xs ih =>
    have hcons : ranked score (a :: xs) = (ranked score xs).orderedInsert (Nearer score) a := rfl
    rw [hcons, filter_orderedInsert a (pairwise_ranked xs), ih, List.filter_cons]
    split
    · rfl
    · rfl

/-- The cut of a filter and the filter of a cut, for any list. -/
theorem length_filter_take_iff (k : Nat) (xs : List α) :
    ((xs.take k).filter keep).length = ((xs.filter keep).take k).length ↔
      (∀ x ∈ xs.drop k, keep x = false) ∨ ∀ x ∈ xs.take k, keep x = true := by
  have hsplit : (xs.filter keep).length = ((xs.take k).filter keep).length + ((xs.drop k).filter keep).length := by
    rw [← List.length_append, ← List.filter_append, List.take_append_drop]
  have hnone : ((xs.drop k).filter keep).length = 0 ↔ ∀ x ∈ xs.drop k, keep x = false := by
    rw [List.length_eq_zero_iff, List.filter_eq_nil_iff]
    exact forall₂_congr fun x _ => iff_of_eq (Bool.not_eq_true _)
  have hall : ((xs.take k).filter keep).length = (xs.take k).length ↔ ∀ x ∈ xs.take k, keep x = true :=
    List.length_filter_eq_length_iff
  have hcut := List.length_filter_le keep (xs.take k)
  have hrest := List.length_filter_le keep (xs.drop k)
  have hlen : (xs.take k).length = min k xs.length := List.length_take
  have hlen' : ((xs.filter keep).take k).length = min k (xs.filter keep).length := List.length_take
  rw [List.length_drop] at hrest
  rw [← hnone, ← hall]
  omega

theorem filter_take_eq (k : Nat) {xs : List α}
    (h : (∀ x ∈ xs.drop k, keep x = false) ∨ ∀ x ∈ xs.take k, keep x = true) :
    (xs.take k).filter keep = (xs.filter keep).take k := by
  have hlen := (length_filter_take_iff k xs).mpr h
  have hp : (xs.take k).filter keep <+: xs.filter keep := by
    refine ⟨(xs.drop k).filter keep, ?_⟩
    rw [← List.filter_append, List.take_append_drop]
  rw [List.prefix_iff_eq_take.mp hp, hlen, List.length_take]
  apply List.take_eq_take_iff.mpr
  omega

/-- The best of those kept, unless the cut is crowded. -/
theorem filter_nearest (k : Nat) {xs : List α} (h : NotCrowded score keep k xs) :
    (nearest score k xs).filter keep = nearest score k (xs.filter keep) := by
  rw [nearest, nearest, ← filter_ranked]
  exact filter_take_eq k h

theorem notCrowded_of_length {k : Nat} {xs : List α}
    (h : ((nearest score k xs).filter keep).length = (nearest score k (xs.filter keep)).length) :
    NotCrowded score keep k xs := by
  rw [nearest, nearest, ← filter_ranked] at h
  exact (length_filter_take_iff k (ranked score xs)).mp h

end Support.NearestNeighbours
