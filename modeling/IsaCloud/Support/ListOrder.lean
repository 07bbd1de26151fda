import Mathlib.Data.List.Nodup
import Mathlib.Data.List.Sublists
import Mathlib.Data.List.Perm.Subperm

/-!
# Lists that change without reordering

A list from which elements are taken, or to which new ones are appended, keeps
the relative order of the elements that stay.
-/

namespace Support

set_option autoImplicit false

universe u
variable {α : Type u}

/-- `x` comes before `y`. -/
def Before (l : List α) (x y : α) : Prop := [x, y].Sublist l

/-- A list keeps its order when elements go or when new ones are appended. -/
inductive KeepsOrder : List α → List α → Prop where
  | shrink (l : List α) (p : α → Bool) : KeepsOrder l (l.filter p)
  | grow (l added : List α) : KeepsOrder l (l ++ added)

theorem KeepsOrder.refl (l : List α) : KeepsOrder l l := by
  simpa using KeepsOrder.grow l []

theorem Before.keep {l l' : List α} {x y : α} (h : Before l x y) (hk : KeepsOrder l l')
    (hx : x ∈ l') (hy : y ∈ l') : Before l' x y := by
  cases hk with
  | shrink p =>
    have hpx := (List.mem_filter.mp hx).2
    have hpy := (List.mem_filter.mp hy).2
    simpa [Before, hpx, hpy] using List.Sublist.filter p h
  | grow added => exact h.trans (List.sublist_append_left l added)

/-- All of `passed` comes before `y`, so `y` stands at or behind the cursor. -/
theorem length_le_of_before {passed a b : List α} {y : α} (hn : (a ++ y :: b).Nodup)
    (hp : passed.Nodup) (h : ∀ x ∈ passed, Before (a ++ y :: b) x y) : passed.length ≤ a.length := by
  have hsub : passed ⊆ a := by
    intro x hx
    have hb : Before (a ++ y :: b) x y := h x hx
    obtain ⟨u, v, huv, hu, hv⟩ := List.cons_sublist_iff.mp hb
    rw [List.singleton_sublist] at hv
    by_contra hxa
    -- then `y` occurs behind `x`, which is not in `a`, so it occurs twice
    have hyu : y ∉ u := by
      intro hyu
      rw [huv, List.nodup_append] at hn
      exact hn.2.2 y hyu y hv rfl
    have hy : y ∈ a ++ y :: b := by simp
    have hpre : u <+: a ++ y :: b := ⟨v, huv.symm⟩
    rcases List.prefix_or_prefix_of_prefix hpre (List.prefix_append a (y :: b)) with hua | hau
    · exact hxa (hua.subset hu)
    · obtain ⟨w, rfl⟩ := hau
      rw [List.append_assoc, List.append_cancel_left_eq] at huv
      cases w with
      | nil => exact hxa (by simpa using hu)
      | cons z w =>
        rw [List.cons_append, List.cons.injEq] at huv
        exact hyu (by simp [huv.1])
  exact (hp.subperm hsub).length_le


/-- Where nothing came or went, the kept order leaves everything in its place. -/
theorem KeepsOrder.filter_eq {l l' : List α} (h : KeepsOrder l l') (hn : l'.Nodup) {p : α → Bool}
    (hp : ∀ x, p x = true → (x ∈ l' ↔ x ∈ l)) : l'.filter p = l.filter p := by
  cases h with
  | shrink q =>
    rw [List.filter_filter]
    apply List.filter_congr
    intro x hx
    cases hpx : p x with
    | false => rfl
    | true =>
      have hq := (List.mem_filter.mp ((hp x hpx).mpr hx)).2
      rw [hq]
      rfl
  | grow added =>
    rw [List.filter_append]
    have hnone : added.filter p = [] := by
      rw [List.filter_eq_nil_iff]
      intro x hx hpx
      have hl : x ∈ l := (hp x hpx).mp (List.mem_append_right l hx)
      rw [List.nodup_append] at hn
      exact hn.2.2 x hl x hx rfl
    rw [hnone, List.append_nil]

/-- `l` with `k` kept or appended, or taken out. -/
def place [DecidableEq α] (l : List α) (k : α) (present : Bool) : List α :=
  if present then (if k ∈ l then l else l ++ [k]) else l.filter fun x => decide (x ≠ k)

theorem KeepsOrder.eq_place [DecidableEq α] {l l' : List α} (h : KeepsOrder l l') (hn : l'.Nodup) {k : α}
    (hk : ∀ x, x ≠ k → (x ∈ l' ↔ x ∈ l)) {present : Bool} (hp : present = true ↔ k ∈ l') :
    l' = place l k present := by
  cases h with
  | shrink q =>
    rw [place]
    by_cases hkl : k ∈ l.filter q
    · have hl := (List.mem_filter.mp hkl).1
      rw [if_pos (hp.mpr hkl), if_pos hl, List.filter_eq_self]
      intro x hx
      by_cases hxk : x = k
      · rw [hxk]
        exact (List.mem_filter.mp hkl).2
      · exact (List.mem_filter.mp ((hk x hxk).mpr hx)).2
    · rw [if_neg (fun h => hkl (hp.mp h))]
      apply List.filter_congr
      intro x hx
      by_cases hxk : x = k
      · have hq : q x = false := by
          cases hqx : q x with
          | false => rfl
          | true => exact absurd (hxk ▸ List.mem_filter.mpr ⟨hx, hqx⟩) hkl
        rw [hq, hxk]
        simp
      · have hq := (List.mem_filter.mp ((hk x hxk).mpr hx)).2
        rw [hq]
        simp [hxk]
  | grow added =>
    rw [List.nodup_append] at hn
    obtain ⟨-, hadd, hdis⟩ := hn
    have hall : ∀ x ∈ added, x = k := by
      intro x hx
      by_contra hxk
      exact hdis x ((hk x hxk).mp (List.mem_append_right l hx)) x hx rfl
    rw [place]
    cases added with
    | nil =>
      rw [List.append_nil] at hp ⊢
      by_cases hkl : k ∈ l
      · rw [if_pos (hp.mpr hkl), if_pos hkl]
      · rw [if_neg (fun h => hkl (hp.mp h)), eq_comm, List.filter_eq_self]
        intro x hx
        simp only [decide_eq_true_eq]
        exact fun he => hkl (he ▸ hx)
    | cons x added =>
      have hx : x = k := hall x List.mem_cons_self
      have hrest : added = [] := by
        cases added with
        | nil => rfl
        | cons y rest =>
          have hy : y = k := hall y (by simp)
          rw [hx, hy] at hadd
          simp at hadd
      have hkl : k ∉ l := fun hl => hdis k hl k (by simp [hx]) rfl
      rw [if_pos (hp.mpr (by simp [hx])), if_neg hkl, hx, hrest]

theorem filter_place [DecidableEq α] {l : List α} {k : α} {p : α → Bool} (hp : p k = true)
    (present : Bool) : (place l k present).filter p = place (l.filter p) k present := by
  rw [place, place]
  by_cases h : present = true
  · have hmem : k ∈ l.filter p ↔ k ∈ l := by simp [List.mem_filter, hp]
    by_cases hk : k ∈ l
    · rw [if_pos h, if_pos h, if_pos hk, if_pos (hmem.mpr hk)]
    · rw [if_pos h, if_pos h, if_neg hk, if_neg (fun hf => hk (hmem.mp hf)), List.filter_append]
      simp [hp]
  · rw [if_neg h, if_neg h, List.filter_filter, List.filter_filter]
    apply List.filter_congr
    intro x _
    exact Bool.and_comm _ _

end Support
