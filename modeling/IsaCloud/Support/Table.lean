import Mathlib.Data.List.Nodup
import Mathlib.Data.List.Basic

/-!
# Tables with a primary key

A table is a list of rows in insertion order. `find` looks a row up by its key,
`update` rewrites the row with a key; an insertion is an append, and keeps the
key unique when the key is fresh.
-/

namespace Support.Table

set_option autoImplicit false

universe u v

section Keys
variable {R : Type u} {K : Type v} (key : R → K)

/-- The key is unique among the rows. -/
def Keyed (rows : List R) : Prop := (rows.map key).Nodup

variable {key} {rows : List R} {r : R}

theorem eq_of_mem (hk : Keyed key rows) {s : R} (hr : r ∈ rows) (hs : s ∈ rows)
    (h : key r = key s) : r = s :=
  List.inj_on_of_nodup_map hk hr hs h

theorem keyed_append (hk : Keyed key rows) (hr : key r ∉ rows.map key) : Keyed key (rows ++ [r]) := by
  rw [Keyed, List.map_append, List.map_singleton]
  refine List.nodup_append.mpr ⟨hk, List.nodup_singleton _, ?_⟩
  intro a ha b hb hab
  rw [List.mem_singleton.mp hb] at hab
  exact hr (hab ▸ ha)

end Keys

variable {R : Type u} {K : Type v} [DecidableEq K] (key : R → K)

def find (rows : List R) (k : K) : Option R := rows.find? fun r => decide (key r = k)

/-- `UPDATE … WHERE key = k`. -/
def update (rows : List R) (k : K) (f : R → R) : List R :=
  rows.map fun r => if key r = k then f r else r

variable {key} {rows : List R} {k : K} {r : R}

theorem mem_of_find (h : find key rows k = some r) : r ∈ rows ∧ key r = k := by
  have hk := List.find?_some h
  exact ⟨List.mem_of_find?_eq_some h, of_decide_eq_true hk⟩

theorem find_eq_none_iff : find key rows k = none ↔ k ∉ rows.map key := by
  simp only [find, List.find?_eq_none, decide_eq_true_eq, List.mem_map, not_exists, not_and]

theorem find_of_mem (hk : Keyed key rows) (hr : r ∈ rows) : find key rows (key r) = some r := by
  cases hf : find key rows (key r) with
  | none => exact absurd (List.mem_map_of_mem hr) (find_eq_none_iff.mp hf)
  | some s =>
    obtain ⟨hs, hks⟩ := mem_of_find hf
    rw [List.inj_on_of_nodup_map hk hs hr hks]

theorem find_eq_some_iff (hk : Keyed key rows) : find key rows k = some r ↔ r ∈ rows ∧ key r = k := by
  constructor
  · exact mem_of_find
  · rintro ⟨hr, rfl⟩
    exact find_of_mem hk hr

section Update
variable {f : R → R} (hf : ∀ s, key (f s) = key s)
include hf

theorem map_key_update (rows : List R) (k : K) : (update key rows k f).map key = rows.map key := by
  rw [update, List.map_map]
  apply List.map_congr_left
  intro s _
  simp only [Function.comp_apply]
  split
  · exact hf s
  · rfl

theorem keyed_update (hk : Keyed key rows) (k : K) : Keyed key (update key rows k f) := by
  rw [Keyed, map_key_update hf]
  exact hk

omit hf in
theorem mem_update {s : R} : s ∈ update key rows k f ↔
    (∃ r ∈ rows, key r = k ∧ s = f r) ∨ (s ∈ rows ∧ key s ≠ k) := by
  simp only [update, List.mem_map]
  constructor
  · rintro ⟨r, hr, rfl⟩
    split
    · rename_i h
      exact .inl ⟨r, hr, h, rfl⟩
    · rename_i h
      exact .inr ⟨hr, h⟩
  · rintro (⟨r, hr, h, rfl⟩ | ⟨hs, h⟩)
    · exact ⟨r, hr, if_pos h⟩
    · exact ⟨s, hs, if_neg h⟩

theorem find_update (rows : List R) (k k' : K) : find key (update key rows k f) k' =
    if k' = k then (find key rows k).map f else find key rows k' := by
  induction rows with
  | nil => simp [find, update]
  | cons s rows ih =>
    simp only [find, update] at ih ⊢
    rw [List.map_cons, List.find?_cons, List.find?_cons, List.find?_cons, ih]
    by_cases hs : key s = k
    · subst hs
      by_cases hk : k' = key s
      · simp [hk, hf]
      · simp [hk, hf, Ne.symm hk]
    · by_cases hk : k' = k
      · simp [hk, hs]
      · by_cases hsk : key s = k' <;> simp [hk, hs, hsk]

end Update

theorem find_append_fresh (hr : key r ∉ rows.map key) (k : K) :
    find key (rows ++ [r]) k = if key r = k then some r else find key rows k := by
  rw [find, List.find?_append]
  by_cases h : key r = k
  · subst h
    have hnone : rows.find? (fun s => decide (key s = key r)) = none := find_eq_none_iff.mpr hr
    simp [hnone]
  · simp [find, h]

theorem update_append (rows rows' : List R) (k : K) (f : R → R) :
    update key (rows ++ rows') k f = update key rows k f ++ update key rows' k f :=
  List.map_append

theorem update_singleton_of_ne (h : key r ≠ k) (f : R → R) : update key [r] k f = [r] := by
  rw [update, List.map_singleton, if_neg h]

/-- Two updates of one row that do not interfere can be swapped. -/
theorem update_comm {f g : R → R} (hf : ∀ s, key (f s) = key s) (hg : ∀ s, key (g s) = key s)
    (hfg : ∀ s, f (g s) = g (f s)) (rows : List R) (k : K) :
    update key (update key rows k g) k f = update key (update key rows k f) k g := by
  simp only [update, List.map_map]
  apply List.map_congr_left
  intro s _
  by_cases hs : key s = k
  · simp [hs, hf, hg, hfg]
  · simp [hs]

end Support.Table
