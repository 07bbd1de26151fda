import IsaCloud.Support.Dict

/-!
# Writing and dropping many keys

A reconciliation writes the wanted entries into a store one after the other and
then drops the keys it finds superfluous. What is left under a key depends on the
last write to it and on whether it was dropped; entries that are there already
and keys that are absent change nothing.
-/

namespace Support.Dict

set_option autoImplicit false

universe u v
variable {K : Type u} {V : Type v} [DecidableEq K]

theorem mem_entries_iff {d : Dict K V} {k : K} {v : V} : (k, v) ∈ d.entries ↔ d.get k = some v := by
  constructor
  · intro h
    exact find_of_mem d.nodup h
  · intro h
    have hk : k ∈ d.keys := mem_keys.mpr (by rw [h]; rfl)
    obtain ⟨e, he, rfl⟩ := List.mem_map.mp hk
    have hv : d.get e.1 = some e.2 := find_of_mem d.nodup he
    rw [hv] at h
    rw [← Option.some.inj h]
    exact he

theorem assign_eq_self {es : List (K × V)} {k : K} {v : V} (h : find es k = some v) : assign es k v = es := by
  induction es with
  | nil => cases h
  | cons e es ih =>
    rw [find] at h
    rw [assign]
    by_cases hk : e.1 = k
    · rw [if_pos hk] at h ⊢
      rw [← Option.some.inj h]
    · rw [if_neg hk] at h ⊢
      rw [ih h]

theorem set_eq_self {d : Dict K V} {k : K} {v : V} (h : d.get k = some v) : d.set k v = d := by
  obtain ⟨es, hn⟩ := d
  have hes : assign es k v = es := assign_eq_self h
  simp only [set, hes]

theorem pop_eq_self {d : Dict K V} {k : K} (h : d.get k = none) : d.pop k = d := by
  obtain ⟨es, hn⟩ := d
  have hes : es.filter (fun e => !decide (e.1 = k)) = es := by
    apply List.filter_eq_self.mpr
    intro e he
    have hne : e.1 ≠ k := by
      intro hk
      have hsome := find_of_mem hn he
      rw [hk] at hsome
      exact absurd (hsome.symm.trans h) (Option.some_ne_none _)
    simpa using hne
  simp only [pop, restrict, hes]

/-! ## Many writes -/

def putAll (d : Dict K V) (ps : List (K × V)) : Dict K V := ps.foldl (fun d p => d.set p.1 p.2) d

@[simp] theorem putAll_nil (d : Dict K V) : d.putAll [] = d := rfl

@[simp] theorem putAll_cons (d : Dict K V) (p : K × V) (ps : List (K × V)) :
    d.putAll (p :: ps) = (d.set p.1 p.2).putAll ps := rfl

theorem putAll_append (d : Dict K V) (ps qs : List (K × V)) : d.putAll (ps ++ qs) = (d.putAll ps).putAll qs :=
  List.foldl_append

theorem get_putAll_of_not_mem {d : Dict K V} {ps : List (K × V)} {k : K} (h : k ∉ ps.map Prod.fst) :
    (d.putAll ps).get k = d.get k := by
  induction ps generalizing d with
  | nil => rfl
  | cons p ps ih =>
    rw [List.map_cons, List.mem_cons, not_or] at h
    rw [putAll_cons, ih h.2, get_set_of_ne d p.2 h.1]

/-- The last write to a key stays. -/
theorem get_putAll_last {d : Dict K V} {pre post : List (K × V)} {k : K} {v : V} (h : k ∉ post.map Prod.fst) :
    (d.putAll (pre ++ (k, v) :: post)).get k = some v := by
  rw [putAll_append, putAll_cons, get_putAll_of_not_mem h, get_set_self]

theorem get_putAll_of_nodup {d : Dict K V} {ps : List (K × V)} (hn : (ps.map Prod.fst).Nodup) {p : K × V} (h : p ∈ ps) :
    (d.putAll ps).get p.1 = some p.2 := by
  obtain ⟨pre, post, rfl⟩ := List.append_of_mem h
  rw [List.map_append, List.map_cons] at hn
  have hpost : p.1 ∉ post.map Prod.fst := (List.nodup_cons.mp (List.nodup_append.mp hn).2.1).1
  exact get_putAll_last hpost

theorem putAll_eq_self {d : Dict K V} {ps : List (K × V)} (h : ∀ p ∈ ps, d.get p.1 = some p.2) : d.putAll ps = d := by
  induction ps with
  | nil => rfl
  | cons p ps ih =>
    rw [putAll_cons, set_eq_self (h p (List.mem_cons_self ..))]
    exact ih fun q hq => h q (List.mem_cons_of_mem _ hq)

/-! ## Many drops -/

def dropAll (d : Dict K V) (ks : List K) : Dict K V := ks.foldl pop d

@[simp] theorem dropAll_nil (d : Dict K V) : d.dropAll [] = d := rfl

@[simp] theorem dropAll_cons (d : Dict K V) (k : K) (ks : List K) : d.dropAll (k :: ks) = (d.pop k).dropAll ks := rfl

theorem get_dropAll (d : Dict K V) (ks : List K) (k : K) :
    (d.dropAll ks).get k = if k ∈ ks then none else d.get k := by
  induction ks generalizing d with
  | nil => rfl
  | cons k' ks ih =>
    rw [dropAll_cons, ih, get_pop]
    by_cases hk : k ∈ ks
    · rw [if_pos hk, if_pos (List.mem_cons_of_mem _ hk)]
    · rw [if_neg hk]
      by_cases hkk : k = k'
      · rw [if_pos hkk, if_pos (hkk ▸ List.mem_cons_self ..)]
      · rw [if_neg hkk, if_neg (fun h => (List.mem_cons.mp h).elim hkk hk)]

theorem dropAll_eq_self {d : Dict K V} {ks : List K} (h : ∀ k ∈ ks, d.get k = none) : d.dropAll ks = d := by
  induction ks with
  | nil => rfl
  | cons k ks ih =>
    rw [dropAll_cons, pop_eq_self (h k (List.mem_cons_self ..))]
    exact ih fun k' hk' => h k' (List.mem_cons_of_mem _ hk')

end Support.Dict
