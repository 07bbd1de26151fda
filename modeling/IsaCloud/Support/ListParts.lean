import Mathlib.Data.List.Chain
import Mathlib.Data.List.DropRight
import Mathlib.Data.List.Flatten

/-!
# Parts of a list

Fields between delimiters, a list trimmed at both ends, pieces that are rewritten
one by one, and the levels between separators.
-/

set_option autoImplicit false

/-! ## Fields between delimiters -/

namespace Support.Delimited

variable {α : Type} {d : α}

theorem first_field_inj {u v a b : List α} (hu : d ∉ u) (hv : d ∉ v) (h : u ++ d :: a = v ++ d :: b) :
    u = v ∧ a = b := by
  induction u generalizing v with
  | nil =>
    cases v with
    | nil => exact ⟨rfl, (List.cons.inj h).2⟩
    | cons y v => exact absurd (List.mem_cons.mpr (.inl (List.cons.inj h).1)) hv
  | cons x u ih =>
    cases v with
    | nil => exact absurd (List.mem_cons.mpr (.inl (List.cons.inj h).1.symm)) hu
    | cons y v =>
      obtain ⟨rfl, htail⟩ := List.cons.inj h
      obtain ⟨rfl, hab⟩ := ih (fun hm => hu (List.mem_cons_of_mem x hm)) (fun hm => hv (List.mem_cons_of_mem x hm)) htail
      exact ⟨rfl, hab⟩

theorem last_field_inj {u v a b : List α} (hu : d ∉ u) (hv : d ∉ v) (h : a ++ d :: u = b ++ d :: v) :
    a = b ∧ u = v := by
  have hrev : u.reverse ++ d :: a.reverse = v.reverse ++ d :: b.reverse := by
    have := congrArg List.reverse h
    rwa [List.reverse_append, List.reverse_append, List.reverse_cons, List.reverse_cons, List.append_assoc,
      List.append_assoc, List.singleton_append, List.singleton_append] at this
  obtain ⟨huv, hab⟩ := first_field_inj (fun hm => hu (List.mem_reverse.mp hm)) (fun hm => hv (List.mem_reverse.mp hm)) hrev
  exact ⟨List.reverse_inj.mp hab, List.reverse_inj.mp huv⟩

end Support.Delimited

/-! ## Trimming -/

namespace Support

variable {α : Type} (p : α → Bool)

def trim (l : List α) : List α := (l.dropWhile p).rdropWhile p

theorem trim_isInfix (l : List α) : trim p l <:+: l :=
  (List.rdropWhile_prefix p _).isInfix.trans (List.dropWhile_suffix p).isInfix

theorem not_of_head?_trim {l : List α} {a : α} (h : (trim p l).head? = some a) : p a = false := by
  obtain ⟨t, ht⟩ := List.rdropWhile_prefix p (l.dropWhile p)
  have hfirst : (l.dropWhile p).head? = some a := by
    rw [← ht, List.head?_append]
    exact Option.or_eq_some_iff.mpr (Or.inl h)
  have hno := List.head?_dropWhile_not p l
  rw [hfirst] at hno
  exact hno

theorem not_of_getLast?_trim {l : List α} {a : α} (h : (trim p l).getLast? = some a) : p a = false := by
  have hno := List.head?_dropWhile_not p (l.dropWhile p).reverse
  rw [trim, List.rdropWhile, List.getLast?_reverse] at h
  rw [h] at hno
  exact hno

theorem trim_of_ends {l : List α} (hfirst : ∀ a, l.head? = some a → p a = false)
    (hlast : ∀ a, l.getLast? = some a → p a = false) : trim p l = l := by
  have hfront : l.dropWhile p = l := by
    cases l with
    | nil => rfl
    | cons a l =>
      apply List.dropWhile_cons_of_neg
      rw [hfirst a rfl]
      exact Bool.false_ne_true
  rw [trim, hfront]
  rcases List.eq_nil_or_concat' l with rfl | ⟨t, a, rfl⟩
  · rfl
  · apply List.rdropWhile_concat_neg
    rw [hlast a List.getLast?_concat]
    exact Bool.false_ne_true

end Support

/-! ## Rewriting piece by piece -/

namespace Support.TextPieces

variable {α β : Type}

/-- A rewriting that is local at every boundary of the pieces. -/
theorem rewrite_flatten {f : List α → List α} {Sep : List α → List α → Prop} (hnil : f [] = [])
    (hmore : ∀ x y z, Sep x y → Sep x (y ++ z)) (hlocal : ∀ x y, Sep x y → f (x ++ y) = f x ++ f y)
    {xs : List (List α)} (h : xs.IsChain Sep) : f xs.flatten = (xs.map f).flatten := by
  induction xs with
  | nil => exact hnil
  | cons x xs ih =>
    cases xs with
    | nil => simp only [List.flatten_cons, List.flatten_nil, List.append_nil, List.map_cons, List.map_nil]
    | cons y ys =>
      obtain ⟨hxy, hrest⟩ := List.isChain_cons_cons.mp h
      have hsep : Sep x (y :: ys).flatten := by
        rw [List.flatten_cons]
        exact hmore x y ys.flatten hxy
      rw [List.flatten_cons, hlocal x _ hsep, ih hrest]
      rfl

/-- Pieces that are never too long and long enough together are each long enough. -/
theorem length_eq_of_flatMap {f g : β → List α} {ts : List β} (hle : ∀ t ∈ ts, (f t).length ≤ (g t).length)
    (heq : (ts.flatMap f).length = (ts.flatMap g).length) : ∀ t ∈ ts, (f t).length = (g t).length := by
  have hsum : ∀ us : List β, (∀ t ∈ us, (f t).length ≤ (g t).length) →
      (us.flatMap f).length ≤ (us.flatMap g).length := by
    intro us
    induction us with
    | nil =>
      intro _
      exact Nat.le_refl _
    | cons u us ih =>
      intro h
      have hu := h u List.mem_cons_self
      have hus := ih fun t ht => h t (List.mem_cons_of_mem u ht)
      rw [List.flatMap_cons, List.flatMap_cons, List.length_append, List.length_append]
      omega
  induction ts with
  | nil =>
    intro t ht
    cases ht
  | cons u us ih =>
    have hu := hle u List.mem_cons_self
    have hus := hsum us fun t ht => hle t (List.mem_cons_of_mem u ht)
    rw [List.flatMap_cons, List.flatMap_cons, List.length_append, List.length_append] at heq
    intro t ht
    rcases List.mem_cons.mp ht with rfl | ht
    · omega
    · exact ih (fun t ht => hle t (List.mem_cons_of_mem u ht)) (by omega) t ht

end Support.TextPieces

/-! ## Levels -/

namespace Support.Levels

variable {α : Type} [DecidableEq α] {sep w : α}

/-- The part before the first separator, if there is one. -/
theorem cut_first (sep : α) (t : List α) : sep ∉ t ∨ ∃ u v, t = u ++ sep :: v ∧ sep ∉ u := by
  by_cases h : sep ∈ t
  · right
    obtain ⟨u, v, rfl, hu⟩ := List.eq_append_cons_of_mem h
    exact ⟨u, v, rfl, hu⟩
  · exact .inl h

/-- An induction on the levels of a list. -/
theorem levels_induction (sep : α) {motive : List α → Prop} (one : ∀ l, sep ∉ l → motive l)
    (more : ∀ l t, sep ∉ l → motive t → motive (l ++ sep :: t)) (t : List α) : motive t := by
  induction hn : t.length using Nat.strong_induction_on generalizing t with
  | _ n ih =>
    rcases cut_first sep t with hno | ⟨u, v, rfl, hu⟩
    · exact one t hno
    · apply more u v hu
      apply ih v.length _ v rfl
      rw [← hn, List.length_append, List.length_cons]
      omega

theorem mem_splitOn (hw : w ≠ sep) (t : List α) : w ∈ t ↔ ∃ l ∈ t.splitOn sep, w ∈ l := by
  induction t using levels_induction sep with
  | one l hl => rw [List.splitOn_eq_singleton hl]; simp
  | more l t hl ih =>
    rw [List.splitOn_append_cons_self_of_not_mem hl, List.mem_append, List.mem_cons, ih]
    simp [hw]

/-- A last character is one of the last level. -/
theorem splitOn_concat (hw : w ≠ sep) (t : List α) :
    ∃ ls l, t.splitOn sep = ls ++ [l] ∧ (t ++ [w]).splitOn sep = ls ++ [l ++ [w]] := by
  induction t using levels_induction sep with
  | one l hl =>
    have hl' : sep ∉ l ++ [w] := by
      rw [List.mem_append, List.mem_singleton]
      rintro (h | rfl)
      · exact hl h
      · exact hw rfl
    exact ⟨[], l, List.splitOn_eq_singleton hl, List.splitOn_eq_singleton hl'⟩
  | more l t hl ih =>
    obtain ⟨ls, l', ht, htw⟩ := ih
    refine ⟨l :: ls, l', ?_, ?_⟩
    · rw [List.splitOn_append_cons_self_of_not_mem hl, ht]
      rfl
    · rw [List.append_assoc, List.cons_append, List.splitOn_append_cons_self_of_not_mem hl, htw]
      rfl

/-- The last level is the end of the list. -/
theorem last_level_suffix {ls : List (List α)} {l t : List α} (h : t.splitOn sep = ls ++ [l]) : l <:+ t := by
  induction t using levels_induction sep generalizing ls with
  | one t ht =>
    rw [List.splitOn_eq_singleton ht] at h
    cases ls with
    | nil => exact (List.cons.inj h).1 ▸ List.suffix_refl _
    | cons l' ls =>
      have hlen := congrArg List.length h
      simp at hlen
  | more u t hu ih =>
    rw [List.splitOn_append_cons_self_of_not_mem hu] at h
    cases ls with
    | nil => exact absurd (List.cons.inj h).2 (List.splitOn_ne_nil sep t)
    | cons l' ls =>
      have hin := ih (List.cons.inj h).2
      exact hin.trans ((List.suffix_cons sep t).trans (List.suffix_append u _))

/-! ### A character that is a level of its own -/

/-- Somewhere the character stands beside another one of its level. -/
def crowded (sep w : α) : List α → Bool
  | a :: b :: t => decide (a = w ∧ b ≠ sep) || decide (b = w ∧ a ≠ sep) || crowded sep w (b :: t)
  | _ => false

theorem crowded_cut (hw : w ≠ sep) (u v : List α) :
    crowded sep w (u ++ sep :: v) = (crowded sep w u || crowded sep w v) := by
  have hsep : crowded sep w (sep :: v) = crowded sep w v := by
    cases v with
    | nil => rfl
    | cons b v => simp [crowded, hw.symm]
  induction u with
  | nil => rw [List.nil_append, hsep]; rfl
  | cons a u ih =>
    cases u with
    | nil =>
      show (decide (a = w ∧ sep ≠ sep) || decide (sep = w ∧ a ≠ sep) || crowded sep w (sep :: v)) = _
      rw [hsep]
      simp [crowded, hw.symm]
    | cons b u =>
      have hrest : crowded sep w (b :: (u ++ sep :: v)) = (crowded sep w (b :: u) || crowded sep w v) := ih
      simp only [List.cons_append, crowded, hrest, Bool.or_assoc]

theorem crowded_level {l : List α} (hl : sep ∉ l) : crowded sep w l = false ↔ (w ∈ l → l = [w]) := by
  induction l with
  | nil => simp [crowded]
  | cons a l ih =>
    cases l with
    | nil => simp [crowded, eq_comm]
    | cons b l =>
      rw [List.mem_cons, not_or] at hl
      have hb : b ≠ sep := fun h => hl.2 (h ▸ List.mem_cons_self)
      rw [crowded, Bool.or_eq_false_iff, Bool.or_eq_false_iff, ih hl.2, decide_eq_false_iff_not, decide_eq_false_iff_not]
      constructor
      · rintro ⟨⟨ha, hb'⟩, hmore⟩ hmem
        rcases List.mem_cons.mp hmem with rfl | hmem
        · exact absurd ⟨rfl, hb⟩ ha
        · have hone := hmore hmem
          rw [List.cons.injEq] at hone
          exact absurd ⟨hone.1, Ne.symm hl.1⟩ hb'
      · intro h
        have hno : w ∉ a :: b :: l := fun hmem => List.cons_ne_nil b l (List.cons.inj (h hmem)).2
        rw [List.mem_cons, List.mem_cons, not_or, not_or] at hno
        refine ⟨⟨?_, ?_⟩, ?_⟩
        · rintro ⟨rfl, _⟩
          exact hno.1 rfl
        · rintro ⟨rfl, _⟩
          exact hno.2.1 rfl
        · intro hmem
          rcases List.mem_cons.mp hmem with rfl | hmem
          · exact absurd rfl hno.2.1
          · exact absurd hmem hno.2.2

/-- Every level that contains the character consists of it. -/
theorem crowded_iff (hw : w ≠ sep) (t : List α) :
    crowded sep w t = false ↔ ∀ l ∈ t.splitOn sep, w ∈ l → l = [w] := by
  induction t using levels_induction sep with
  | one l hl => rw [crowded_level hl, List.splitOn_eq_singleton hl]; simp
  | more l t hl ih =>
    rw [crowded_cut hw, Bool.or_eq_false_iff, crowded_level hl, ih, List.splitOn_append_cons_self_of_not_mem hl]
    simp

end Support.Levels
