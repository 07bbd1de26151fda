import Mathlib.Algebra.Order.Ring.Int
import Mathlib.Data.List.Basic
import Mathlib.Data.List.Infix

/-!
# Occurrences of a pattern

The places of a text at which a pattern begins. An occurrence in two joined parts lies
in one of them or crosses the boundary, so the parts have as many occurrences as the
whole exactly when none crosses. A pattern with no border never overlaps itself.
-/

namespace Support.Occurrences

set_option autoImplicit false

universe u
variable {α : Type u} [DecidableEq α] {p x y : List α}

/-- The number of places at which the pattern begins. -/
def count (p : List α) : List α → Nat
  | [] => 0
  | c :: s => (if p <+: c :: s then 1 else 0) + count p s

/-- An occurrence begins at the end of `x` and goes on in `y`. -/
def Crosses (p x y : List α) : Prop := ∃ i, 0 < i ∧ i < p.length ∧ p.take i <:+ x ∧ p.drop i <+: y

/-- No proper end of the pattern is one of its beginnings. -/
def Unbordered (p : List α) : Prop := ∀ i < p.length, 0 < i → ¬ p.drop i <+: p

instance : Decidable (Unbordered p) := inferInstanceAs (Decidable (∀ i < p.length, 0 < i → ¬ p.drop i <+: p))

/-! ## Two parts -/

omit [DecidableEq α] in
theorem not_crosses_nil : ¬ Crosses p [] y := by
  rintro ⟨i, hpos, hlt, hx, _⟩
  have hlen := hx.length_le
  rw [List.length_take, List.length_nil] at hlen
  omega

omit [DecidableEq α] in
theorem Crosses.append_left (z : List α) (h : Crosses p x y) : Crosses p (z ++ x) y := by
  obtain ⟨i, hpos, hlt, hx, hy⟩ := h
  exact ⟨i, hpos, hlt, hx.trans (List.suffix_append z x), hy⟩

omit [DecidableEq α] in
/-- A pattern that begins a text lies in the first part or crosses into the second. -/
theorem prefix_append_cases (hx : x ≠ []) (h : p <+: x ++ y) : p <+: x ∨ Crosses p x y := by
  rcases Nat.lt_or_ge x.length p.length with hlt | hge
  · right
    obtain ⟨p', rfl⟩ : x <+: p := List.prefix_of_prefix_length_le (List.prefix_append x y) h (Nat.le_of_lt hlt)
    refine ⟨x.length, List.length_pos_iff.mpr hx, hlt, ?_, ?_⟩
    · rw [List.take_left]
    · rw [List.drop_left]
      exact (List.prefix_append_right_inj x).mp h
  · exact .inl (List.prefix_of_prefix_length_le h (List.prefix_append x y) hge)

theorem count_append_le (p x y : List α) : count p x + count p y ≤ count p (x ++ y) := by
  induction x with
  | nil => exact Nat.le_of_eq (Nat.zero_add _)
  | cons c x ih =>
    have hfirst : (if p <+: c :: x then 1 else 0) ≤ if p <+: c :: (x ++ y) then 1 else 0 := by
      by_cases h : p <+: c :: x
      · have hlonger : p <+: c :: (x ++ y) := h.trans (List.prefix_append (c :: x) y)
        rw [if_pos h, if_pos hlonger]
      · rw [if_neg h]
        exact Nat.zero_le _
    rw [List.cons_append, count, count]
    omega

theorem count_append (h : ¬ Crosses p x y) : count p (x ++ y) = count p x + count p y := by
  induction x with
  | nil => exact (Nat.zero_add _).symm
  | cons c x ih =>
    have hrest := ih fun hcross => h (hcross.append_left [c])
    have hfirst : p <+: c :: (x ++ y) ↔ p <+: c :: x := by
      constructor
      · intro hp
        exact (prefix_append_cases (List.cons_ne_nil c x) hp).resolve_right h
      · intro hp
        exact hp.trans (List.prefix_append (c :: x) y)
    rw [List.cons_append, count, count, hrest]
    simp only [hfirst]
    omega

theorem count_lt_append (h : Crosses p x y) : count p x + count p y < count p (x ++ y) := by
  obtain ⟨i, hpos, hlt, ⟨x₁, rfl⟩, hy⟩ := h
  induction x₁ with
  | nil =>
    have hlen : (p.take i).length = i := by
      rw [List.length_take]
      omega
    have hwhole : p <+: p.take i ++ y := by
      have hjoin : p <+: p.take i ++ y ↔ p.take i ++ p.drop i <+: p.take i ++ y := by rw [List.take_append_drop]
      exact hjoin.mpr ((List.prefix_append_right_inj _).mpr hy)
    have hshort : ¬ p <+: p.take i := by
      intro hp
      have hle := hp.length_le
      omega
    rw [List.nil_append]
    generalize p.take i = t at *
    cases t with
    | nil =>
      rw [List.length_nil] at hlen
      omega
    | cons c t =>
      have hmore := count_append_le p t y
      rw [List.cons_append] at hwhole ⊢
      rw [count, count, if_pos hwhole, if_neg hshort]
      omega
  | cons c x₁ ih =>
    rw [List.cons_append, List.cons_append, count, count]
    by_cases hp : p <+: c :: (x₁ ++ p.take i)
    · have hlonger : p <+: c :: (x₁ ++ p.take i ++ y) :=
        hp.trans (List.prefix_append (c :: (x₁ ++ p.take i)) y)
      rw [if_pos hp, if_pos hlonger]
      omega
    · rw [if_neg hp]
      omega

theorem count_append_iff : count p (x ++ y) = count p x + count p y ↔ ¬ Crosses p x y := by
  constructor
  · intro h hcross
    have hlt := count_lt_append hcross
    omega
  · exact count_append

theorem count_eq_zero_iff (hp : p ≠ []) {s : List α} : count p s = 0 ↔ ¬ p <:+: s := by
  induction s with
  | nil =>
    constructor
    · intro _ h
      exact hp (List.infix_nil.mp h)
    · intro _
      rfl
  | cons c s ih =>
    rw [count, Nat.add_eq_zero_iff, ih, List.infix_cons_iff, not_or]
    by_cases h : p <+: c :: s
    · rw [if_pos h]
      simp only [h, not_true_eq_false, false_and, Nat.one_ne_zero]
    · rw [if_neg h]
      simp only [h, not_false_eq_true, true_and]

/-! ## One occurrence -/

/-- Nothing is counted where nothing begins. -/
theorem count_append_right {s : List α} (h : ∀ i < x.length, ¬ p <+: (x ++ s).drop i) : count p (x ++ s) = count p s := by
  induction x with
  | nil => rfl
  | cons c x ih =>
    have hfirst : ¬ p <+: c :: (x ++ s) := h 0 (Nat.zero_lt_succ _)
    rw [List.cons_append, count, if_neg hfirst, Nat.zero_add]
    exact ih fun i hi => h (i + 1) (Nat.succ_lt_succ hi)

theorem count_self_append (hp : p ≠ []) (h : Unbordered p) (s : List α) : count p (p ++ s) = count p s + 1 := by
  have hlater : ∀ i < p.length, 0 < i → ¬ p <+: (p ++ s).drop i := by
    intro i hi hpos hocc
    rw [List.drop_append_of_le_length (Nat.le_of_lt hi)] at hocc
    apply h i hi hpos
    apply List.prefix_of_prefix_length_le (List.prefix_append _ s) hocc
    rw [List.length_drop]
    omega
  obtain ⟨c, p', hcons⟩ := List.exists_cons_of_ne_nil hp
  have hwhole : p <+: c :: (p' ++ s) := by
    rw [← List.cons_append, ← hcons]
    exact List.prefix_append p s
  have hrest : count p (p' ++ s) = count p s := by
    apply count_append_right
    intro i hi hocc
    apply hlater (i + 1)
    · rw [hcons, List.length_cons]
      omega
    · exact Nat.succ_pos i
    · rw [hcons, List.cons_append, List.drop_succ_cons, ← hcons]
      exact hocc
  have hsplit : p ++ s = c :: (p' ++ s) := by rw [hcons, List.cons_append]
  rw [hsplit, count, if_pos hwhole, hrest, Nat.add_comm]

/-! ## Many parts -/

/-- No occurrence crosses from a part into those after it. -/
def Separate (p : List α) : List (List α) → Prop
  | [] => True
  | x :: xs => ¬ Crosses p x xs.flatten ∧ Separate p xs

theorem sum_count_le (p : List α) (xs : List (List α)) : (xs.map (count p)).sum ≤ count p xs.flatten := by
  induction xs with
  | nil => exact Nat.le_refl 0
  | cons x xs ih =>
    have hle := count_append_le p x xs.flatten
    rw [List.map_cons, List.sum_cons, List.flatten_cons]
    omega

theorem count_flatten_iff {xs : List (List α)} : count p xs.flatten = (xs.map (count p)).sum ↔ Separate p xs := by
  induction xs with
  | nil => exact ⟨fun _ => trivial, fun _ => rfl⟩
  | cons x xs ih =>
    have hx := count_append_le p x xs.flatten
    have hxs := sum_count_le p xs
    rw [List.map_cons, List.sum_cons, List.flatten_cons, Separate, ← ih, ← count_append_iff]
    omega

end Support.Occurrences
