import Mathlib.Algebra.BigOperators.Group.List.Basic
import Mathlib.Algebra.Order.BigOperators.Group.List
import Mathlib.Algebra.Order.Group.Int
import Mathlib.Data.Nat.Basic
import Mathlib.Order.Bounds.Defs
import Mathlib.Tactic.Ring

/-!
# Limits and windows

An account with a limit grants each request as much as fits. However a demand is
split into requests, the same total is granted, and once a request is cut the
room is gone. Time is cut into windows of `n` units of `u` ticks each. The whole
units that are left of the window of a tick lead into the next window, and no
fewer do.
-/

set_option autoImplicit false

/-! ## Granting what room is left -/

namespace Support.Headroom

variable {limit current amount : Int}

def granted (limit current amount : Int) : Int := min amount (max 0 (limit - current))

/-- The grants of one request after the other. -/
def grants (limit : Int) : Int → List Int → List Int
  | _, [] => []
  | current, a :: as => granted limit current a :: grants limit (current + granted limit current a) as

theorem granted_nonneg (ha : 0 ≤ amount) : 0 ≤ granted limit current amount := by
  unfold granted
  omega

theorem granted_le : granted limit current amount ≤ amount := by
  unfold granted
  omega

/-- What is left after a first grant serves the rest of the demand. -/
theorem granted_add {a b : Int} (ha : 0 ≤ a) (hb : 0 ≤ b) :
    granted limit current a + granted limit (current + granted limit current a) b = granted limit current (a + b) := by
  unfold granted
  omega

theorem granted_eq_self_iff (ha : 0 < amount) : granted limit current amount = amount ↔ current + amount ≤ limit := by
  unfold granted
  omega

@[simp] theorem length_grants (as : List Int) : (grants limit current as).length = as.length := by
  induction as generalizing current with
  | nil => rfl
  | cons a as ih => rw [grants, List.length_cons, List.length_cons, ih]

theorem sum_grants {as : List Int} (has : ∀ a ∈ as, 0 ≤ a) :
    (grants limit current as).sum = granted limit current as.sum := by
  induction as generalizing current with
  | nil =>
    rw [grants, List.sum_nil, granted]
    omega
  | cons a as ih =>
    obtain ⟨ha, has⟩ := List.forall_mem_cons.mp has
    rw [grants, List.sum_cons, List.sum_cons, ih has, granted_add ha (List.sum_nonneg has)]

theorem bounded_grants (limit current : Int) {as : List Int} (has : ∀ a ∈ as, 0 ≤ a) :
    ∀ x ∈ as.zip (grants limit current as), 0 ≤ x.2 ∧ x.2 ≤ x.1 := by
  induction as generalizing current with
  | nil =>
    intro x hx
    cases hx
  | cons a as ih =>
    obtain ⟨ha, has⟩ := List.forall_mem_cons.mp has
    intro x hx
    rw [grants, List.zip_cons_cons] at hx
    rcases List.mem_cons.mp hx with rfl | hx
    · exact ⟨granted_nonneg ha, granted_le⟩
    · exact ih _ has x hx

/-- No room, no grants. -/
theorem grants_of_full {as : List Int} (has : ∀ a ∈ as, 0 ≤ a) (hfull : limit ≤ current) :
    ∀ g ∈ grants limit current as, g = 0 := by
  induction as with
  | nil =>
    intro g hg
    cases hg
  | cons a as ih =>
    obtain ⟨ha, has⟩ := List.forall_mem_cons.mp has
    have hzero : granted limit current a = 0 := by
      unfold granted
      omega
    rw [grants, hzero, Int.add_zero]
    exact List.forall_mem_cons.mpr ⟨rfl, ih has⟩

/-- After a cut request, nothing more is granted. -/
theorem exhausted_grants (limit current : Int) {as : List Int} (has : ∀ a ∈ as, 0 ≤ a) :
    (as.zip (grants limit current as)).Pairwise fun x y => x.2 < x.1 → y.2 = 0 := by
  induction as generalizing current with
  | nil => exact .nil
  | cons a as ih =>
    obtain ⟨ha, has⟩ := List.forall_mem_cons.mp has
    rw [grants, List.zip_cons_cons]
    refine .cons ?_ (ih _ has)
    intro y hy hcut
    have hfull : limit ≤ current + granted limit current a := by
      dsimp only at hcut
      unfold granted at hcut ⊢
      omega
    exact grants_of_full has hfull y.2 (List.of_mem_zip hy).2

end Support.Headroom

/-! ## Counting down to the end of a window -/

namespace Support

/-- The units left of the window of `t`, a unit that has begun counted in full. -/
def countdown (n u t : Nat) : Nat := n - t % (n * u) / u

section Countdown
variable {n u : Nat} (hn : 0 < n) (hu : 0 < u) (t : Nat)
include hn hu

theorem elapsed_lt : t % (n * u) / u < n := by
  apply Nat.div_lt_of_lt_mul
  rw [Nat.mul_comm u n]
  exact Nat.mod_lt t (Nat.mul_pos hn hu)

theorem countdown_pos : 0 < countdown n u t := Nat.sub_pos_of_lt (elapsed_lt hn hu t)

/-- A later tick, by what has elapsed of the window, in units and in ticks of one unit. -/
theorem add_units_div (s : Nat) :
    (t + s * u) / (n * u) = t / (n * u) + (t % (n * u) / u + s) / n := by
  have hdiv : t + s * u = (t % (n * u) / u + s) * u + t % (n * u) % u + n * u * (t / (n * u)) := by
    have hwindow := Nat.div_add_mod t (n * u)
    have hunit := Nat.div_add_mod (t % (n * u)) u
    calc t + s * u = n * u * (t / (n * u)) + t % (n * u) + s * u := by rw [hwindow]
      _ = n * u * (t / (n * u)) + (u * (t % (n * u) / u) + t % (n * u) % u) + s * u := by rw [hunit]
      _ = _ := by ring
  have hpart : ((t % (n * u) / u + s) * u + t % (n * u) % u) / (n * u) = (t % (n * u) / u + s) / n := by
    rw [Nat.mul_comm n u, ← Nat.div_div_eq_div_mul, Nat.mul_comm _ u, Nat.mul_add_div hu,
      Nat.div_eq_of_lt (Nat.mod_lt _ hu), Nat.add_zero, Nat.mul_comm u n]
  rw [hdiv, Nat.add_mul_div_left _ _ (Nat.mul_pos hn hu), hpart, Nat.add_comm]

theorem window_before {s : Nat} (hs : s < countdown n u t) : (t + s * u) / (n * u) = t / (n * u) := by
  have hlt : t % (n * u) / u + s < n := by
    rw [countdown] at hs
    omega
  rw [add_units_div hn hu, Nat.div_eq_of_lt hlt, Nat.add_zero]

theorem window_after : (t + countdown n u t * u) / (n * u) = t / (n * u) + 1 := by
  have hfull : t % (n * u) / u + countdown n u t = n := Nat.add_sub_cancel' (elapsed_lt hn hu t).le
  rw [add_units_div hn hu, hfull, Nat.div_self hn]

theorem countdown_isLeast : IsLeast {s | 0 < s ∧ (t + s * u) / (n * u) ≠ t / (n * u)} (countdown n u t) := by
  refine ⟨⟨countdown_pos hn hu t, ?_⟩, ?_⟩
  · rw [window_after hn hu]
    exact Nat.succ_ne_self _
  · rintro s ⟨-, hs⟩
    by_contra hlt
    exact hs (window_before hn hu t (Nat.not_le.mp hlt))

end Countdown

end Support
