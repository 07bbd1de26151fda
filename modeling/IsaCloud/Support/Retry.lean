import Mathlib.Logic.Function.Iterate
import Mathlib.Data.Nat.Basic

/-!
# Retrying over a channel that loses replies

An attempt is answered, or it fails and the server has applied it or not. A loop
that tries again after some errors applies its request as often as it was applied
on the way; whether that is once depends on the failures alone.
-/

namespace Support.Retry

set_option autoImplicit false

inductive Attempt (E : Type) where
  | served
  | failed (error : E) (applied : Bool)
  deriving DecidableEq

section Loop
variable {E S : Type} (retriable : E → Bool) (apply : S → S)

/-- At most so many attempts; true once one was answered, and when there was none to make. -/
def attemptLoop : Nat → (Nat → Attempt E) → S → S × Bool
  | 0, _, s => (s, true)
  | left + 1, attempts, s =>
    match attempts 0 with
    | .served => (apply s, true)
    | .failed error applied =>
      let s' := if applied then apply s else s
      if retriable error = false ∨ left = 0 then (s', false)
      else attemptLoop left (fun i => attempts (i + 1)) s'

end Loop

section Pattern
variable {E : Type} (retriable : E → Bool) (limit : Nat) (attempts : Nat → Attempt E)

/-- Attempt `j` is made: those before it failed with an error that is tried again. -/
def Made (j : Nat) : Prop :=
  j < limit ∧ ∀ i < j, ∃ error applied, attempts i = .failed error applied ∧ retriable error = true

def Served : Prop := ∃ j, Made retriable limit attempts j ∧ attempts j = .served

/-- An attempt fails and is the last one. -/
def GivesUp : Prop :=
  ∃ j error applied, Made retriable limit attempts j ∧ attempts j = .failed error applied ∧
    (retriable error = false ∨ j + 1 = limit)

/-- A failed attempt was applied. -/
def LostReply : Prop := ∃ j error, Made retriable limit attempts j ∧ attempts j = .failed error true

end Pattern

section Shift
variable {E : Type} {retriable : E → Bool} {left : Nat} {attempts : Nat → Attempt E}

theorem made_zero : Made retriable (left + 1) attempts 0 := ⟨Nat.succ_pos _, fun i hi => absurd hi (Nat.not_lt_zero i)⟩

theorem made_succ_iff {error : E} {applied : Bool} (h0 : attempts 0 = .failed error applied) {j : Nat} :
    Made retriable (left + 1) attempts (j + 1) ↔
      retriable error = true ∧ Made retriable left (fun i => attempts (i + 1)) j := by
  constructor
  · rintro ⟨hlt, hall⟩
    obtain ⟨error', applied', h0', hr⟩ := hall 0 (Nat.succ_pos _)
    rw [h0] at h0'
    cases h0'
    exact ⟨hr, Nat.lt_of_succ_lt_succ hlt, fun i hi => hall (i + 1) (Nat.succ_lt_succ hi)⟩
  · rintro ⟨hr, hlt, hall⟩
    refine ⟨Nat.succ_lt_succ hlt, ?_⟩
    intro i hi
    cases i with
    | zero => exact ⟨error, applied, h0, hr⟩
    | succ i => exact hall i (Nat.lt_of_succ_lt_succ hi)

theorem not_made_succ (h0 : attempts 0 = .served) {j : Nat} : ¬ Made retriable (left + 1) attempts (j + 1) := by
  rintro ⟨-, hall⟩
  obtain ⟨error, applied, h, -⟩ := hall 0 (Nat.succ_pos _)
  rw [h0] at h
  cases h

end Shift

/-! ## The first attempt -/

section First
variable {E : Type} {retriable : E → Bool} {left : Nat} {attempts : Nat → Attempt E}

theorem not_made_of_zero {j : Nat} : ¬ Made retriable 0 attempts j := fun h => Nat.not_lt_zero j h.1

theorem eq_zero_of_made (h0 : attempts 0 = .served) {j : Nat} (h : Made retriable (left + 1) attempts j) : j = 0 := by
  cases j with
  | zero => rfl
  | succ j => exact absurd h (not_made_succ h0)

theorem served_of_first (h0 : attempts 0 = .served) : Served retriable (left + 1) attempts := ⟨0, made_zero, h0⟩

theorem not_givesUp_of_first (h0 : attempts 0 = .served) : ¬ GivesUp retriable (left + 1) attempts := by
  rintro ⟨j, error, applied, hj, hf, -⟩
  rw [eq_zero_of_made h0 hj, h0] at hf
  cases hf

theorem not_lostReply_of_first (h0 : attempts 0 = .served) : ¬ LostReply retriable (left + 1) attempts := by
  rintro ⟨j, error, hj, hf⟩
  rw [eq_zero_of_made h0 hj, h0] at hf
  cases hf

variable {error : E} {applied : Bool} (h0 : attempts 0 = .failed error applied)
include h0

theorem served_failed_iff :
    Served retriable (left + 1) attempts ↔ retriable error = true ∧ Served retriable left fun i => attempts (i + 1) := by
  constructor
  · rintro ⟨j, hj, hs⟩
    cases j with
    | zero =>
      rw [h0] at hs
      cases hs
    | succ j =>
      obtain ⟨hr, hj⟩ := (made_succ_iff h0).mp hj
      exact ⟨hr, j, hj, hs⟩
  · rintro ⟨hr, j, hj, hs⟩
    exact ⟨j + 1, (made_succ_iff h0).mpr ⟨hr, hj⟩, hs⟩

theorem givesUp_failed_iff :
    GivesUp retriable (left + 1) attempts ↔
      (retriable error = false ∨ left = 0) ∨ (retriable error = true ∧ GivesUp retriable left fun i => attempts (i + 1)) := by
  constructor
  · rintro ⟨j, error', applied', hj, hf, hlast⟩
    cases j with
    | zero =>
      rw [h0] at hf
      cases hf
      exact .inl (hlast.imp_right fun h => by omega)
    | succ j =>
      obtain ⟨hr, hj⟩ := (made_succ_iff h0).mp hj
      exact .inr ⟨hr, j, error', applied', hj, hf, hlast.imp_right fun h => by omega⟩
  · rintro (hlast | ⟨hr, j, error', applied', hj, hf, hlast⟩)
    · exact ⟨0, error, applied, made_zero, h0, hlast.imp_right fun h => by omega⟩
    · exact ⟨j + 1, error', applied', (made_succ_iff h0).mpr ⟨hr, hj⟩, hf, hlast.imp_right fun h => by omega⟩

theorem lostReply_failed_iff :
    LostReply retriable (left + 1) attempts ↔
      applied = true ∨ (retriable error = true ∧ LostReply retriable left fun i => attempts (i + 1)) := by
  constructor
  · rintro ⟨j, error', hj, hf⟩
    cases j with
    | zero =>
      rw [h0] at hf
      cases hf
      exact .inl rfl
    | succ j =>
      obtain ⟨hr, hj⟩ := (made_succ_iff h0).mp hj
      exact .inr ⟨hr, j, error', hj, hf⟩
  · rintro (rfl | ⟨hr, j, error', hj, hf⟩)
    · exact ⟨0, error, made_zero, h0⟩
    · exact ⟨j + 1, error', (made_succ_iff h0).mpr ⟨hr, hj⟩, hf⟩

end First

section Outcome
variable {E S : Type} (retriable : E → Bool) (apply : S → S)

/-- How a loop ends: the request was applied once if it was answered, and `lost` times more. -/
structure Ends (limit : Nat) (attempts : Nat → Attempt E) (s : S) (result : S × Bool) (lost : Nat) : Prop where
  state : result.1 = apply^[lost + if result.2 = true ∧ limit ≠ 0 then 1 else 0] s
  answered : result.2 = true ↔ limit = 0 ∨ Served retriable limit attempts
  refused : result.2 = false ↔ GivesUp retriable limit attempts
  lost_iff : lost = 0 ↔ ¬ LostReply retriable limit attempts

theorem attemptLoop_ends (limit : Nat) (attempts : Nat → Attempt E) (s : S) :
    ∃ lost, Ends retriable apply limit attempts s (attemptLoop retriable apply limit attempts s) lost := by
  induction limit generalizing attempts s with
  | zero =>
    refine ⟨0, rfl, ?_, ?_, ?_⟩
    · exact iff_of_true rfl (.inl rfl)
    · exact iff_of_false (fun h => nomatch h) fun ⟨_, _, _, hj, _⟩ => not_made_of_zero hj
    · exact iff_of_true rfl fun ⟨_, _, hj, _⟩ => not_made_of_zero hj
  | succ left ih =>
    cases h0 : attempts 0 with
    | served =>
      have hloop : attemptLoop retriable apply (left + 1) attempts s = (apply s, true) := by rw [attemptLoop, h0]
      rw [hloop]
      refine ⟨0, ?_, ?_, ?_, ?_⟩
      · simp
      · exact iff_of_true rfl (.inr (served_of_first h0))
      · exact iff_of_false (fun h => nomatch h) (not_givesUp_of_first h0)
      · exact iff_of_true rfl (not_lostReply_of_first h0)
    | failed error applied =>
      have happlied : (if applied then apply s else s) = apply^[if applied then 1 else 0] s := by
        cases applied <;> rfl
      by_cases hlast : retriable error = false ∨ left = 0
      · have hloop : attemptLoop retriable apply (left + 1) attempts s = (if applied then apply s else s, false) := by
          rw [attemptLoop, h0]
          exact if_pos hlast
        have hnone : ∀ P : Prop, (P → left ≠ 0) → ¬ (retriable error = true ∧ P) := by
          rintro P hP ⟨hr, hp⟩
          rcases hlast with hf | hz
          · rw [hr] at hf
            cases hf
          · exact hP hp hz
        have hneeds : ∀ {j}, Made retriable left (fun i => attempts (i + 1)) j → left ≠ 0 :=
          fun hj hz => Nat.not_lt_zero _ (hz ▸ hj.1)
        rw [hloop]
        refine ⟨if applied then 1 else 0, ?_, ?_, ?_, ?_⟩
        · simpa using happlied
        · refine iff_of_false (fun h => nomatch h) ?_
          rintro (h | h)
          · cases h
          · exact hnone _ (fun ⟨_, hj, _⟩ => hneeds hj) ((served_failed_iff h0).mp h)
        · exact iff_of_true rfl ((givesUp_failed_iff h0).mpr (.inl hlast))
        · rw [lostReply_failed_iff h0, or_iff_left (hnone _ fun ⟨_, _, hj, _⟩ => hneeds hj)]
          cases applied <;> simp
      · obtain ⟨hr, hleft⟩ := not_or.mp hlast
        have hr : retriable error = true := Bool.not_eq_false _ ▸ hr
        have hloop : attemptLoop retriable apply (left + 1) attempts s =
            attemptLoop retriable apply left (fun i => attempts (i + 1)) (if applied then apply s else s) := by
          rw [attemptLoop, h0]
          exact if_neg hlast
        obtain ⟨lost, hstate, hanswered, hrefused, hlost⟩ :=
          ih (fun i => attempts (i + 1)) (if applied then apply s else s)
        rw [hloop]
        refine ⟨lost + if applied then 1 else 0, ?_, ?_, ?_, ?_⟩
        · rw [hstate, happlied, ← Function.iterate_add_apply]
          congr 1
          simp only [hleft, ne_eq, not_false_eq_true, and_true, Nat.succ_ne_zero]
          omega
        · rw [hanswered, served_failed_iff h0, or_iff_right hleft, or_iff_right (Nat.succ_ne_zero left),
            and_iff_right hr]
        · rw [hrefused, givesUp_failed_iff h0, or_iff_right hlast, and_iff_right hr]
        · rw [lostReply_failed_iff h0, and_iff_right hr, not_or, ← hlost]
          cases applied <;> simp

end Outcome

end Support.Retry
