import Mathlib.Data.List.DropRight
import Mathlib.Data.List.Nodup
import Mathlib.Data.List.Perm.Subperm

/-!
# The most recent of many

Of what occurs in a list the last few that occurred for the first time, and a queue of
bounded length that is meant to hold them: before anything is added to a full queue its
oldest entry goes, whatever is added.
-/

namespace Support.Recent

set_option autoImplicit false

universe u

variable {α : Type u} [DecidableEq α]

/-! ## First occurrences -/

def see (seen : List α) (a : α) : List α := if a ∈ seen then seen else seen ++ [a]

/-- What occurs, in the order of first occurrence. -/
def firsts (as : List α) : List α := as.foldl see []

/-- The last `m` of them. -/
def recent (m : Nat) (as : List α) : List α := (firsts as).rtake m

variable {as : List α} {a x : α} {m : Nat}

theorem firsts_concat (as : List α) (a : α) : firsts (as ++ [a]) = see (firsts as) a := List.foldl_concat ..

theorem mem_see {seen : List α} : x ∈ see seen a ↔ x ∈ seen ∨ x = a := by
  rw [see]
  split
  · rename_i ha
    constructor
    · exact .inl
    · rintro (h | rfl)
      · exact h
      · exact ha
  · rw [List.mem_append, List.mem_singleton]

theorem nodup_see {seen : List α} (h : seen.Nodup) : (see seen a).Nodup := by
  rw [see]
  split
  · exact h
  · rename_i ha
    rw [List.nodup_append]
    refine ⟨h, List.nodup_singleton a, ?_⟩
    intro x hx y hy heq
    rw [List.mem_singleton.mp hy] at heq
    exact ha (heq ▸ hx)

theorem mem_firsts : x ∈ firsts as ↔ x ∈ as := by
  induction as using List.reverseRecOn with
  | nil => exact Iff.rfl
  | append_singleton as a ih => rw [firsts_concat, mem_see, ih, List.mem_append, List.mem_singleton]

theorem nodup_firsts (as : List α) : (firsts as).Nodup := by
  induction as using List.reverseRecOn with
  | nil => exact List.nodup_nil
  | append_singleton as a ih =>
    rw [firsts_concat]
    exact nodup_see ih

theorem firsts_of_mem (h : a ∈ as) : firsts (as ++ [a]) = firsts as := by
  rw [firsts_concat, see, if_pos (mem_firsts.mpr h)]

theorem firsts_of_not_mem (h : a ∉ as) : firsts (as ++ [a]) = firsts as ++ [a] := by
  rw [firsts_concat, see, if_neg (mt mem_firsts.mp h)]

/-! ## The last of them -/

theorem recent_suffix (m : Nat) (as : List α) : recent m as <:+ firsts as := List.drop_suffix _ _

theorem length_recent (m : Nat) (as : List α) : (recent m as).length = min m (firsts as).length := by
  rw [recent, List.rtake, List.length_drop]
  omega

theorem nodup_recent (m : Nat) (as : List α) : (recent m as).Nodup := (nodup_firsts as).sublist (recent_suffix m as).sublist

theorem mem_of_mem_recent (h : x ∈ recent m as) : x ∈ as := mem_firsts.mp ((recent_suffix m as).subset h)

theorem recent_of_mem (h : a ∈ as) : recent m (as ++ [a]) = recent m as := by rw [recent, recent, firsts_of_mem h]

/-- All are recent while there is room for them. -/
theorem recent_eq_firsts (h : (firsts as).length ≤ m) : recent m as = firsts as := by
  rw [recent, List.rtake, Nat.sub_eq_zero_of_le h, List.drop_zero]

/-- A new one takes the place of the first of the recent ones. -/
theorem recent_full (ha : a ∉ as) (hm : 1 ≤ m) (h : m ≤ (firsts as).length) :
    recent m (as ++ [a]) = (recent m as).tail ++ [a] := by
  obtain ⟨n, rfl⟩ := Nat.exists_eq_succ_of_ne_zero (Nat.pos_iff_ne_zero.mp hm)
  rw [recent, firsts_of_not_mem ha, List.rtake_concat_succ, recent, List.rtake, List.rtake, List.tail_drop]
  congr 2
  omega

/-! ## A bounded queue -/

/-- The queue after `a` is added. -/
def push (m : Nat) (queue : List α) (a : α) : List α := see (if m ≤ queue.length then queue.tail else queue) a

theorem nodup_push {queue : List α} (h : queue.Nodup) : (push m queue a).Nodup := by
  apply nodup_see
  split
  · exact h.sublist (List.tail_sublist queue)
  · exact h

theorem length_push {queue : List α} (hm : 1 ≤ m) (h : queue.length ≤ m) : (push m queue a).length ≤ m := by
  have hsee : ∀ seen : List α, (see seen a).length ≤ seen.length + 1 := by
    intro seen
    rw [see]
    split
    · exact Nat.le_succ _
    · rw [List.length_append, List.length_singleton]
  rw [push]
  split
  · have hlen := hsee queue.tail
    rw [List.length_tail] at hlen
    omega
  · have hlen := hsee queue
    omega

/-- The queue holds what is recent. -/
structure Holds (m : Nat) (queue as : List α) : Prop where
  nodup : queue.Nodup
  bounded : queue.length ≤ m
  mem_iff : ∀ x, x ∈ queue ↔ x ∈ recent m as

/-- A full queue is not given an entry it has, but for its oldest one; nor one that has gone; and a new one makes the
first of the recent ones go. -/
structure Harmless (m : Nat) (queue as : List α) (a : α) : Prop where
  held : m ≤ queue.length → a ∈ queue → queue.head? = some a
  gone : m ≤ queue.length → a ∉ queue → a ∉ as
  oldest : m ≤ queue.length → a ∉ queue → queue.head? = (recent m as).head?

theorem recent_nil (m : Nat) : recent m ([] : List α) = [] := List.rtake_nil m

theorem Holds.nil (m : Nat) : Holds m ([] : List α) [] :=
  ⟨List.nodup_nil, Nat.zero_le m, fun x => by rw [recent_nil]⟩

theorem Holds.length_eq {queue : List α} (h : Holds m queue as) : queue.length = (recent m as).length :=
  ((List.perm_ext_iff_of_nodup h.nodup (nodup_recent m as)).mpr h.mem_iff).length_eq

theorem Holds.push_room {queue : List α} (h : Holds m queue as) (hroom : queue.length < m) :
    ∀ x, x ∈ push m queue a ↔ x ∈ recent m (as ++ [a]) := by
  have hlen := h.length_eq
  have hrecent := length_recent m as
  have hfirsts : (firsts as).length < m := by omega
  have hall := recent_eq_firsts (Nat.le_of_lt hfirsts)
  have hpush : push m queue a = see queue a := by rw [push, if_neg (by omega)]
  intro x
  rw [hpush, mem_see, h.mem_iff, hall]
  by_cases ha : a ∈ as
  · rw [recent_of_mem ha, hall, mem_firsts]
    constructor
    · rintro (hx | rfl)
      · exact hx
      · exact ha
    · exact .inl
  · have hlater : (firsts (as ++ [a])).length ≤ m := by
      rw [firsts_of_not_mem ha, List.length_append, List.length_singleton]
      omega
    rw [recent_eq_firsts hlater, firsts_of_not_mem ha, List.mem_append, List.mem_singleton]

/-- A full queue that is given an entry it has. -/
theorem Holds.push_held {o : α} {queue : List α} (h : Holds m (o :: queue) as) (hfull : m ≤ (o :: queue).length)
    (ha : a ∈ o :: queue) : (∀ x, x ∈ push m (o :: queue) a ↔ x ∈ recent m (as ++ [a])) ↔ o = a := by
  have hmem : a ∈ as := mem_of_mem_recent ((h.mem_iff a).mp ha)
  have hpush : push m (o :: queue) a = see queue a := by rw [push, if_pos hfull, List.tail_cons]
  rw [hpush, recent_of_mem hmem]
  constructor
  · intro hsame
    have ho := (hsame o).mpr ((h.mem_iff o).mp List.mem_cons_self)
    rcases mem_see.mp ho with ho | ho
    · exact absurd ho (List.nodup_cons.mp h.nodup).1
    · exact ho
  · rintro rfl x
    rw [mem_see, ← h.mem_iff, List.mem_cons, or_comm]

/-- A full queue that is given a new entry. -/
theorem Holds.push_new {o : α} {queue : List α} (hm : 1 ≤ m) (h : Holds m (o :: queue) as)
    (hfull : m ≤ (o :: queue).length) (ha : a ∉ o :: queue) (hnew : a ∉ as) :
    (∀ x, x ∈ push m (o :: queue) a ↔ x ∈ recent m (as ++ [a])) ↔ some o = (recent m as).head? := by
  have hlen := h.length_eq
  have hrecent := length_recent m as
  have hpush : push m (o :: queue) a = queue ++ [a] := by
    rw [push, if_pos hfull, List.tail_cons, see, if_neg fun hin => ha (List.mem_cons_of_mem o hin)]
  rw [hpush, recent_full hnew hm (by omega)]
  have hnodup := nodup_recent m as
  have hsame := h.mem_iff
  have hnot : a ∉ recent m as := fun hin => hnew (mem_of_mem_recent hin)
  cases hr : recent m as with
  | nil =>
    rw [hr] at hlen
    cases hlen
  | cons r rs =>
    rw [hr] at hsame hnodup hnot
    rw [List.head?_cons, Option.some.injEq, List.tail_cons]
    constructor
    · intro hqueue
      have ho : o ∉ queue ++ [a] := by
        rw [List.mem_append, List.mem_singleton]
        rintro (hin | rfl)
        · exact (List.nodup_cons.mp h.nodup).1 hin
        · exact ha List.mem_cons_self
      rcases List.mem_cons.mp ((hsame o).mp List.mem_cons_self) with heq | hin
      · exact heq
      · exact absurd ((hqueue o).mpr (List.mem_append_left [a] hin)) ho
    · rintro rfl x
      rw [List.mem_append, List.mem_append]
      have hx := hsame x
      rw [List.mem_cons, List.mem_cons] at hx
      by_cases hox : x = o
      · have hq : x ∉ queue := hox ▸ (List.nodup_cons.mp h.nodup).1
        have hrs : x ∉ rs := hox ▸ (List.nodup_cons.mp hnodup).1
        simp only [hq, hrs]
      · simp only [hox, false_or] at hx
        rw [hx]

/-- What one addition leaves of it. -/
theorem Holds.push_iff (hm : 1 ≤ m) {queue : List α} (h : Holds m queue as) :
    Holds m (push m queue a) (as ++ [a]) ↔ Harmless m queue as a := by
  have hmem : Holds m (push m queue a) (as ++ [a]) ↔ ∀ x, x ∈ push m queue a ↔ x ∈ recent m (as ++ [a]) := by
    constructor
    · exact Holds.mem_iff
    · intro hall
      exact ⟨nodup_push h.nodup, length_push hm h.bounded, hall⟩
  rw [hmem]
  rcases Nat.lt_or_ge queue.length m with hroom | hfull
  · constructor
    · intro _
      exact ⟨fun hle => absurd hle (by omega), fun hle => absurd hle (by omega), fun hle => absurd hle (by omega)⟩
    · intro _
      exact h.push_room hroom
  · obtain ⟨o, rest, rfl⟩ : ∃ o rest, queue = o :: rest := by
      cases queue with
      | nil =>
        have hzero : m ≤ 0 := hfull
        omega
      | cons o rest => exact ⟨o, rest, rfl⟩
    by_cases ha : a ∈ o :: rest
    · rw [h.push_held hfull ha]
      constructor
      · rintro rfl
        exact ⟨fun _ _ => rfl, fun _ hno => absurd ha hno, fun _ hno => absurd ha hno⟩
      · intro hharmless
        exact Option.some.inj (hharmless.held hfull ha)
    · by_cases hnew : a ∈ as
      · constructor
        · intro hall
          have hin := (hall a).mp (mem_see.mpr (.inr rfl))
          rw [recent_of_mem hnew] at hin
          exact absurd ((h.mem_iff a).mpr hin) ha
        · intro hharmless
          exact absurd hnew (hharmless.gone hfull ha)
      · rw [h.push_new hm hfull ha hnew]
        constructor
        · intro holdest
          exact ⟨fun _ hin => absurd hin ha, fun _ _ => hnew, fun _ _ => holdest⟩
        · intro hharmless
          exact hharmless.oldest hfull ha

end Support.Recent
