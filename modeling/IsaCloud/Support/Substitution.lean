import Mathlib.Data.List.Basic
import Mathlib.Data.List.Infix

/-!
# Substitution in a text

A pattern is given by how far it matches at the beginning of what is left. The
matches are replaced from left to right, each search goes on behind the match. A
pattern of fixed length is a list of classes, one for each place. If the
replacement begins and ends with a point that no class has, then what is put in
makes no new match, and nothing that matched is left.
-/

namespace Support.Substitution

set_option autoImplicit false

variable {A : Type}

/-- Every match of the pattern replaced; `skip` points belong to the match before. -/
def sub (find : List A → Option Nat) (rep : List A) : Nat → List A → List A
  | _, [] => []
  | skip + 1, _ :: rest => sub find rep skip rest
  | 0, c :: rest =>
    match find (c :: rest) with
    | some n => rep ++ sub find rep (n - 1) rest
    | none => c :: sub find rep 0 rest

/-- A match is not empty and within the text. -/
def Sound (find : List A → Option Nat) : Prop := ∀ s n, find s = some n → 0 < n ∧ n ≤ s.length

section Steps
variable {find : List A → Option Nat} {rep : List A}

theorem sub_skip (skip : Nat) (s : List A) : sub find rep skip s = sub find rep 0 (s.drop skip) := by
  induction skip generalizing s with
  | zero => rfl
  | succ skip ih =>
    cases s with
    | nil => rfl
    | cons c rest => exact ih rest

theorem sub_found (hfind : Sound find) {s : List A} {n : Nat} (h : find s = some n) :
    sub find rep 0 s = rep ++ sub find rep 0 (s.drop n) := by
  obtain ⟨hpos, hle⟩ := hfind s n h
  cases s with
  | nil =>
    rw [List.length_nil] at hle
    omega
  | cons c rest =>
    obtain ⟨m, rfl⟩ : ∃ m, n = m + 1 := ⟨n - 1, by omega⟩
    simp only [sub, h, Nat.add_sub_cancel, List.drop_succ_cons, sub_skip m rest]

theorem sub_passed {c : A} {rest : List A} (h : find (c :: rest) = none) :
    sub find rep 0 (c :: rest) = c :: sub find rep 0 rest := by
  simp only [sub, h]

/-- A text is done, or begins with a match, or its first point is passed. -/
theorem sub_induction (hfind : Sound find) {P : List A → Prop} (nil : P [])
    (found : ∀ s n, find s = some n → P (s.drop n) → P s)
    (passed : ∀ c rest, find (c :: rest) = none → P rest → P (c :: rest)) (s : List A) : P s := by
  induction hlen : s.length using Nat.strong_induction_on generalizing s with
  | _ len ih =>
    cases s with
    | nil => exact nil
    | cons c rest =>
      rw [List.length_cons] at hlen
      cases h : find (c :: rest) with
      | none => exact passed c rest h (ih rest.length (by omega) rest rfl)
      | some n =>
        have hpos := (hfind _ n h).1
        refine found _ n h (ih _ ?_ ((c :: rest).drop n) rfl)
        rw [List.length_drop, List.length_cons]
        omega

theorem sub_of_free {s : List A} (h : ∀ t, t <:+ s → t ≠ [] → find t = none) : sub find rep 0 s = s := by
  induction s with
  | nil => rfl
  | cons c rest ih =>
    rw [sub_passed (h _ List.suffix_rfl (List.cons_ne_nil c rest)),
      ih fun t ht => h t (ht.trans (List.suffix_cons c rest))]

/-- A beginning in which no match begins stays. -/
theorem sub_append_passed {a : List A} (ha : ∀ c ∈ a, ∀ r, find (c :: r) = none) (b : List A) :
    sub find rep 0 (a ++ b) = a ++ sub find rep 0 b := by
  induction a with
  | nil => rfl
  | cons c a ih =>
    rw [List.cons_append, sub_passed (ha c List.mem_cons_self _), ih fun d hd => ha d (List.mem_cons_of_mem c hd),
      List.cons_append]

theorem mem_sub {c : A} {skip : Nat} {s : List A} (h : c ∈ sub find rep skip s) : c ∈ s ∨ c ∈ rep := by
  induction s generalizing skip with
  | nil =>
    rw [sub] at h
    exact .inl h
  | cons d rest ih =>
    cases skip with
    | succ skip => exact (ih h).imp_left (List.mem_cons_of_mem d)
    | zero =>
      cases hfind : find (d :: rest) with
      | some n =>
        simp only [sub, hfind] at h
        rcases List.mem_append.mp h with h | h
        · exact .inr h
        · exact (ih h).imp_left (List.mem_cons_of_mem d)
      | none =>
        rw [sub_passed hfind] at h
        rcases List.mem_cons.mp h with rfl | h
        · exact .inl List.mem_cons_self
        · exact (ih h).imp_left (List.mem_cons_of_mem d)

/-- A separator that no match goes into keeps the two sides apart. -/
theorem sub_append_sep (hfind : Sound find) {sep : A} (hsep : ∀ b, find (sep :: b) = none)
    (hlocal : ∀ a b, sep ∉ a → a ≠ [] → find (a ++ sep :: b) = find a) {a : List A} (ha : sep ∉ a) (b : List A) :
    sub find rep 0 (a ++ sep :: b) = sub find rep 0 a ++ sep :: sub find rep 0 b := by
  induction a using sub_induction hfind with
  | nil => exact sub_passed (hsep b)
  | found a n h ih =>
    have hle := (hfind a n h).2
    have hne : a ≠ [] := by
      rintro rfl
      have hbound := hfind [] n h
      rw [List.length_nil] at hbound
      omega
    rw [sub_found hfind h, sub_found hfind ((hlocal a b ha hne).trans h), List.drop_append_of_le_length hle,
      ih fun hmem => ha (List.mem_of_mem_drop hmem), List.append_assoc]
  | passed c rest h ih =>
    rw [sub_passed h, List.cons_append,
      sub_passed (by rw [← List.cons_append, hlocal _ b ha (List.cons_ne_nil c rest)]; exact h),
      ih fun hmem => ha (List.mem_cons_of_mem c hmem), List.cons_append]

end Steps

/-! ## Patterns of fixed length -/

/-- The classes match at the beginning of the text. -/
def fits : List (A → Bool) → List A → Bool
  | [], _ => true
  | _ :: _, [] => false
  | p :: ps, c :: s => p c && fits ps s

/-- The pattern matches nowhere in the text. -/
def Free (ps : List (A → Bool)) (s : List A) : Prop := ∀ t, t <:+ s → fits ps t = false

section Fixed
variable {ps : List (A → Bool)}

/-- No class of the pattern has the point. -/
def Foreign (ps : List (A → Bool)) (g : A) : Prop := ∀ p ∈ ps, p g = false

theorem fits_length {s : List A} (h : fits ps s = true) : ps.length ≤ s.length := by
  induction ps generalizing s with
  | nil => exact Nat.zero_le _
  | cons p ps ih =>
    cases s with
    | nil => cases h
    | cons c s =>
      rw [fits, Bool.and_eq_true] at h
      exact Nat.succ_le_succ (ih h.2)

/-- Each class has a point of the match. -/
theorem mem_of_fits {s : List A} (h : fits ps s = true) {p : A → Bool} (hp : p ∈ ps) : ∃ c ∈ s, p c = true := by
  induction ps generalizing s with
  | nil => cases hp
  | cons q ps ih =>
    cases s with
    | nil => cases h
    | cons c s =>
      rw [fits, Bool.and_eq_true] at h
      rcases List.mem_cons.mp hp with rfl | hp
      · exact ⟨c, List.mem_cons_self, h.1⟩
      · obtain ⟨d, hd, hpd⟩ := ih h.2 hp
        exact ⟨d, List.mem_cons_of_mem c hd, hpd⟩

/-- A text that the pattern matches as a whole has points of its classes only. -/
theorem not_mem_of_fits {s : List A} (h : fits ps s = true) (hlen : s.length = ps.length) {g : A}
    (hg : Foreign ps g) : g ∉ s := by
  induction ps generalizing s with
  | nil => exact List.length_eq_zero_iff.mp hlen ▸ List.not_mem_nil
  | cons p ps ih =>
    cases s with
    | nil => exact List.not_mem_nil
    | cons c s =>
      rw [fits, Bool.and_eq_true] at h
      rw [List.mem_cons]
      rintro (rfl | hmem)
      · exact Bool.false_ne_true ((hg p List.mem_cons_self).symm.trans h.1)
      · exact ih h.2 (Nat.succ.inj hlen) (fun q hq => hg q (List.mem_cons_of_mem p hq)) hmem

theorem fits_foreign {x y : List A} {g : A} (hg : Foreign ps g) (hx : x.length < ps.length) :
    fits ps (x ++ g :: y) = false := by
  induction x generalizing ps with
  | nil =>
    cases ps with
    | nil => cases hx
    | cons p ps => rw [List.nil_append, fits, hg p List.mem_cons_self, Bool.false_and]
  | cons c x ih =>
    cases ps with
    | nil => cases hx
    | cons p ps =>
      have hrest := ih (fun q hq => hg q (List.mem_cons_of_mem p hq)) (Nat.lt_of_succ_lt_succ hx)
      rw [List.cons_append, fits, hrest, Bool.and_false]

theorem fits_append_foreign {a : List A} {g : A} (hg : Foreign ps g) (b : List A) :
    fits ps (a ++ g :: b) = fits ps a := by
  induction a generalizing ps with
  | nil =>
    cases ps with
    | nil => rfl
    | cons p ps => exact fits_foreign hg (Nat.succ_pos _)
  | cons c a ih =>
    cases ps with
    | nil => rfl
    | cons p ps => rw [List.cons_append, fits, fits, ih fun q hq => hg q (List.mem_cons_of_mem p hq)]

theorem Free.of_suffix {s t : List A} (h : Free ps s) (ht : t <:+ s) : Free ps t := fun u hu => h u (hu.trans ht)

theorem free_nil (hps : ps ≠ []) : Free ps [] := by
  intro t ht
  rw [List.suffix_nil.mp ht]
  cases ps with
  | nil => exact absurd rfl hps
  | cons p ps => rfl

theorem free_of_short {s : List A} (h : s.length < ps.length) : Free ps s := fun _ ht =>
  Bool.eq_false_iff.mpr fun hfits => absurd (fits_length hfits) (Nat.not_le_of_lt (ht.length_le.trans_lt h))

theorem free_cons {c : A} {s : List A} : Free ps (c :: s) ↔ fits ps (c :: s) = false ∧ Free ps s := by
  constructor
  · exact fun h => ⟨h _ List.suffix_rfl, h.of_suffix (List.suffix_cons c s)⟩
  · rintro ⟨hfirst, hrest⟩ t ht
    rcases List.suffix_cons_iff.mp ht with rfl | ht
    · exact hfirst
    · exact hrest t ht

/-- What is put in begins and ends with points of its own, and is shorter than a match. -/
structure Fenced (ps : List (A → Bool)) (rep : List A) : Prop where
  first : ∃ g tail, rep = g :: tail ∧ Foreign ps g
  last : ∃ init g, rep = init ++ [g] ∧ Foreign ps g
  short : rep.length ≤ ps.length

variable {find : List A → Option Nat} {rep : List A}

/-- The beginning of the result matches only if the text does. -/
theorem fits_of_fits_sub (hfind : Sound find) {g : A} {tail : List A} (hrep : rep = g :: tail)
    {qs : List (A → Bool)} (hg : Foreign qs g) {s : List A} (h : fits qs (sub find rep 0 s) = true) :
    fits qs s = true := by
  induction qs generalizing s with
  | nil => rfl
  | cons q qs ih =>
    cases s with
    | nil => cases h
    | cons c rest =>
      cases hmatch : find (c :: rest) with
      | some n =>
        have hno : fits (q :: qs) (rep ++ sub find rep 0 ((c :: rest).drop n)) = false := by
          rw [hrep]
          exact fits_foreign (x := []) hg (Nat.succ_pos _)
        rw [sub_found hfind hmatch, hno] at h
        cases h
      | none =>
        rw [sub_passed hmatch, fits, Bool.and_eq_true] at h
        rw [fits, Bool.and_eq_true]
        exact ⟨h.1, ih (fun p hp => hg p (List.mem_cons_of_mem q hp)) h.2⟩

/-- The result has no match of the pattern if every match of it in the text begins a replaced one. -/
theorem free_sub (hfind : Sound find) (hps : ps ≠ []) (hguard : Fenced ps rep) {s : List A}
    (h : ∀ t, t <:+ s → find t = none → fits ps t = false) : Free ps (sub find rep 0 s) := by
  obtain ⟨g, tail, hfirst, hg⟩ := hguard.first
  obtain ⟨init, e, hlast, he⟩ := hguard.last
  induction s using sub_induction hfind with
  | nil => exact free_nil hps
  | found s n hmatch ih =>
    have hrest := ih fun t ht => h t (ht.trans (List.drop_suffix n s))
    rw [sub_found hfind hmatch]
    generalize sub find rep 0 (s.drop n) = out at hrest ⊢
    intro t ht
    by_cases hshort : t.length ≤ out.length
    · exact hrest t (List.suffix_of_suffix_length_le ht (List.suffix_append _ _) hshort)
    · -- The match would have to go over the last point of what was put in.
      have hlen := ht.length_le
      have hrep := hguard.short
      rw [hlast, List.append_assoc, List.singleton_append] at ht
      have hend : e :: out <:+ t := by
        refine List.suffix_of_suffix_length_le (List.suffix_append _ _) ht ?_
        rw [List.length_cons]
        omega
      obtain ⟨x, rfl⟩ := hend
      refine fits_foreign he ?_
      rw [List.length_append, List.length_append, List.length_cons] at hlen
      omega
  | passed c rest hmatch ih =>
    rw [sub_passed hmatch, free_cons]
    refine ⟨?_, ih fun t ht => h t (ht.trans (List.suffix_cons c rest))⟩
    have hno := h _ List.suffix_rfl hmatch
    cases ps with
    | nil => exact absurd rfl hps
    | cons p ps =>
      rw [fits] at hno ⊢
      rw [Bool.and_eq_false_iff] at hno ⊢
      refine hno.imp_right fun hrest => Bool.eq_false_iff.mpr fun hfits => ?_
      rw [fits_of_fits_sub hfind hfirst (fun q hq => hg q (List.mem_cons_of_mem p hq)) hfits] at hrest
      cases hrest

/-- `re.sub` with a pattern of fixed length. -/
def findFixed (ps : List (A → Bool)) (s : List A) : Option Nat := if fits ps s then some ps.length else none

theorem sound_findFixed (hps : ps ≠ []) : Sound (findFixed ps) := by
  intro s n h
  rw [findFixed] at h
  split at h
  · rename_i hfits
    obtain rfl := Option.some.inj h
    exact ⟨List.length_pos_of_ne_nil hps, fits_length hfits⟩
  · cases h

theorem findFixed_eq_none {s : List A} : findFixed ps s = none ↔ fits ps s = false := by
  rw [findFixed]
  cases fits ps s <;> simp

theorem sub_fixed_whole (hps : ps ≠ []) {s : List A} (h : fits ps s = true) (hlen : s.length = ps.length) :
    sub (findFixed ps) rep 0 s = rep := by
  have hfind : findFixed ps s = some s.length := by rw [findFixed, if_pos h, hlen]
  rw [sub_found (sound_findFixed hps) hfind, List.drop_length, sub, List.append_nil]

theorem free_sub_fixed (hps : ps ≠ []) (hguard : Fenced ps rep) (s : List A) :
    Free ps (sub (findFixed ps) rep 0 s) :=
  free_sub (sound_findFixed hps) hps hguard fun _ _ h => findFixed_eq_none.mp h

theorem sub_fixed_of_free {s : List A} (h : Free ps s) : sub (findFixed ps) rep 0 s = s :=
  sub_of_free fun t ht _ => findFixed_eq_none.mpr (h t ht)

theorem sub_fixed_sep (hps : ps ≠ []) {sep : A} (hsep : Foreign ps sep) {a : List A} (ha : sep ∉ a) (b : List A) :
    sub (findFixed ps) rep 0 (a ++ sep :: b) = sub (findFixed ps) rep 0 a ++ sep :: sub (findFixed ps) rep 0 b := by
  refine sub_append_sep (sound_findFixed hps) ?_ ?_ ha b
  · intro r
    exact findFixed_eq_none.mpr (fits_foreign (x := []) hsep (List.length_pos_of_ne_nil hps))
  · intro x y _ _
    rw [findFixed, findFixed, fits_append_foreign hsep]

end Fixed

end Support.Substitution
