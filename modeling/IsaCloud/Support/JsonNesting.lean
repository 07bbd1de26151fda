import IsaCloud.Support.JsonText

/-!
# The stack left to `json.loads`

A reader with more stack returns whatever one with less returns, so the value of a
document does not depend on the stack it was read with.
-/

namespace Support.Json

set_option autoImplicit false

open Text Python

section Scanners
variable {F : Type}

/-- The second scanner returns whatever the first one does. -/
def Extends (value value' : Str → Scan (Json F)) : Prop :=
  ∀ s r, value s = .ok r → value' s = .ok r

variable {value value' : Str → Scan (Json F)} (hv : Extends value value')
include hv

theorem scanElems_extends {n : Nat} {s rest : Str} {xs : List (Json F)}
    (h : scanElems value n s = .ok (xs, rest)) : scanElems value' n s = .ok (xs, rest) := by
  induction n generalizing s rest xs with
  | zero => cases h
  | succ n ih =>
    unfold scanElems at h ⊢
    cases hval : value s with
    | error e =>
      rw [hval] at h
      cases h
    | ok r =>
      obtain ⟨v, s₁⟩ := r
      rw [hval] at h
      rw [hv s _ hval]
      dsimp only at h ⊢
      split
      · rename_i hs
        simp only [hs] at h
        cases h
      · rename_i c s₂ hs
        simp only [hs] at h
        by_cases hclose : c = closeBracket
        · rw [if_pos hclose] at h ⊢
          exact h
        · rw [if_neg hclose] at h ⊢
          by_cases hcomma : c = comma
          · rw [if_pos hcomma] at h ⊢
            cases hrec : scanElems value n (skipSpace s₂) with
            | error e =>
              rw [hrec] at h
              cases h
            | ok q =>
              obtain ⟨vs, s₃⟩ := q
              rw [hrec] at h
              rw [ih hrec]
              exact h
          · rw [if_neg hcomma] at h
            cases h

theorem scanMember_extends {s rest k : Str} {v : Json F}
    (h : scanMember value s = .ok ((k, v), rest)) : scanMember value' s = .ok ((k, v), rest) := by
  unfold scanMember at h ⊢
  cases hkey : scanKey s with
  | error e =>
    rw [hkey] at h
    cases h
  | ok q =>
    obtain ⟨k', s₁⟩ := q
    rw [hkey] at h
    dsimp only at h ⊢
    cases hcolon : scanColon s₁ with
    | error e =>
      rw [hcolon] at h
      cases h
    | ok s₂ =>
      rw [hcolon] at h
      dsimp only at h ⊢
      cases hval : value s₂ with
      | error e =>
        rw [hval] at h
        cases h
      | ok r =>
        rw [hval] at h
        rw [hv s₂ r hval]
        exact h

theorem scanMembers_extends {n : Nat} {s rest : Str} {acc m : Members F}
    (h : scanMembers value n s acc = .ok (m, rest)) : scanMembers value' n s acc = .ok (m, rest) := by
  induction n generalizing s acc with
  | zero => cases h
  | succ n ih =>
    unfold scanMembers at h ⊢
    cases hmem : scanMember value s with
    | error e =>
      rw [hmem] at h
      cases h
    | ok r =>
      obtain ⟨⟨k, v⟩, s₁⟩ := r
      rw [hmem] at h
      rw [scanMember_extends hv hmem]
      dsimp only at h ⊢
      split
      · rename_i hs
        simp only [hs] at h
        cases h
      · rename_i c s₂ hs
        simp only [hs] at h
        by_cases hclose : c = closeBrace
        · rw [if_pos hclose] at h ⊢
          exact h
        · rw [if_neg hclose] at h ⊢
          by_cases hcomma : c = comma
          · rw [if_pos hcomma] at h ⊢
            exact ih h
          · rw [if_neg hcomma] at h
            cases h

theorem scanArray_extends : Extends (scanArray value) (scanArray value') := by
  intro s r h
  unfold scanArray at h ⊢
  split
  · rename_i hs
    simp only [hs] at h
    cases h
  · rename_i c rest hs
    simp only [hs] at h
    by_cases hclose : c = closeBracket
    · rw [if_pos hclose] at h ⊢
      exact h
    · rw [if_neg hclose] at h ⊢
      cases helems : scanElems value (c :: rest).length (c :: rest) with
      | error e =>
        rw [helems] at h
        cases h
      | ok q =>
        rw [helems] at h
        rw [scanElems_extends hv helems]
        exact h

theorem scanObject_extends : Extends (scanObject value) (scanObject value') := by
  intro s r h
  unfold scanObject at h ⊢
  split
  · rename_i hs
    simp only [hs] at h
    cases h
  · rename_i c rest hs
    simp only [hs] at h
    by_cases hclose : c = closeBrace
    · rw [if_pos hclose] at h ⊢
      exact h
    · rw [if_neg hclose] at h ⊢
      cases hmembers : scanMembers value (c :: rest).length (c :: rest) [] with
      | error e =>
        rw [hmembers] at h
        cases h
      | ok q =>
        rw [hmembers] at h
        rw [scanMembers_extends hv hmembers]
        exact h

end Scanners

section Values
variable {F : Type} [PyFloat F]

theorem scanValueWith_extends {nested nested' : Option (Str → Scan (Json F))}
    (hn : ∀ value, nested = some value → ∃ value', nested' = some value' ∧ Extends value value') :
    Extends (scanValueWith nested) (scanValueWith nested') := by
  intro s r h
  cases s with
  | nil => cases h
  | cons c rest =>
    unfold scanValueWith at h ⊢
    dsimp only at h ⊢
    by_cases hquote : c = quote
    · rw [if_pos hquote] at h ⊢
      exact h
    rw [if_neg hquote] at h ⊢
    by_cases hbrace : c = openBrace
    · rw [if_pos hbrace] at h ⊢
      cases nested with
      | none => cases h
      | some value =>
        obtain ⟨value', rfl, hext⟩ := hn value rfl
        exact scanObject_extends hext rest r h
    rw [if_neg hbrace] at h ⊢
    by_cases hbracket : c = openBracket
    · rw [if_pos hbracket] at h ⊢
      cases nested with
      | none => cases h
      | some value =>
        obtain ⟨value', rfl, hext⟩ := hn value rfl
        exact scanArray_extends hext rest r h
    rw [if_neg hbracket] at h ⊢
    exact h

theorem scanValue_extends (limit more : Nat) :
    Extends (scanValue (F := F) limit) (scanValue (limit + more)) := by
  induction limit with
  | zero =>
    rw [Nat.zero_add]
    have hnone : Extends (scanValueWith (F := F) none) (scanValue more) := by
      cases more with
      | zero => exact fun _ _ h => h
      | succ more => exact scanValueWith_extends fun value hvalue => nomatch hvalue
    exact hnone
  | succ limit ih =>
    rw [Nat.succ_add]
    apply scanValueWith_extends
    rintro value ⟨⟩
    exact ⟨_, rfl, ih⟩

theorem loads_extends {limit : Nat} (more : Nat) {s : Str} {j : Json F} (h : loads limit s = .ok j) :
    loads (limit + more) s = .ok j := by
  unfold loads at h ⊢
  by_cases hbom : s.head? = some 0xfeff
  · rw [if_pos hbom] at h
    cases h
  · rw [if_neg hbom] at h ⊢
    cases hval : scanValue (F := F) limit (skipSpace s) with
    | error e =>
      rw [hval] at h
      cases h
    | ok r =>
      rw [hval] at h
      rw [scanValue_extends limit more _ r hval]
      exact h

/-- A document has one value. -/
theorem loads_agree {limit limit' : Nat} {s : Str} {j j' : Json F} (h : loads limit s = .ok j)
    (h' : loads limit' s = .ok j') : j = j' := by
  have hmore := loads_extends limit' h
  have hmore' := loads_extends limit h'
  rw [Nat.add_comm] at hmore'
  exact Except.ok.inj (hmore.symm.trans hmore')

end Values

end Support.Json
