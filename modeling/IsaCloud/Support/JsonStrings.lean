import IsaCloud.Support.JsonErrors
import IsaCloud.Support.JsonWellFormed

/-!
# A JSON string is longer than what it says

Every character of a string is written with at least one, and the quotes come on top.
So no text reads as the string that it is.
-/

namespace Support.Json

set_option autoImplicit false

open Text Python

theorem scanUnit_length {s rest : Str} {u : Nat} (h : scanUnit s = some (u, rest)) : rest.length < s.length := by
  unfold scanUnit at h
  split at h
  · obtain ⟨v, -, heq⟩ := Option.map_eq_some_iff.mp h
    cases heq
    simp only [List.length_cons]
    omega
  · cases h

theorem scanLowSurrogate_length {s rest : Str} {lo : Nat} (h : scanLowSurrogate s = .ok (some (lo, rest))) :
    rest.length ≤ s.length := (scanLowSurrogate_some h).2.length_le

theorem scanUnicode_length {s rest : Str} {c : CodePoint} (h : scanUnicode s = .ok (c, rest)) :
    rest.length < s.length := by
  unfold scanUnicode at h
  split at h
  · cases h
  · rename_i u tail hu
    have htail := scanUnit_length hu
    split at h
    · split at h
      · cases h
      · rename_i hlow
        have hrest := scanLowSurrogate_length hlow
        obtain ⟨-, rfl⟩ := Prod.mk.inj (Except.ok.inj h)
        exact Nat.lt_of_le_of_lt hrest htail
      · obtain ⟨-, rfl⟩ := Prod.mk.inj (Except.ok.inj h)
        exact htail
    · obtain ⟨-, rfl⟩ := Prod.mk.inj (Except.ok.inj h)
      exact htail

theorem scanPoint_length {s rest : Str} {oc : Option CodePoint} (h : scanPoint s = .ok (oc, rest)) :
    rest.length < s.length := by
  have hescape : ∀ {t : Str} {c : CodePoint}, scanEscape t = .ok (c, rest) → rest.length < t.length := by
    intro t c h
    unfold scanEscape at h
    split at h
    · cases h
    · split at h
      · exact Nat.lt_succ_of_lt (scanUnicode_length h)
      · split at h
        · cases h
          exact Nat.lt_succ_self _
        · cases h
  unfold scanPoint at h
  split at h
  · cases h
  · split at h
    · cases h
      exact Nat.lt_succ_self _
    · split at h
      · split at h
        · rename_i hesc
          cases h
          exact Nat.lt_succ_of_lt (hescape hesc)
        · cases h
      · split at h
        · cases h
        · cases h
          exact Nat.lt_succ_self _

theorem scanPoints_length {n : Nat} {s t rest : Str} (h : scanPoints n s = .ok (t, rest)) :
    t.length + rest.length < s.length := by
  induction n generalizing s t with
  | zero => cases h
  | succ n ih =>
    rw [scanPoints] at h
    split at h
    · cases h
    · rename_i hp
      cases h
      have hlt := scanPoint_length hp
      rwa [List.length_nil, Nat.zero_add]
    · rename_i hp
      have hlt := scanPoint_length hp
      split at h
      · rename_i hps
        cases h
        have hle := ih hps
        rw [List.length_cons]
        omega
      · cases h

section Values
variable {F : Type}

theorem scanObject_ne_str {value : Str → Scan (Json F)} {s t rest : Str} : scanObject value s ≠ .ok (.str t, rest) := by
  intro h
  unfold scanObject at h
  split at h
  · cases h
  · split at h
    · cases h
    · split at h
      · cases h
      · cases h

theorem scanArray_ne_str {value : Str → Scan (Json F)} {s t rest : Str} : scanArray value s ≠ .ok (.str t, rest) := by
  intro h
  unfold scanArray at h
  split at h
  · cases h
  · split at h
    · cases h
    · split at h
      · cases h
      · cases h

variable [PyFloat F]

theorem scanConstant_ne_str {s t rest : Str} : scanConstant (F := F) s constants ≠ some (.str t, rest) := by
  have hnone : ∀ l : List (Str × Json F), (∀ w ∈ l, ∀ t, w.2 ≠ .str t) → scanConstant s l ≠ some (.str t, rest) := by
    intro l hl
    induction l with
    | nil =>
      intro h
      cases h
    | cons w l ih =>
      intro h
      unfold scanConstant at h
      split at h
      · exact hl w List.mem_cons_self t (congrArg Prod.fst (Option.some.inj h))
      · exact ih (fun w' hw' => hl w' (List.mem_cons_of_mem w hw')) h
  apply hnone
  intro w hw t
  simp only [constants, List.mem_cons, List.not_mem_nil, or_false] at hw
  rcases hw with rfl | rfl | rfl | rfl | rfl | rfl <;> (intro h; cases h)

theorem scanNumber_ne_str {s t rest : Str} : scanNumber (F := F) s ≠ .ok (.str t, rest) := by
  intro h
  unfold scanNumber at h
  split at h
  · cases h
  · dsimp only at h
    split at h
    · split at h
      · cases h
      · cases h
    · cases h

/-- Only a text in quotes reads as a string. -/
theorem scanValueWith_str {nested : Option (Str → Scan (Json F))} {s t rest : Str}
    (h : scanValueWith nested s = .ok (.str t, rest)) : t.length < s.length := by
  unfold scanValueWith at h
  split at h
  · cases h
  split at h
  · split at h
    · rename_i hstring
      cases h
      have hlt := scanPoints_length hstring
      rw [List.length_cons]
      omega
    · cases h
  split at h
  · split at h
    · exact absurd h scanObject_ne_str
    · cases h
  split at h
  · split at h
    · exact absurd h scanArray_ne_str
    · cases h
  split at h
  · rename_i hconstant
    cases h
    exact absurd hconstant scanConstant_ne_str
  · exact absurd h scanNumber_ne_str

/-- No text reads as itself. -/
theorem loads_ne_self (limit : Nat) (s : Str) : loads (F := F) limit s ≠ .ok (.str s) := by
  intro h
  unfold loads at h
  split at h
  · cases h
  split at h
  · cases h
  · rename_i v rest hv
    split at h
    · cases h
      have hlt : s.length < (skipSpace s).length := by
        cases limit with
        | zero => exact scanValueWith_str hv
        | succ limit => exact scanValueWith_str hv
      exact absurd hlt (Nat.not_lt_of_le (skipSpace_suffix s).length_le)
    · cases h

end Values

end Support.Json
