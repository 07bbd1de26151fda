import IsaCloud.Support.JsonWellFormed

/-!
# What any text reads as

Text may hold surrogates that no encoder would write, and then a string can hold
a split pair. The rest of what well-formedness asks for holds of every value that
`loads` returns: integers fit, and the keys of each object are distinct.
-/

namespace Support.Json

set_option autoImplicit false

open Text Python

section Predicate
variable {F : Type}

mutual
/-- A value of Python's lists and dicts. -/
def Dicts : Json F → Prop
  | .int n => (natText n.natAbs).length ≤ intMaxStrDigits
  | .arr xs => DictsElems xs
  | .obj m => (Members.keys m).Nodup ∧ DictsMembers m
  | _ => True

def DictsElems : List (Json F) → Prop
  | [] => True
  | x :: xs => Dicts x ∧ DictsElems xs

def DictsMembers : List (Str × Json F) → Prop
  | [] => True
  | (_, v) :: m => Dicts v ∧ DictsMembers m
end

theorem dictsElems_iff {xs : List (Json F)} : DictsElems xs ↔ ∀ x ∈ xs, Dicts x := by
  induction xs with
  | nil => simp [DictsElems]
  | cons x xs ih => simp [DictsElems, ih]

theorem dictsMembers_iff {m : Members F} : DictsMembers m ↔ ∀ kv ∈ m, Dicts kv.2 := by
  induction m with
  | nil => simp [DictsMembers]
  | cons kv m ih => simp [DictsMembers, ih]

theorem dicts_of_wf (j : Json F) (h : WF j) : Dicts j := by
  induction j using inside_induction with
  | null | bool | float | str => exact trivial
  | int n => exact h
  | arr xs ih => exact dictsElems_iff.mpr fun x hx => ih x hx (wfElems_iff.mp h x hx)
  | obj m ih =>
    exact ⟨h.1, dictsMembers_iff.mpr fun kv hkv => ih kv hkv (wfMembers_iff.mp h.2 kv hkv).2⟩

/-- Such a value can be written. -/
theorem intsFit_of_dicts (j : Json F) (h : Dicts j) : intsFit j = true := by
  induction j using inside_induction with
  | null | bool | float | str => rfl
  | int n => exact decide_eq_true h
  | arr xs ih => exact intsFitElems_iff.mpr fun x hx => ih x hx (dictsElems_iff.mp h x hx)
  | obj m ih => exact intsFitMembers_iff.mpr fun kv hkv => ih kv hkv (dictsMembers_iff.mp h.2 kv hkv)

theorem dicts_set {m : Members F} (h : Dicts (.obj m)) (k : Str) {v : Json F} (hv : Dicts v) :
    Dicts (.obj (m.set k v)) := by
  refine ⟨Members.nodup_set h.1 k v, ?_⟩
  rw [dictsMembers_iff]
  intro kv hkv
  rcases mem_set hkv with rfl | hkv
  · exact hv
  · exact dictsMembers_iff.mp h.2 kv hkv

end Predicate

/-! ## The scanner -/

section Scanner
variable {F : Type}

/-- What a scanner of values returns, whatever it scans. -/
def Returns (value : Str → Scan (Json F)) : Prop := ∀ s j rest, value s = .ok (j, rest) → Dicts j

theorem scanElems_dicts {value : Str → Scan (Json F)} (hv : Returns value) {n : Nat} {s rest : Str}
    {xs : List (Json F)} (h : scanElems value n s = .ok (xs, rest)) : ∀ x ∈ xs, Dicts x := by
  induction n generalizing s xs rest with
  | zero => cases h
  | succ n ih =>
    unfold scanElems at h
    split at h
    · cases h
    · rename_i v s₁ hval
      have hd := hv s v s₁ hval
      split at h
      · cases h
      · split at h
        · cases h
          simpa using hd
        · split at h
          · split at h
            · rename_i vs s₃ hrec
              cases h
              intro x hx
              rcases List.mem_cons.mp hx with rfl | hx
              · exact hd
              · exact ih hrec x hx
            · cases h
          · cases h

theorem scanMember_dicts {value : Str → Scan (Json F)} (hv : Returns value) {s rest k : Str} {v : Json F}
    (h : scanMember value s = .ok ((k, v), rest)) : Dicts v := by
  unfold scanMember at h
  split at h
  · cases h
  · split at h
    · cases h
    · rename_i s₂ _
      split at h
      · cases h
      · rename_i v' s₃ hval
        cases h
        exact hv s₂ _ _ hval

theorem scanMembers_dicts {value : Str → Scan (Json F)} (hv : Returns value) {n : Nat} {s rest : Str}
    {acc m : Members F} (h : scanMembers value n s acc = .ok (m, rest)) (hacc : Dicts (.obj acc)) :
    Dicts (.obj m) := by
  induction n generalizing s acc with
  | zero => cases h
  | succ n ih =>
    unfold scanMembers at h
    split at h
    · cases h
    · rename_i k v s₁ hmem
      have hset := dicts_set hacc k (scanMember_dicts hv hmem)
      split at h
      · cases h
      · split at h
        · cases h
          exact hset
        · split at h
          · exact ih h hset
          · cases h

theorem scanArray_dicts {value : Str → Scan (Json F)} (hv : Returns value) {s rest : Str} {j : Json F}
    (h : scanArray value s = .ok (j, rest)) : Dicts j := by
  unfold scanArray at h
  split at h
  · cases h
  · split at h
    · cases h
      exact trivial
    · split at h
      · rename_i vs s' helems
        cases h
        exact dictsElems_iff.mpr (scanElems_dicts hv helems)
      · cases h

theorem scanObject_dicts {value : Str → Scan (Json F)} (hv : Returns value) {s rest : Str} {j : Json F}
    (h : scanObject value s = .ok (j, rest)) : Dicts j := by
  have hempty : Dicts (.obj [] : Json F) := ⟨List.nodup_nil, trivial⟩
  unfold scanObject at h
  split at h
  · cases h
  · split at h
    · cases h
      exact hempty
    · split at h
      · rename_i m s' hmembers
        cases h
        exact scanMembers_dicts hv hmembers hempty
      · cases h

theorem scanConstant_mem {s rest : Str} {j : Json F} {l : List (Str × Json F)}
    (h : scanConstant s l = some (j, rest)) : ∃ w, (w, j) ∈ l := by
  induction l with
  | nil => cases h
  | cons p l ih =>
    obtain ⟨w, v⟩ := p
    unfold scanConstant at h
    split at h
    · cases h
      exact ⟨w, List.mem_cons_self⟩
    · obtain ⟨w', hw'⟩ := ih h
      exact ⟨w', List.mem_cons_of_mem _ hw'⟩

variable [PyFloat F]

theorem dicts_of_constant {w : Str} {j : Json F} (h : (w, j) ∈ constants) : Dicts j := by
  simp only [constants, List.mem_cons, List.not_mem_nil, or_false, Prod.mk.injEq] at h
  rcases h with ⟨_, rfl⟩ | ⟨_, rfl⟩ | ⟨_, rfl⟩ | ⟨_, rfl⟩ | ⟨_, rfl⟩ | ⟨_, rfl⟩ <;> exact trivial

theorem scanValueWith_dicts {nested : Option (Str → Scan (Json F))}
    (hn : ∀ value, nested = some value → Returns value) : Returns (scanValueWith nested) := by
  intro s j rest h
  unfold scanValueWith at h
  split at h
  · cases h
  · split at h
    · split at h
      · cases h
        exact trivial
      · cases h
    · split at h
      · split at h
        · exact scanObject_dicts (hn _ rfl) h
        · cases h
      · split at h
        · split at h
          · exact scanArray_dicts (hn _ rfl) h
          · cases h
        · split at h
          · rename_i hconst
            cases h
            obtain ⟨w, hw⟩ := scanConstant_mem hconst
            exact dicts_of_constant hw
          · exact dicts_of_wf j (scanNumber_spec h).2.1

theorem scanValue_dicts (limit : Nat) : Returns (scanValue (F := F) limit) := by
  induction limit with
  | zero => exact scanValueWith_dicts fun value hv => nomatch hv
  | succ limit ih =>
    refine scanValueWith_dicts ?_
    intro value hv
    cases hv
    exact ih

theorem loads_dicts {limit : Nat} {s : Str} {j : Json F} (h : loads limit s = .ok j) : Dicts j := by
  unfold loads at h
  split at h
  · cases h
  · split at h
    · cases h
    · rename_i v rest hval
      split at h
      · cases h
        exact scanValue_dicts limit _ _ _ hval
      · cases h

end Scanner

end Support.Json
