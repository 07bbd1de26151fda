import IsaCloud.Storage.LocalClient
import IsaCloud.Support.ListParts

/-!
# What the name rewriting leaves

Both storage clients lower a user id or a bucket name, turn underscores into
hyphens, collapse runs of hyphens and strip them from the ends. `CleanName` is what
every result satisfies; a clean text stays as it is.
-/

namespace IsaCloud.Storage

set_option autoImplicit false

open Support Support.Text

/-! ## Replacing one character -/

section Characters
variable {a b c : CodePoint} {s : Str}

@[simp] theorem length_replaceChar : (replaceChar a b s).length = s.length := List.length_map _

theorem mem_replaceChar (h : c ∈ replaceChar a b s) : c = b ∨ c ∈ s := by
  obtain ⟨x, hx, rfl⟩ := List.mem_map.mp h
  split
  · exact .inl rfl
  · exact .inr hx

theorem not_mem_replaceChar (hne : b ≠ a) : a ∉ replaceChar a b s := by
  intro h
  obtain ⟨x, -, hx⟩ := List.mem_map.mp h
  split at hx
  · exact hne hx
  · rename_i hxa
    exact hxa hx

theorem replaceChar_of_not_mem (h : a ∉ s) : replaceChar a b s = s := by
  calc s.map (fun c => if c = a then b else c) = s.map id := by
        apply List.map_congr_left
        intro c hc
        exact if_neg fun hca : c = a => h (hca ▸ hc)
    _ = s := List.map_id s

end Characters

/-! ## Collapsing hyphens -/

theorem hasDouble_iff {s : Str} : hasDouble s = true ↔ [hyphen, hyphen] <:+: s := by
  induction s with
  | nil => simp [hasDouble]
  | cons a s ih =>
    cases s with
    | nil => simp [hasDouble, List.infix_cons_iff, List.prefix_cons_iff]
    | cons b s =>
      rw [hasDouble, Bool.or_eq_true, Bool.and_eq_true, decide_eq_true_eq, decide_eq_true_eq, ih,
        List.infix_cons_iff (a := a), List.cons_prefix_cons, List.cons_prefix_cons]
      simp only [List.nil_prefix, and_true]
      exact or_congr_left (and_congr eq_comm eq_comm)

theorem mem_replaceDouble {c : CodePoint} {s : Str} (h : c ∈ replaceDouble s) : c ∈ s := by
  fun_induction replaceDouble s with
  | case1 a b s hab ih =>
    rcases List.mem_cons.mp h with rfl | h
    · exact List.mem_cons.mpr (.inl hab.1.symm)
    · exact List.mem_cons_of_mem _ (List.mem_cons_of_mem _ (ih h))
  | case2 a b s hab ih =>
    rcases List.mem_cons.mp h with rfl | h
    · exact List.mem_cons_self
    · exact List.mem_cons_of_mem _ (ih h)
  | case3 s hs => exact h

theorem length_replaceDouble_le (s : Str) : (replaceDouble s).length ≤ s.length := by
  fun_induction replaceDouble s with
  | case1 a b s hab ih =>
    simp only [List.length_cons]
    omega
  | case2 a b s hab ih =>
    simp only [List.length_cons] at ih ⊢
    omega
  | case3 s hs => exact Nat.le_refl _

/-- Every pass makes a text with a double hyphen shorter. -/
theorem length_replaceDouble_lt {s : Str} (h : hasDouble s = true) : (replaceDouble s).length < s.length := by
  fun_induction replaceDouble s with
  | case1 a b s hab ih =>
    have := length_replaceDouble_le s
    simp only [List.length_cons]
    omega
  | case2 a b s hab ih =>
    have hrest : hasDouble (b :: s) = true := by
      rw [hasDouble, Bool.or_eq_true, Bool.and_eq_true, decide_eq_true_eq, decide_eq_true_eq] at h
      exact h.resolve_left hab
    have := ih hrest
    simp only [List.length_cons] at this ⊢
    omega
  | case3 s hs =>
    rcases s with _ | ⟨a, _ | ⟨b, s⟩⟩
    · cases h
    · cases h
    · exact absurd rfl (hs a b s)

theorem hasDouble_collapseLoop {n : Nat} {s : Str} (h : s.length ≤ n) : hasDouble (collapseLoop n s) = false := by
  induction n generalizing s with
  | zero =>
    rw [List.eq_nil_of_length_eq_zero (Nat.le_zero.mp h)]
    rfl
  | succ n ih =>
    rw [collapseLoop]
    cases hd : hasDouble s with
    | false => exact hd
    | true =>
      have := length_replaceDouble_lt hd
      exact ih (by omega)

theorem hasDouble_collapse (s : Str) : hasDouble (collapse s) = false := hasDouble_collapseLoop (Nat.le_refl _)

theorem collapse_of_not_hasDouble {s : Str} (h : hasDouble s = false) : collapse s = s := by
  unfold collapse
  cases s.length with
  | zero => rfl
  | succ n =>
    rw [collapseLoop, h]
    rfl

theorem collapseLoop_keeps (n : Nat) (s : Str) :
    (∀ c ∈ collapseLoop n s, c ∈ s) ∧ (collapseLoop n s).length ≤ s.length := by
  induction n generalizing s with
  | zero => exact ⟨fun c hc => hc, Nat.le_refl _⟩
  | succ n ih =>
    rw [collapseLoop]
    split
    · obtain ⟨hmem, hlen⟩ := ih (replaceDouble s)
      exact ⟨fun c hc => mem_replaceDouble (hmem c hc), Nat.le_trans hlen (length_replaceDouble_le s)⟩
    · exact ⟨fun c hc => hc, Nat.le_refl _⟩

theorem mem_collapse {c : CodePoint} {s : Str} (h : c ∈ collapse s) : c ∈ s := (collapseLoop_keeps _ s).1 c h

theorem length_collapse_le (s : Str) : (collapse s).length ≤ s.length := (collapseLoop_keeps _ s).2

/-! ## Stripping hyphens -/

theorem stripHyphens_eq (s : Str) : stripHyphens s = trim (· == hyphen) s := rfl

theorem strip_isInfix (s : Str) : stripHyphens s <:+: s := trim_isInfix _ s

theorem stripHyphens_first {s t : Str} : stripHyphens s ≠ hyphen :: t := by
  intro h
  have hfirst : (trim (· == hyphen) s).head? = some hyphen := by
    rw [← stripHyphens_eq, h]
    rfl
  exact absurd (not_of_head?_trim _ hfirst) (by simp)

theorem stripHyphens_last {s t : Str} : stripHyphens s ≠ t ++ [hyphen] := by
  intro h
  have hlast : (trim (· == hyphen) s).getLast? = some hyphen := by
    rw [← stripHyphens_eq, h]
    exact List.getLast?_concat
  exact absurd (not_of_getLast?_trim _ hlast) (by simp)

theorem stripHyphens_of_ends {s : Str} (hfirst : ∀ t, s ≠ hyphen :: t) (hlast : ∀ t, s ≠ t ++ [hyphen]) :
    stripHyphens s = s := by
  refine trim_of_ends _ ?_ ?_
  · intro a ha
    obtain ⟨t, ht⟩ := List.head?_eq_some_iff.mp ha
    apply beq_eq_false_iff_ne.mpr
    rintro rfl
    exact hfirst t ht
  · intro a ha
    obtain ⟨t, ht⟩ := List.getLast?_eq_some_iff.mp ha
    apply beq_eq_false_iff_ne.mpr
    rintro rfl
    exact hlast t ht

theorem length_strip_le (s : Str) : (stripHyphens (collapse s)).length ≤ s.length :=
  Nat.le_trans (strip_isInfix _).length_le (length_collapse_le s)

/-! ## Clean names -/

section CleanNames
variable [Host]

/-- `lower` leaves the character as it is. -/
def Stable (c : CodePoint) : Prop := Host.lower [c] = [c]

/-- What `str.lower` documents: its results are lower case, lower case stays, and
of ASCII only the capital letters are not. -/
class LawfulLower : Prop where
  stable_lower : ∀ s : Str, ∀ c ∈ Host.lower s, Stable c
  lower_of_stable : ∀ s : Str, (∀ c ∈ s, Stable c) → Host.lower s = s
  stable_ascii : ∀ c : CodePoint, c.val < 128 → ¬ (65 ≤ c.val ∧ c.val ≤ 90) → Stable c

structure CleanName (s : Str) : Prop where
  stable : ∀ c ∈ s, Stable c
  underscore : cp '_' ∉ s
  single : ¬ [hyphen, hyphen] <:+: s
  first : ∀ t, s ≠ hyphen :: t
  last : ∀ t, s ≠ t ++ [hyphen]

theorem CleanName.collapse_eq {s : Str} (h : CleanName s) : stripHyphens (collapse s) = s := by
  have hd : hasDouble s = false := Bool.eq_false_iff.mpr fun hd => h.single (hasDouble_iff.mp hd)
  rw [collapse_of_not_hasDouble hd, stripHyphens_of_ends h.first h.last]

theorem cleanName_strip {s : Str} (hstable : ∀ c ∈ s, Stable c) (hunder : cp '_' ∉ s) : CleanName (stripHyphens (collapse s)) where
  stable c hc := hstable c (mem_collapse ((strip_isInfix _).mem hc))
  underscore hc := hunder (mem_collapse ((strip_isInfix _).mem hc))
  single hd := by
    have hno := hasDouble_collapse s
    rw [hasDouble_iff.mpr (hd.trans (strip_isInfix _))] at hno
    cases hno
  first _ := stripHyphens_first
  last _ := stripHyphens_last

variable [LawfulLower]

theorem stable_hyphen : Stable hyphen := LawfulLower.stable_ascii _ (by decide) (by decide)

theorem stable_replaceChar {a : CodePoint} {s : Str} (h : ∀ c ∈ s, Stable c) : ∀ c ∈ replaceChar a hyphen s, Stable c := by
  intro c hc
  rcases mem_replaceChar hc with rfl | hc
  · exact stable_hyphen
  · exact h c hc

theorem cleanName_safeBucket (b : Str) : CleanName (safeBucket b) :=
  cleanName_strip (stable_replaceChar (LawfulLower.stable_lower b)) (not_mem_replaceChar (by decide))

theorem cleanName_safeUserId (u : Str) : CleanName (safeUserId u) := by
  apply cleanName_strip (stable_replaceChar (stable_replaceChar (LawfulLower.stable_lower u)))
  intro hc
  rcases mem_replaceChar hc with hh | hc
  · exact absurd hh (by decide)
  · exact not_mem_replaceChar (by decide) hc

theorem safeBucket_of_cleanName {b : Str} (h : CleanName b) : safeBucket b = b := by
  rw [safeBucket, LawfulLower.lower_of_stable b h.stable, replaceChar_of_not_mem h.underscore, h.collapse_eq]

/-- Text that is lower case already does not grow. -/
theorem length_safeUserId_le {u : Str} (h : ∀ c ∈ u, Stable c) : (safeUserId u).length ≤ u.length := by
  have hle := length_strip_le (replaceChar (cp '|') hyphen (replaceChar (cp '_') hyphen (Host.lower u)))
  rw [length_replaceChar, length_replaceChar, LawfulLower.lower_of_stable u h] at hle
  rw [safeUserId, LawfulLower.lower_of_stable u h]
  exact hle

end CleanNames

end IsaCloud.Storage
