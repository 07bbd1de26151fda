import IsaCloud.Support.JsonSpelling

/-!
# What `json.dumps` writes, `json.loads` reads back

The compact and the indented text of a value are spellings of it, so both read
back as the value. The compact text determines the value, and the canonical text
determines it up to the order of the members of its objects.
-/

namespace Support.Json

set_option autoImplicit false

open Text Python

variable {F : Type} [PyFloat F]

/-! ## The written texts are spellings -/

theorem memberSpelling_compact (k t : Str) : MemberSpelling k t (quoted k ++ colon :: t) :=
  ⟨quoted k, [], [], quotedSpelling_quoted k, blank_nil, blank_nil, rfl⟩

theorem spellsElems_compact {xs : List (Json F)} (h : ∀ x ∈ xs, Spells x (compact x)) :
    SpellsElems xs (compactElems xs) := by
  induction xs with
  | nil => exact ⟨[], blank_nil, rfl⟩
  | cons x xs ih =>
    exact ⟨[], [], _, _, blank_nil, blank_nil, h x List.mem_cons_self,
      ih fun y hy => h y (List.mem_cons_of_mem x hy), rfl⟩

theorem spellsMembers_compact {m : Members F} (h : ∀ kv ∈ m, Spells kv.2 (compact kv.2)) :
    SpellsMembers m (compactMembers m) := by
  induction m with
  | nil => exact ⟨[], blank_nil, rfl⟩
  | cons kv m ih =>
    obtain ⟨k, x⟩ := kv
    refine ⟨[], [], _, _, _, blank_nil, blank_nil, h _ List.mem_cons_self,
      memberSpelling_compact k _, ih fun kv hkv => h kv (List.mem_cons_of_mem _ hkv), ?_⟩
    simp only [compactMembers, List.nil_append, List.append_assoc, List.cons_append]

theorem spells_compact (j : Json F) : Spells j (compact j) := by
  induction j using inside_induction with
  | null => rfl
  | bool b => cases b <;> rfl
  | int n => rfl
  | float x => rfl
  | str s => exact quotedSpelling_quoted s
  | arr xs ih =>
    cases xs with
    | nil => exact ⟨[], blank_nil, rfl⟩
    | cons x xs =>
      exact ⟨[], _, _, blank_nil, ih x List.mem_cons_self,
        spellsElems_compact fun y hy => ih y (List.mem_cons_of_mem x hy), rfl⟩
  | obj m ih =>
    cases m with
    | nil => exact ⟨[], blank_nil, rfl⟩
    | cons kv m =>
      obtain ⟨k, x⟩ := kv
      refine ⟨[], _, _, _, blank_nil, ih _ List.mem_cons_self, memberSpelling_compact k _,
        spellsMembers_compact fun kv hkv => ih kv (List.mem_cons_of_mem _ hkv), ?_⟩
      simp only [compact, List.nil_append, List.append_assoc, List.cons_append]

theorem blank_newline (level : Nat) : Blank (newline level) := by
  intro c hc
  rcases List.mem_cons.mp hc with rfl | hc
  · rfl
  · rw [(List.mem_replicate.mp hc).2]
    rfl

theorem memberSpelling_indented (k t : Str) :
    MemberSpelling k t (quoted k ++ colon :: 32 :: t) := by
  refine ⟨quoted k, [], [32], quotedSpelling_quoted k, blank_nil, ?_, rfl⟩
  intro c hc
  rw [List.mem_singleton.mp hc]
  rfl

theorem spellsElems_indented {xs : List (Json F)} {level : Nat}
    (h : ∀ x ∈ xs, Spells x (indented (level + 1) x)) : SpellsElems xs (indentedElems level xs) := by
  induction xs with
  | nil => exact ⟨_, blank_newline level, rfl⟩
  | cons x xs ih =>
    exact ⟨[], _, _, _, blank_nil, blank_newline (level + 1), h x List.mem_cons_self,
      ih fun y hy => h y (List.mem_cons_of_mem x hy), rfl⟩

theorem spellsMembers_indented {m : Members F} {level : Nat}
    (h : ∀ kv ∈ m, Spells kv.2 (indented (level + 1) kv.2)) :
    SpellsMembers m (indentedMembers level m) := by
  induction m with
  | nil => exact ⟨_, blank_newline level, rfl⟩
  | cons kv m ih =>
    obtain ⟨k, x⟩ := kv
    refine ⟨[], _, _, _, _, blank_nil, blank_newline (level + 1), h _ List.mem_cons_self,
      memberSpelling_indented k _, ih fun kv hkv => h kv (List.mem_cons_of_mem _ hkv), ?_⟩
    simp only [indentedMembers, List.nil_append, List.append_assoc, List.cons_append]

theorem spells_indented (j : Json F) (level : Nat) : Spells j (indented level j) := by
  induction j using inside_induction generalizing level with
  | null | bool | int | float | str =>
    rw [indented]
    · exact spells_compact _
    all_goals
      intros
      simp_all
  | arr xs ih =>
    cases xs with
    | nil =>
      rw [indented]
      · exact spells_compact _
      all_goals
        intros
        simp_all
    | cons x xs =>
      rw [indented]
      exact ⟨_, _, _, blank_newline (level + 1), ih x List.mem_cons_self (level + 1),
        spellsElems_indented fun y hy => ih y (List.mem_cons_of_mem x hy) (level + 1), rfl⟩
  | obj m ih =>
    cases m with
    | nil =>
      rw [indented]
      · exact spells_compact _
      all_goals
        intros
        simp_all
    | cons kv m =>
      obtain ⟨k, x⟩ := kv
      rw [indented]
      refine ⟨_, _, _, _, blank_newline (level + 1), ih _ List.mem_cons_self (level + 1),
        memberSpelling_indented k _,
        spellsMembers_indented fun kv hkv => ih kv (List.mem_cons_of_mem _ hkv) (level + 1), ?_⟩
      simp only [List.append_assoc, List.cons_append]

theorem spelling_of_spells {j : Json F} {t : Str} (h : Spells j t) : Spelling j t :=
  ⟨[], t, [], blank_nil, h, blank_nil, (List.append_nil t).symm⟩

/-! ## Reading the compact text -/

theorem loads_compact [LawfulPyFloat F] {j : Json F} (hj : WF j) {limit : Nat}
    (hd : depth j ≤ limit) : loads limit (compact j) = .ok j :=
  loads_spelling hj hd (spelling_of_spells (spells_compact j))

theorem compact_injective [LawfulPyFloat F] {j j' : Json F} (hj : WF j) (hj' : WF j')
    (h : compact j = compact j') : j = j' := by
  have h1 := loads_compact hj (Nat.le_max_left (depth j) (depth j'))
  have h2 := loads_compact hj' (Nat.le_max_right (depth j) (depth j'))
  rw [h, h2] at h1
  exact (Except.ok.inj h1).symm

/-! ## The canonical text -/

section Sorted
omit [PyFloat F]

theorem wf_sorted {j : Json F} (hj : WF j) : WF (sorted j) := by
  induction j using inside_induction with
  | null => exact hj
  | bool b => exact hj
  | int n => exact hj
  | float x => exact hj
  | str s => exact hj
  | arr xs ih =>
    have hwf := wfElems_iff.mp hj
    refine wfElems_iff.mpr ?_
    intro y hy
    rw [sortedElems_eq_map] at hy
    obtain ⟨x, hx, rfl⟩ := List.mem_map.mp hy
    exact ih x hx (hwf x hx)
  | obj m ih =>
    obtain ⟨hnodup, hwf⟩ := hj
    have hwf := wfMembers_iff.mp hwf
    have hperm := List.perm_insertionSort keyLe (sortedMembers m)
    constructor
    · have hkeys := (hperm.map Prod.fst).nodup_iff.mpr
      apply hkeys
      change (Members.keys (sortedMembers m)).Nodup
      exact (keys_sortedMembers m).symm ▸ hnodup
    · refine wfMembers_iff.mpr ?_
      intro kv hkv
      rw [List.mem_insertionSort, sortedMembers_eq_map] at hkv
      obtain ⟨kv, hmem, rfl⟩ := List.mem_map.mp hkv
      exact ⟨(hwf kv hmem).1, ih kv hmem (hwf kv hmem).2⟩

end Sorted

/-- The canonical text determines a value up to the order of the members of its
objects. -/
theorem sorted_of_canonical_eq [LawfulPyFloat F] {j j' : Json F} (hj : WF j) (hj' : WF j')
    (h : canonical j = canonical j') : sorted j = sorted j' :=
  compact_injective (wf_sorted hj) (wf_sorted hj') h

/-! ## Compact text is printable ASCII -/

def Printable (s : Str) : Prop := ∀ c ∈ s, 0x20 ≤ c.val ∧ c.val ≤ 0x7e

theorem Printable.nil : Printable [] := by
  intro c hc
  cases hc

theorem Printable.cons {c : CodePoint} {s : Str} (hc : 0x20 ≤ c.val ∧ c.val ≤ 0x7e)
    (hs : Printable s) : Printable (c :: s) := by
  intro d hd
  rcases List.mem_cons.mp hd with rfl | hd
  · exact hc
  · exact hs d hd

theorem Printable.append {s t : Str} (hs : Printable s) (ht : Printable t) : Printable (s ++ t) := by
  intro c hc
  rcases List.mem_append.mp hc with hc | hc
  · exact hs c hc
  · exact ht c hc

theorem printable_of_all {s : Str}
    (h : s.all (fun c => decide (0x20 ≤ c.val ∧ c.val ≤ 0x7e)) = true) : Printable s := fun c hc =>
  of_decide_eq_true (List.all_eq_true.mp h c hc)

theorem printable_digit {c : CodePoint} (h : isDigit c = true) : 0x20 ≤ c.val ∧ c.val ≤ 0x7e := by
  have := of_decide_eq_true h
  omega

theorem printable_natText (n : Nat) : Printable (natText n) := fun _ hc =>
  printable_digit (isDigit_of_mem_natText hc)

theorem printable_intText (n : Int) : Printable (intText n) := by
  cases n with
  | ofNat n => exact printable_natText n
  | negSucc n => exact Printable.cons (by decide) (printable_natText (n + 1))

theorem printable_hexDigit : ∀ d < 16, 0x20 ≤ (hexDigit d).val ∧ (hexDigit d).val ≤ 0x7e := by
  decide

theorem printable_escapeUnit (u : Nat) : Printable (escapeUnit u) := by
  have hd : ∀ n : Nat, 0x20 ≤ (hexDigit (n % 16)).val ∧ (hexDigit (n % 16)).val ≤ 0x7e := fun n =>
    printable_hexDigit _ (Nat.mod_lt n (by decide))
  exact Printable.cons (by decide) (Printable.cons (by decide) (Printable.cons (hd _)
    (Printable.cons (hd _) (Printable.cons (hd _) (Printable.cons (hd _) Printable.nil)))))

theorem printable_escapePoint (c : CodePoint) : Printable (escapePoint c) := by
  have hshort : shortEscapes.all
      (fun p => decide (0x20 ≤ p.2.val ∧ p.2.val ≤ 0x7e)) = true := by decide
  unfold escapePoint
  split
  · rename_i letter hlookup
    obtain ⟨l₁, l₂, hsplit, -⟩ := List.lookup_eq_some_iff.mp hlookup
    have hmem : (c, letter) ∈ shortEscapes := by
      rw [hsplit]
      exact List.mem_append_right _ List.mem_cons_self
    have hletter := of_decide_eq_true (List.all_eq_true.mp hshort _ hmem)
    exact Printable.cons (by decide) (Printable.cons hletter Printable.nil)
  · split_ifs with h1 h2
    · exact Printable.cons h1 Printable.nil
    · exact printable_escapeUnit _
    · exact (printable_escapeUnit _).append (printable_escapeUnit _)

theorem printable_quoted (s : Str) : Printable (quoted s) := by
  have hbody : Printable (s.flatMap escapePoint) := by
    intro c hc
    obtain ⟨d, -, hd⟩ := List.mem_flatMap.mp hc
    exact printable_escapePoint d c hd
  exact Printable.cons (by decide) (hbody.append (Printable.cons (by decide) Printable.nil))

theorem printable_number {i f e : Str} (hi : IntPart i) (hf : FractionPart f) (he : ExponentPart e) :
    Printable (i ++ f ++ e) := by
  have hdigits : ∀ ds : Str, (∀ c ∈ ds, isDigit c = true) → Printable ds := fun ds hds c hc =>
    printable_digit (hds c hc)
  have hmark : ∀ m : CodePoint, m = cp 'e' ∨ m = cp 'E' → 0x20 ≤ m.val ∧ m.val ≤ 0x7e := by
    rintro m (rfl | rfl) <;> decide
  have hsign : ∀ m : CodePoint, m = cp '+' ∨ m = minus → 0x20 ≤ m.val ∧ m.val ≤ 0x7e := by
    rintro m (rfl | rfl) <;> decide
  refine (Printable.append ?_ ?_).append ?_
  · induction hi with
    | zero => exact Printable.cons (by decide) Printable.nil
    | pos _ hc hds => exact Printable.cons (printable_digit hc) (hdigits _ hds)
    | neg _ _ ih => exact Printable.cons (by decide) ih
  · cases hf with
    | none => exact Printable.nil
    | digits hd hds => exact Printable.cons (by decide) (Printable.cons (printable_digit hd) (hdigits _ hds))
  · cases he with
    | none => exact Printable.nil
    | digits hm hd hds => exact Printable.cons (hmark _ hm) (Printable.cons (printable_digit hd) (hdigits _ hds))
    | signed hm hs hd hds =>
      exact Printable.cons (hmark _ hm)
        (Printable.cons (hsign _ hs) (Printable.cons (printable_digit hd) (hdigits _ hds)))

theorem printable_compact [LawfulPyFloat F] (j : Json F) : Printable (compact j) := by
  induction j using inside_induction with
  | null =>
    rw [compact]
    exact printable_of_all (by decide)
  | bool b =>
    cases b with
    | false =>
      rw [compact]
      exact printable_of_all (by decide)
    | true =>
      rw [compact]
      exact printable_of_all (by decide)
  | int n => exact printable_intText n
  | float x =>
    rw [compact]
    rcases LawfulPyFloat.dump_spec x with ⟨-, h⟩ | ⟨-, h⟩ | ⟨-, h⟩ | ⟨i, f, e, hi, hf, he, -, h, -⟩
    · exact h ▸ printable_of_all (by decide)
    · exact h ▸ printable_of_all (by decide)
    · exact h ▸ printable_of_all (by decide)
    · exact h ▸ printable_number hi hf he
  | str s => exact printable_quoted s
  | arr xs ih =>
    have helems : ∀ ys : List (Json F), (∀ y ∈ ys, Printable (compact y)) →
        Printable (compactElems ys) := by
      intro ys hys
      induction ys with
      | nil =>
        rw [compactElems]
        exact printable_of_all (by decide)
      | cons y ys ihs =>
        exact Printable.cons (by decide) ((hys y List.mem_cons_self).append
          (ihs fun z hz => hys z (List.mem_cons_of_mem y hz)))
    cases xs with
    | nil =>
      rw [compact]
      exact printable_of_all (by decide)
    | cons x xs =>
      exact Printable.cons (by decide) ((ih x List.mem_cons_self).append
        (helems xs fun y hy => ih y (List.mem_cons_of_mem x hy)))
  | obj m ih =>
    have hmembers : ∀ ms : Members F, (∀ kv ∈ ms, Printable (compact kv.2)) →
        Printable (compactMembers ms) := by
      intro ms hms
      induction ms with
      | nil =>
        rw [compactMembers]
        exact printable_of_all (by decide)
      | cons kv ms ihs =>
        exact Printable.cons (by decide) ((printable_quoted kv.1).append (Printable.cons (by decide)
          ((hms kv List.mem_cons_self).append
            (ihs fun z hz => hms z (List.mem_cons_of_mem kv hz)))))
    cases m with
    | nil =>
      rw [compact]
      exact printable_of_all (by decide)
    | cons kv m =>
      exact Printable.cons (by decide) ((printable_quoted kv.1).append (Printable.cons (by decide)
        ((ih kv List.mem_cons_self).append
          (hmembers m fun y hy => ih y (List.mem_cons_of_mem kv hy)))))

/-! ## The indented text is ASCII -/

def Ascii (s : Str) : Prop := ∀ c ∈ s, c.val < 0x80

theorem ascii_of_printable {s : Str} (h : Printable s) : Ascii s := by
  intro c hc
  have := h c hc
  omega

theorem Ascii.append {s t : Str} (hs : Ascii s) (ht : Ascii t) : Ascii (s ++ t) := by
  intro c hc
  rcases List.mem_append.mp hc with h | h
  · exact hs c h
  · exact ht c h

theorem Ascii.cons {c : CodePoint} {s : Str} (hc : c.val < 0x80) (hs : Ascii s) : Ascii (c :: s) := by
  intro d hd
  rcases List.mem_cons.mp hd with rfl | hd
  · exact hc
  · exact hs d hd

theorem ascii_newline (level : Nat) : Ascii (newline level) := by
  apply Ascii.cons (by decide)
  intro c hc
  rw [(List.mem_replicate.mp hc).2]
  decide

theorem ascii_closing (level : Nat) {c : CodePoint} (hc : c.val < 0x80) :
    Ascii (newline level ++ [c]) :=
  (ascii_newline level).append (Ascii.cons hc fun _ hd => nomatch hd)

theorem ascii_indentedMember {level : Nat} {t u : Str} (k : Str) (ht : Ascii t) (hu : Ascii u) :
    Ascii (newline level ++ (quoted k ++ colon :: 32 :: (t ++ u))) := by
  apply (ascii_newline level).append
  apply (ascii_of_printable (printable_quoted k)).append
  apply Ascii.cons (by decide)
  apply Ascii.cons (by decide)
  exact ht.append hu

theorem ascii_indentedElems {xs : List (Json F)} {level : Nat}
    (h : ∀ x ∈ xs, Ascii (indented (level + 1) x)) : Ascii (indentedElems level xs) := by
  induction xs with
  | nil => exact ascii_closing level (by decide)
  | cons x xs ih =>
    rw [indentedElems]
    apply Ascii.cons (by decide)
    apply (ascii_newline (level + 1)).append
    exact (h x List.mem_cons_self).append (ih fun y hy => h y (List.mem_cons_of_mem x hy))

theorem ascii_indentedMembers {m : Members F} {level : Nat}
    (h : ∀ kv ∈ m, Ascii (indented (level + 1) kv.2)) : Ascii (indentedMembers level m) := by
  induction m with
  | nil => exact ascii_closing level (by decide)
  | cons kv m ih =>
    obtain ⟨k, v⟩ := kv
    rw [indentedMembers]
    apply Ascii.cons (by decide)
    exact ascii_indentedMember k (h _ List.mem_cons_self)
      (ih fun kv hkv => h kv (List.mem_cons_of_mem _ hkv))

theorem ascii_indented [LawfulPyFloat F] (j : Json F) (level : Nat) : Ascii (indented level j) := by
  have hcompact : ∀ j : Json F, Ascii (compact j) := fun j =>
    ascii_of_printable (printable_compact j)
  induction j using inside_induction generalizing level with
  | null => exact hcompact .null
  | bool b => exact hcompact (.bool b)
  | int n => exact hcompact (.int n)
  | float x => exact hcompact (.float x)
  | str s => exact hcompact (.str s)
  | arr xs ih =>
    cases xs with
    | nil => exact hcompact (.arr [])
    | cons x xs =>
      rw [indented]
      apply Ascii.cons (by decide)
      apply (ascii_newline (level + 1)).append
      exact (ih x List.mem_cons_self (level + 1)).append
        (ascii_indentedElems fun y hy => ih y (List.mem_cons_of_mem x hy) (level + 1))
  | obj m ih =>
    cases m with
    | nil => exact hcompact (.obj [])
    | cons kv m =>
      obtain ⟨k, v⟩ := kv
      rw [indented]
      apply Ascii.cons (by decide)
      exact ascii_indentedMember k (ih _ List.mem_cons_self (level + 1))
        (ascii_indentedMembers fun kv hkv => ih kv (List.mem_cons_of_mem _ hkv) (level + 1))

end Support.Json
