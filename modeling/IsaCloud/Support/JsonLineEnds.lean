import IsaCloud.Support.Encoding

/-!
# The line ends of a JSON file

A text file is read with `\r\n` and `\r` turned into `\n`. Line ends can only
stand where white space may, so the text that arrives is another spelling of the
same value.
-/

namespace Support.Encoding

set_option autoImplicit false

open Text Python Json

theorem newlines_token {c : CodePoint} (h13 : c ≠ 13) (h10 : c ≠ 10) (cr : Bool) (s : Str) :
    newlinesFrom cr (c :: s) = c :: newlinesFrom false s := by
  rw [newlinesFrom, if_neg h13, if_neg fun h => h10 h.1]

/-- Text without line ends is left alone, and so is what follows it. -/
theorem newlines_append {t : Str} (h : ∀ c ∈ t, c ≠ 13 ∧ c ≠ 10) (s : Str) :
    newlinesFrom false (t ++ s) = t ++ newlinesFrom false s := by
  induction t with
  | nil => rfl
  | cons c t ih =>
    have hc := h c List.mem_cons_self
    rw [List.cons_append, newlines_token hc.1 hc.2, ih fun d hd => h d (List.mem_cons_of_mem c hd),
      List.cons_append]

/-- White space stays white space. -/
theorem newlines_blank {w : Str} (h : Blank w) (cr : Bool) :
    ∃ w', Blank w' ∧ newlinesFrom cr w = w' ∧ ∀ c s, c ≠ 13 → c ≠ 10 →
      newlinesFrom cr (w ++ c :: s) = w' ++ newlinesFrom false (c :: s) := by
  induction w generalizing cr with
  | nil =>
    refine ⟨[], blank_nil, rfl, fun c s h13 h10 => ?_⟩
    rw [List.nil_append, newlines_token h13 h10, newlines_token h13 h10, List.nil_append]
  | cons d w ih =>
    have hd := h d List.mem_cons_self
    have hw : Blank w := fun c hc => h c (List.mem_cons_of_mem d hc)
    by_cases h13 : d = 13
    · have hstep : ∀ s, newlinesFrom cr (d :: s) = 10 :: newlinesFrom true s := by
        intro s
        rw [newlinesFrom, if_pos h13]
      obtain ⟨w', hw', heq, hrest⟩ := ih hw true
      refine ⟨10 :: w', ?_, ?_, ?_⟩
      · intro c hc
        rcases List.mem_cons.mp hc with rfl | hc
        · rfl
        · exact hw' c hc
      · rw [hstep, heq]
      · intro c s hc13 hc10
        rw [List.cons_append, hstep, hrest c s hc13 hc10, List.cons_append]
    · obtain ⟨w', hw', heq, hrest⟩ := ih hw false
      by_cases h10 : d = 10 ∧ cr = true
      · have hstep : ∀ s, newlinesFrom cr (d :: s) = newlinesFrom false s := by
          intro s
          rw [newlinesFrom, if_neg h13, if_pos h10]
        refine ⟨w', hw', ?_, ?_⟩
        · rw [hstep, heq]
        · intro c s hc13 hc10
          rw [List.cons_append, hstep, hrest c s hc13 hc10]
      · have hstep : ∀ s, newlinesFrom cr (d :: s) = d :: newlinesFrom false s := by
          intro s
          rw [newlinesFrom, if_neg h13, if_neg h10]
        refine ⟨d :: w', ?_, ?_, ?_⟩
        · intro c hc
          rcases List.mem_cons.mp hc with rfl | hc
          · exact hd
          · exact hw' c hc
        · rw [hstep, heq]
        · intro c s hc13 hc10
          rw [List.cons_append, hstep, hrest c s hc13 hc10, List.cons_append]

/-- No line ends: what the tokens of a value are made of. -/
def LineFree (t : Str) : Prop := ∀ c ∈ t, c ≠ 13 ∧ c ≠ 10

theorem LineFree.append {s t : Str} (hs : LineFree s) (ht : LineFree t) : LineFree (s ++ t) := by
  intro c hc
  rcases List.mem_append.mp hc with h | h
  · exact hs c h
  · exact ht c h

theorem lineFree_of_printable {t : Str} (h : Printable t) : LineFree t := by
  intro c hc
  have := h c hc
  refine ⟨?_, ?_⟩ <;> rintro rfl <;> exact absurd this (by decide)

theorem unitSpelling_lineFree {u : Nat} {t : Str} (h : UnitSpelling u t) : LineFree t := by
  obtain ⟨h₁, h₂, h₃, h₄, hval, rfl⟩ := h
  have hhex : ∀ c : CodePoint, c = 13 ∨ c = 10 → hexValue c = none := by
    rintro c (rfl | rfl) <;> decide
  intro c hc
  by_contra hcon
  have hbad : c = 13 ∨ c = 10 := by
    by_cases h13 : c = 13
    · exact .inl h13
    · exact .inr (by_contra fun h10 => hcon ⟨h13, h10⟩)
  have hnone := hhex c hbad
  simp only [List.mem_cons, List.not_mem_nil, or_false] at hc
  rcases hc with rfl | rfl | rfl | rfl | rfl | rfl
  · exact absurd hbad (by decide)
  · exact absurd hbad (by decide)
  all_goals simp [hex4Value, hnone] at hval

theorem stringSpelling_lineFree {s u : Str} (h : StringSpelling s u) : LineFree u := by
  induction h with
  | nil =>
    intro c hc
    cases hc
  | cons hc _ ih =>
    refine LineFree.append ?_ ih
    cases hc with
    | raw _ _ hlow =>
      intro c hc
      rw [List.mem_singleton.mp hc]
      refine ⟨?_, ?_⟩ <;> rintro rfl <;> exact absurd hlow (by decide)
    | short he =>
      intro c hc
      simp only [List.mem_cons, List.not_mem_nil, or_false] at hc
      rcases hc with rfl | rfl
      · decide
      · refine ⟨?_, ?_⟩
        · rintro rfl
          have hnone : unescape 13 = none := by decide
          rw [hnone] at he
          cases he
        · rintro rfl
          have hnone : unescape 10 = none := by decide
          rw [hnone] at he
          cases he
    | unit ht => exact unitSpelling_lineFree ht
    | pair ht hu => exact (unitSpelling_lineFree ht).append (unitSpelling_lineFree hu)

theorem quotedSpelling_lineFree {s t : Str} (h : QuotedSpelling s t) : LineFree t := by
  obtain ⟨u, hu, rfl⟩ := h
  have hq : LineFree [quote] := by
    intro c hc
    rw [List.mem_singleton.mp hc]
    decide
  exact LineFree.append hq ((stringSpelling_lineFree hu).append hq)

/-- The reader of a text file turns a piece of text into another, whatever follows. -/
def Translates (t t' : Str) : Prop :=
  ∀ s, newlinesFrom false (t ++ s) = t' ++ newlinesFrom false s

theorem LineFree.translates {t : Str} (h : LineFree t) : Translates t t := newlines_append h

theorem Translates.append {t t' u u' : Str} (ht : Translates t t') (hu : Translates u u') :
    Translates (t ++ u) (t' ++ u') := by
  intro s
  rw [List.append_assoc, ht, hu, List.append_assoc]

theorem translates_cons {c : CodePoint} (h : c ≠ 13 ∧ c ≠ 10) {t t' : Str} (ht : Translates t t') :
    Translates (c :: t) (c :: t') := by
  intro s
  rw [List.cons_append, newlines_token h.1 h.2, ht, List.cons_append]

/-- White space before a token is turned into white space before it. -/
theorem translates_blank {w : Str} (h : Blank w) :
    ∃ w', Blank w' ∧ ∀ c t t', isJsonSpace c = false → Translates (c :: t) t' →
      Translates (w ++ c :: t) (w' ++ t') := by
  obtain ⟨w', hw', -, hrest⟩ := newlines_blank h false
  refine ⟨w', hw', ?_⟩
  intro c t t' hc ht s
  have hne : c ≠ 13 ∧ c ≠ 10 := by
    refine ⟨?_, ?_⟩ <;> rintro rfl <;> exact absurd hc (by decide)
  rw [List.append_assoc, List.cons_append, hrest c _ hne.1 hne.2, ← List.cons_append, ht,
    List.append_assoc]

section Spelled
variable {F : Type} [PyFloat F] [LawfulPyFloat F]

theorem translates_closing {w : Str} (h : Blank w) {c : CodePoint} (hc : isJsonSpace c = false) :
    ∃ w', Blank w' ∧ Translates (w ++ [c]) (w' ++ [c]) := by
  obtain ⟨w', hw', hrest⟩ := translates_blank h
  refine ⟨w', hw', hrest c [] [c] hc ?_⟩
  apply LineFree.translates
  intro d hd
  rw [List.mem_singleton.mp hd]
  refine ⟨?_, ?_⟩ <;> rintro rfl <;> exact absurd hc (by decide)

/-- A value is read as another spelling of itself. -/
def Kept (j : Json F) : Prop :=
  ∀ t, Spells j t → ∃ t', Spells j t' ∧ Translates t t'

theorem translates_value {j : Json F} {w t t' : Str} (hw : Blank w) (ht : Spells j t)
    (htr : Translates t t') {u u' : Str} (hu : Translates u u') :
    ∃ w', Blank w' ∧ Translates (w ++ (t ++ u)) (w' ++ (t' ++ u')) := by
  obtain ⟨w', hw', hrest⟩ := translates_blank hw
  obtain ⟨c, rest, rfl, hsp, -⟩ := spells_head ht
  exact ⟨w', hw', hrest c (rest ++ u) (t' ++ u') hsp (htr.append hu)⟩

theorem translates_member {k y y' u : Str} {x : Json F} (hy : Spells x y) (htr : Translates y y')
    (hu : MemberSpelling k y u) : ∃ u', MemberSpelling k y' u' ∧ Translates u u' := by
  obtain ⟨q, w₁, w₂, hq, hw₁, hw₂, rfl⟩ := hu
  obtain ⟨w₂', hw₂', h₂⟩ := translates_value hw₂ hy htr (LineFree.translates (t := [])
    (fun c hc => nomatch hc))
  obtain ⟨w₁', hw₁', h₁⟩ := translates_blank hw₁
  rw [List.append_nil, List.append_nil] at h₂
  exact ⟨_, ⟨q, w₁', w₂', hq, hw₁', hw₂', rfl⟩, (quotedSpelling_lineFree hq).translates.append
    (h₁ colon _ _ (by decide) (translates_cons (by decide) h₂))⟩

theorem spellsElems_kept {xs : List (Json F)} (h : ∀ x ∈ xs, Kept x) {v : Str}
    (hv : SpellsElems xs v) : ∃ v', SpellsElems xs v' ∧ Translates v v' := by
  induction xs generalizing v with
  | nil =>
    obtain ⟨w, hw, rfl⟩ := hv
    obtain ⟨w', hw', htr⟩ := translates_closing hw (c := closeBracket) (by decide)
    exact ⟨_, ⟨w', hw', rfl⟩, htr⟩
  | cons x xs ih =>
    obtain ⟨w, w₁, u, v, hw, hw₁, hu, hv, rfl⟩ := hv
    obtain ⟨v', hv', hvt⟩ := ih (fun y hy => h y (List.mem_cons_of_mem x hy)) hv
    obtain ⟨u', hu', hut⟩ := h x List.mem_cons_self u hu
    obtain ⟨w₁', hw₁', htr⟩ := translates_value hw₁ hu hut hvt
    obtain ⟨w', hw', hrest⟩ := translates_blank hw
    exact ⟨_, ⟨w', w₁', u', v', hw', hw₁', hu', hv', rfl⟩,
      hrest comma _ _ (by decide) (translates_cons (by decide) htr)⟩

theorem translates_pair {w k y y' u v v' : Str} {x : Json F} (hw : Blank w) (hy : Spells x y)
    (hyt : Translates y y') (hu : MemberSpelling k y u) (hv : Translates v v') :
    ∃ w' u', Blank w' ∧ MemberSpelling k y' u' ∧
      Translates (w ++ (u ++ v)) (w' ++ (u' ++ v')) := by
  obtain ⟨u', hu', hut⟩ := translates_member hy hyt hu
  obtain ⟨w', hw', hrest⟩ := translates_blank hw
  obtain ⟨q, w₁, w₂, ⟨s, -, rfl⟩, -, -, rfl⟩ := hu
  exact ⟨w', u', hw', hu', hrest quote _ _ (by decide) (hut.append hv)⟩

theorem spellsMembers_kept {m : Members F} (h : ∀ kv ∈ m, Kept kv.2) {v : Str}
    (hv : SpellsMembers m v) : ∃ v', SpellsMembers m v' ∧ Translates v v' := by
  induction m generalizing v with
  | nil =>
    obtain ⟨w, hw, rfl⟩ := hv
    obtain ⟨w', hw', htr⟩ := translates_closing hw (c := closeBrace) (by decide)
    exact ⟨_, ⟨w', hw', rfl⟩, htr⟩
  | cons kv m ih =>
    obtain ⟨k, x⟩ := kv
    obtain ⟨w, w₁, y, u, v, hw, hw₁, hy, hu, hv, rfl⟩ := hv
    obtain ⟨v', hv', hvt⟩ := ih (fun kv hkv => h kv (List.mem_cons_of_mem _ hkv)) hv
    obtain ⟨y', hy', hyt⟩ := h _ List.mem_cons_self y hy
    obtain ⟨w₁', u', hw₁', hu', htr⟩ := translates_pair hw₁ hy hyt hu hvt
    obtain ⟨w', hw', hrest⟩ := translates_blank hw
    exact ⟨_, ⟨w', w₁', y', u', v', hw', hw₁', hy', hu', hv', rfl⟩,
      hrest comma _ _ (by decide) (translates_cons (by decide) htr)⟩

theorem spells_kept (j : Json F) : Kept j := by
  -- a scalar other than a string has its compact text only
  have hscalar : ∀ {j : Json F} {t : Str}, Spells j t → t = compact j →
      ∃ t', Spells j t' ∧ Translates t t' := by
    rintro j _ ht rfl
    exact ⟨_, ht, (lineFree_of_printable (printable_compact j)).translates⟩
  induction j using inside_induction with
  | null | int | float =>
    intro t ht
    exact hscalar ht ht
  | bool b =>
    intro t ht
    cases b <;> exact hscalar ht ht
  | str s =>
    intro t ht
    exact ⟨t, ht, (quotedSpelling_lineFree ht).translates⟩
  | arr xs ih =>
    intro t ht
    cases xs with
    | nil =>
      obtain ⟨w, hw, rfl⟩ := ht
      obtain ⟨w', hw', htr⟩ := translates_closing hw (c := closeBracket) (by decide)
      exact ⟨_, ⟨w', hw', rfl⟩, translates_cons (by decide) htr⟩
    | cons x xs =>
      obtain ⟨w, u, v, hw, hu, hv, rfl⟩ := ht
      obtain ⟨v', hv', hvt⟩ := spellsElems_kept (fun y hy => ih y (List.mem_cons_of_mem x hy)) hv
      obtain ⟨u', hu', hut⟩ := ih x List.mem_cons_self u hu
      obtain ⟨w', hw', htr⟩ := translates_value hw hu hut hvt
      exact ⟨_, ⟨w', u', v', hw', hu', hv', rfl⟩, translates_cons (by decide) htr⟩
  | obj m ih =>
    intro t ht
    cases m with
    | nil =>
      obtain ⟨w, hw, rfl⟩ := ht
      obtain ⟨w', hw', htr⟩ := translates_closing hw (c := closeBrace) (by decide)
      exact ⟨_, ⟨w', hw', rfl⟩, translates_cons (by decide) htr⟩
    | cons kv m =>
      obtain ⟨k, x⟩ := kv
      obtain ⟨w, y, u, v, hw, hy, hu, hv, rfl⟩ := ht
      obtain ⟨v', hv', hvt⟩ := spellsMembers_kept
        (fun kv hkv => ih kv (List.mem_cons_of_mem _ hkv)) hv
      obtain ⟨y', hy', hyt⟩ := ih _ List.mem_cons_self y hy
      obtain ⟨w', u', hw', hu', htr⟩ := translates_pair hw hy hyt hu hvt
      exact ⟨_, ⟨w', y', u', v', hw', hy', hu', hv', rfl⟩, translates_cons (by decide) htr⟩

/-- The line ends of a file do not matter to the value it spells. -/
theorem spelling_universalNewlines {j : Json F} {text : Str} (h : Spelling j text) :
    Spelling j (universalNewlines text) := by
  obtain ⟨w, t, w₂, hw, ht, hw₂, rfl⟩ := h
  obtain ⟨t', ht', htr⟩ := spells_kept j t ht
  obtain ⟨w₂', hw₂', heq, -⟩ := newlines_blank hw₂ false
  obtain ⟨w', hw', hrest⟩ := translates_blank hw
  refine ⟨w', t', w₂', hw', ht', hw₂', ?_⟩
  obtain ⟨c, rest, rfl, hsp, -⟩ := spells_head ht
  have hall := hrest c rest t' hsp htr w₂
  rw [heq] at hall
  simpa only [universalNewlines, List.append_assoc] using hall

/-- A file with any text of a value reads back as the value. -/
theorem readText_spelling {j : Json F} {text : Str} {bs : Bytes} (h : Spelling j text)
    (henc : utf8Encode text = .ok bs) : ∃ text', readText bs = .ok text' ∧ Spelling j text' := by
  refine ⟨universalNewlines text, ?_, spelling_universalNewlines h⟩
  rw [readText, utf8Decode_of_encode henc]

end Spelled

end Support.Encoding
