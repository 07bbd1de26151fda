import IsaCloud.Database.ScriptLetters

/-!
# The words of a script under the replacements

What becomes of a type, replacement by replacement. Arrays only lose one pair of
brackets, at TEXT or what has become TEXT before. In a plain script no replacement
finds anything across the boundary of a word.
-/

namespace IsaCloud.Database

set_option autoImplicit false

open Support Support.Text Support.Occurrences

/-! ## Replacements one after the other -/

theorem replaceEach_append (table table' : List (Str × Str)) (s : Str) :
    replaceEach (table ++ table') s = replaceEach table' (replaceEach table s) := by
  induction table generalizing s with
  | nil => rfl
  | cons e table ih => exact ih _

/-- The name of a type after `k` replacements. -/
def nameAfter (k : Nat) (ty : PgType) : Str := replaceEach (typeTable.take k) ty.name

theorem nameAfter_succ {k : Nat} (hk : k < typeTable.length) (ty : PgType) :
    nameAfter (k + 1) ty = replaceText typeTable[k].1 typeTable[k].2 (nameAfter k ty) := by
  rw [nameAfter, List.take_succ_eq_append_getElem hk, replaceEach_append]
  rfl

/-- The dimensions that the replacement of TEXT[] leaves. -/
def lessDims (ty : PgType) (n : Nat) : Nat := if ty = .text ∨ ty = .jsonb then n - 1 else n

/-- The word for an occurrence after `k` replacements; the fourth one is that of TEXT[]. -/
def wordAfter (k : Nat) : Occurrence → Str := Occurrence.spelled (nameAfter k) (if k ≤ 3 then allDims else lessDims)

/-! ## Brackets -/

theorem mem_bracketText {n : Nat} {c : CodePoint} (h : c ∈ bracketText n) : c = cp '[' ∨ c = cp ']' := by
  induction n with
  | zero => cases h
  | succ n ih =>
    rw [bracketText_succ, List.mem_append] at h
    rcases h with h | h
    · rcases List.mem_cons.mp h with rfl | h
      · exact .inl rfl
      · exact .inr (List.mem_singleton.mp h)
    · exact ih h

/-- A text without brackets is not found among brackets, nor does it reach into them. -/
theorem replaceText_bracketText {old new : Str} (hold : old ≠ []) (hbare : cp '[' ∉ old ∧ cp ']' ∉ old) (x : Str) (n : Nat) :
    replaceText old new (x ++ bracketText n) = replaceText old new x ++ bracketText n := by
  have hnone : ∀ {c : CodePoint}, c ∈ old → c ∉ bracketText n := by
    intro c hc hmem
    rcases mem_bracketText hmem with rfl | rfl
    · exact hbare.1 hc
    · exact hbare.2 hc
  have hcross : ¬ Crosses old x (bracketText n) := by
    rintro ⟨i, _, hi, _, hdrop⟩
    have hmem : old[i] ∈ old.drop i := by
      rw [List.drop_eq_getElem_cons hi]
      exact List.mem_cons_self
    exact hnone (List.mem_of_mem_drop hmem) (hdrop.subset hmem)
  have hzero : count old (bracketText n) = 0 := by
    rw [count_eq_zero_iff hold]
    intro hin
    obtain ⟨c, hc⟩ := List.exists_mem_of_ne_nil old hold
    exact hnone hc (hin.subset hc)
  rw [replaceText_append_of_not_crosses hold hcross, replaceText_of_count hzero]

/-! ## TEXT[] -/

def arrayText : Str := lit "TEXT[]"

theorem replaceText_array_brackets (n : Nat) : replaceText arrayText (lit "TEXT") (bracketText n) = bracketText n := by
  apply replaceText_of_count
  rw [count_eq_zero_iff (by decide)]
  intro hin
  have hmem : cp 'T' ∈ bracketText n := hin.subset (by decide)
  rcases mem_bracketText hmem with h | h
  · exact absurd h (by decide)
  · exact absurd h (by decide)

/-- One pair of brackets is taken from TEXT, and none from a name that does not end with it. -/
theorem replaceText_array {x : Str} (n : Nat) (hx : x = lit "TEXT" ∨ ¬ lit "TEXT" <:+ x ∧ cp '[' ∉ x) :
    replaceText arrayText (lit "TEXT") (x ++ bracketText n) =
      replaceText arrayText (lit "TEXT") x ++ bracketText (if x = lit "TEXT" then n - 1 else n) := by
  rcases hx with rfl | ⟨hend, hbare⟩
  · rw [if_pos rfl]
    cases n with
    | zero => rw [bracketText_zero, List.append_nil, List.append_nil]
    | succ n =>
      have hsplit : lit "TEXT" ++ bracketText (n + 1) = arrayText ++ bracketText n := rfl
      rw [hsplit, replaceText_self_append (by decide), replaceText_array_brackets]
      rfl
  · have hne : x ≠ lit "TEXT" := by
      rintro rfl
      exact hend (List.suffix_refl _)
    have hcross : ¬ Crosses arrayText x (bracketText n) := by
      rintro ⟨i, hpos, hi, htake, hdrop⟩
      have hi' : i < 6 := hi
      have hletter : ∀ {c : CodePoint}, c ∈ arrayText.drop i → c ≠ cp '[' → c ≠ cp ']' → False := by
        intro c hc hopen hclose
        rcases mem_bracketText (hdrop.subset hc) with rfl | rfl
        · exact hopen rfl
        · exact hclose rfl
      have hcases : i = 1 ∨ i = 2 ∨ i = 3 ∨ i = 4 ∨ i = 5 := by omega
      rcases hcases with rfl | rfl | rfl | rfl | rfl
      · exact hletter (c := cp 'E') (by decide) (by decide) (by decide)
      · exact hletter (c := cp 'X') (by decide) (by decide) (by decide)
      · exact hletter (c := cp 'T') (by decide) (by decide) (by decide)
      · exact hend htake
      · exact hbare (htake.subset (by decide))
    rw [if_neg hne, replaceText_append_of_not_crosses (by decide) hcross, replaceText_array_brackets]

/-! ## Words -/

/-- What all replacements but that of TEXT[] have in common. -/
theorem typeTable_bare : ∀ k : Fin typeTable.length, k.val ≠ 3 →
    (cp '[' ∉ (typeTable.get k).1 ∧ cp ']' ∉ (typeTable.get k).1) ∧
      replaceText (typeTable.get k).1 (typeTable.get k).2 (lit "LIKE") = lit "LIKE" := by
  decide

theorem names_before_array (ty : PgType) :
    (nameAfter 3 ty = lit "TEXT" ∨ ¬ lit "TEXT" <:+ nameAfter 3 ty ∧ cp '[' ∉ nameAfter 3 ty) ∧
      (nameAfter 3 ty = lit "TEXT" ↔ ty = .text ∨ ty = .jsonb) := by
  cases ty <;> decide

theorem wordAfter_succ {k : Nat} (hk : k < typeTable.length) (o : Occurrence) :
    replaceText typeTable[k].1 typeTable[k].2 (wordAfter k o) = wordAfter (k + 1) o := by
  by_cases hthree : k = 3
  · subst hthree
    cases o with
    | ilike s =>
      show replaceText arrayText (lit "TEXT") (lit "LIKE") = lit "LIKE"
      decide
    | type ty n =>
      obtain ⟨hname, htext⟩ := names_before_array ty
      have hdims : (if nameAfter 3 ty = lit "TEXT" then n - 1 else n) = lessDims ty n := by
        rw [lessDims]
        simp only [htext]
      show replaceText arrayText (lit "TEXT") (nameAfter 3 ty ++ bracketText n) = nameAfter 4 ty ++ bracketText (lessDims ty n)
      rw [replaceText_array n hname, hdims, nameAfter_succ hk]
      rfl
  · obtain ⟨hbare, hlike⟩ := typeTable_bare ⟨k, hk⟩ hthree
    have hold := (typeTable_unbordered typeTable[k] (List.getElem_mem hk)).1
    cases o with
    | ilike s => exact hlike
    | type ty n =>
      have hdims : (if k ≤ 3 then allDims else lessDims) = if k + 1 ≤ 3 then allDims else lessDims := by
        by_cases hle : k ≤ 3
        · rw [if_pos hle, if_pos (by omega)]
        · rw [if_neg hle, if_neg (by omega)]
      rw [wordAfter, wordAfter, Occurrence.spelled, Occurrence.spelled, replaceText_bracketText hold hbare,
        nameAfter_succ hk, hdims]

/-! ## The boundaries of words -/

theorem stops_of_seamed {left : Str} {us : List (Occurrence × Str)} (h : Seamed left us) :
    ∀ u ∈ us, ∃ us', Stops u.1 u.2 us' := by
  induction us generalizing left with
  | nil =>
    intro u hu
    cases hu
  | cons u us ih =>
    intro u' hu'
    rcases List.mem_cons.mp hu' with rfl | hu'
    · exact ⟨us, h.2.1⟩
    · exact ih h.2.2 u' hu'

/-- A pattern that begins before the word does not go on in it. -/
def startsApart (p x : Str) : Bool :=
  (List.range p.length).all fun i =>
    i == 0 || !p[i - 1]?.any joint || (!decide (p.drop i <+: x) && !decide (x <+: p.drop i))

/-- A pattern that begins in the word does not go on after it, but for the brackets. -/
def endsApart (p x : Str) : Bool :=
  (List.range p.length).all fun i =>
    i == 0 || !decide (p.take i <:+ x) || (decide (p.drop i = lit "[]") || !(p.drop i).head?.any markChar)

/-- A pattern that begins in the word of an array goes on with a completion. -/
def completed (p x : Str) : Bool :=
  (List.range p.length).all fun i =>
    i == 0 || !decide (p.take i <:+ x) || (decide (p.drop i ∈ completions) && p[i - 1]?.any joint)

/-- A check of the places inside a pattern. -/
theorem inside_all {f : Nat → Bool} {n : Nat} (h : ((List.range n).all fun i => i == 0 || f i) = true) {i : Nat}
    (hpos : 0 < i) (hi : i < n) : f i = true := by
  have hcheck := List.all_eq_true.mp h i (List.mem_range.mpr hi)
  have hne : (i == 0) = false := beq_eq_false_iff_ne.mpr (Nat.pos_iff_ne_zero.mp hpos)
  rw [hne, Bool.false_or] at hcheck
  exact hcheck

theorem startsApart_spec {p x : Str} (h : startsApart p x = true) {i : Nat} {c : CodePoint} (hpos : 0 < i)
    (hi : i < p.length) (hc : p[i - 1]? = some c) (hjoint : joint c = true) : ¬ p.drop i <+: x ∧ ¬ x <+: p.drop i := by
  have hcheck := List.all_eq_true.mp h i (List.mem_range.mpr hi)
  have hne : (i == 0) = false := beq_eq_false_iff_ne.mpr (Nat.pos_iff_ne_zero.mp hpos)
  rw [hc, Option.any_some, hjoint, hne] at hcheck
  simpa using hcheck

theorem endsApart_spec {p x : Str} (h : endsApart p x = true) {i : Nat} (hpos : 0 < i) (hi : i < p.length)
    (htake : p.take i <:+ x) : p.drop i = lit "[]" ∨ (p.drop i).head?.any markChar = false := by
  have hcheck := List.all_eq_true.mp h i (List.mem_range.mpr hi)
  have hne : (i == 0) = false := beq_eq_false_iff_ne.mpr (Nat.pos_iff_ne_zero.mp hpos)
  rw [decide_eq_true htake, hne] at hcheck
  simpa using hcheck

theorem completed_spec {p x : Str} (h : completed p x = true) {i : Nat} (hpos : 0 < i) (hi : i < p.length)
    (htake : p.take i <:+ x) : p.drop i ∈ completions ∧ p[i - 1]?.any joint = true := by
  have hcheck := List.all_eq_true.mp h i (List.mem_range.mpr hi)
  have hne : (i == 0) = false := beq_eq_false_iff_ne.mpr (Nat.pos_iff_ne_zero.mp hpos)
  rw [decide_eq_true htake, hne] at hcheck
  simpa using hcheck

/-- A pattern that begins in a type without dimensions ends with it. -/
theorem not_prefix_after {p x rest : Str} {ty : PgType} {n : Nat} {us : List (Occurrence × Str)}
    (hstops : Stops (.type ty n) rest us) (hn : n = 0) (hends : endsApart p x = true) {i : Nat} (hpos : 0 < i)
    (hi : i < p.length) (htake : p.take i <:+ x) : ¬ p.drop i <+: rest := by
  intro hdrop
  rcases endsApart_spec hends hpos hi htake with hbrackets | hhead
  · rw [hbrackets] at hdrop
    exact hstops.dims ty n rfl hdrop
  · rw [List.drop_eq_getElem_cons hi] at hdrop hhead
    rcases hstops.opens hn with ⟨hnil, _⟩ | ⟨c, y, hy, hc⟩
    · rw [hnil] at hdrop
      cases List.prefix_nil.mp hdrop
    · rw [hy] at hdrop
      rw [(List.cons_prefix_cons.mp hdrop).1, List.head?_cons, Option.any_some, hc] at hhead
      cases hhead

/-- The types and dimensions that are supported. -/
def supportedTypes : List (PgType × Nat) :=
  [(.serial, 0), (.jsonb, 0), (.text, 0), (.timestampWithTimeZone, 0), (.timestamptz, 0), (.uuid, 0), (.boolean, 0),
    (.text, 1), (.jsonb, 1)]

theorem mem_supportedTypes {ty : PgType} {n : Nat} (h : (Occurrence.type ty n).supported = true) :
    (ty, n) ∈ supportedTypes := by
  match n with
  | 0 =>
    cases ty with
    | bigserial => cases h
    | serial | jsonb | text | timestampWithTimeZone | timestamptz | uuid | boolean => decide
  | 1 =>
    cases ty with
    | jsonb | text => decide
    | serial | bigserial | timestampWithTimeZone | timestamptz | uuid | boolean => cases h
  | n + 2 => cases h

/-- Each replacement, at every word it meets. -/
theorem words_fit : ∀ k : Fin typeTable.length,
    (supportedTypes.all fun tn =>
      startsApart (typeTable.get k).1 (wordAfter k (.type tn.1 tn.2)) &&
        if tn.2 = 0 then endsApart (typeTable.get k).1 (wordAfter k (.type tn.1 tn.2))
        else completed (typeTable.get k).1 (wordAfter k (.type tn.1 tn.2))) = true ∧
      startsApart (typeTable.get k).1 (lit "LIKE") = true ∧
      (List.range (typeTable.get k).1.length).all (fun i => i == 0 || !decide ((typeTable.get k).1.take i <:+ lit "LIKE")) =
        true := by
  decide

/-- In a plain reading the words fit each replacement. -/
theorem fits_of_plain [RegexTables] {r : Reading} (hs : Seamed r.lead r.units) (hr : r.Plain) {k : Nat}
    (hk : k < typeTable.length) : Fits typeTable[k].1 (wordAfter k) r.units := by
  obtain ⟨htypes, hlike, hnone⟩ := words_fit ⟨k, hk⟩
  have htype : ∀ {ty n}, (Occurrence.type ty n).supported = true →
      startsApart typeTable[k].1 (wordAfter k (.type ty n)) = true ∧
        (n = 0 → endsApart typeTable[k].1 (wordAfter k (.type ty n)) = true) ∧
          (n ≠ 0 → completed typeTable[k].1 (wordAfter k (.type ty n)) = true) := by
    intro ty n hsupported
    have hcheck := List.all_eq_true.mp htypes (ty, n) (mem_supportedTypes hsupported)
    rw [Bool.and_eq_true] at hcheck
    refine ⟨hcheck.1, ?_, ?_⟩
    · intro hn
      have hends := hcheck.2
      rw [if_pos hn] at hends
      exact hends
    · intro hn
      have hends := hcheck.2
      rw [if_neg hn] at hends
      exact hends
  have hnothing : ∀ {i : Nat}, 0 < i → i < typeTable[k].1.length → ¬ typeTable[k].1.take i <:+ lit "LIKE" := by
    intro i hpos hi
    have hcheck := inside_all hnone hpos hi
    rw [Bool.not_eq_true', decide_eq_false_iff_not] at hcheck
    exact hcheck
  constructor
  · rintro ⟨o, rest⟩ hu i c hpos hi hc hjoint
    cases o with
    | ilike s => exact startsApart_spec hlike hpos hi hc hjoint
    | type ty n => exact startsApart_spec (htype (hr.supported _ hu)).1 hpos hi hc hjoint
  · rintro ⟨o, rest⟩ hu i hpos hi htake hdrop
    obtain ⟨us, hstops⟩ := stops_of_seamed hs _ hu
    cases o with
    | ilike s => exact hnothing hpos hi htake
    | type ty n =>
      obtain ⟨_, hzero, hmore⟩ := htype (hr.supported _ hu)
      by_cases hn : n = 0
      · exact not_prefix_after hstops hn (hzero hn) hpos hi htake hdrop
      · obtain ⟨hmem, _⟩ := completed_spec (hmore hn) hpos hi htake
        have hone : n = 1 := by
          have hin := mem_supportedTypes (hr.supported _ hu)
          simp only [supportedTypes, List.mem_cons, Prod.mk.injEq, List.not_mem_nil, or_false] at hin
          omega
        exact hr.completions _ hu ty (by rw [hone]) _ hmem hdrop
  · rintro ⟨o, rest⟩ hu hdims i c hpos hi htake hc
    cases o with
    | ilike s => exact absurd hdims (Nat.lt_irrefl 0)
    | type ty n =>
      obtain ⟨_, _, hmore⟩ := htype (hr.supported _ hu)
      have hjoint := (completed_spec (hmore (Nat.pos_iff_ne_zero.mp hdims)) hpos hi htake).2
      rw [hc] at hjoint
      exact hjoint

/-! ## TEXT[] at any array -/

theorem bracketText_last (n : Nat) : ∃ s, bracketText (n + 1) = s ++ [cp ']'] := by
  obtain ⟨ls, hls⟩ := Occurrence.brackets_last n
  exact ⟨lexemesText ls, by rw [bracketText, hls, lexemesText_append]; rfl⟩

/-- A name before the replacement of TEXT[], as the beginning and as the end of a word. -/
theorem names_fit_array (ty : PgType) :
    startsApart arrayText [(nameAfter 3 ty).headD 0] = true ∧ endsApart arrayText (nameAfter 3 ty) = true ∧
      (nameAfter 3 ty).head? = some ((nameAfter 3 ty).headD 0) := by
  cases ty <;> decide

/-- A pattern that does not go on in the first character does not go on in the word. -/
theorem startsApart_of_head {p x : Str} {c : CodePoint} (hx : x.head? = some c) (h : startsApart p [c] = true)
    {i : Nat} {d : CodePoint} (hpos : 0 < i) (hi : i < p.length) (hd : p[i - 1]? = some d) (hjoint : joint d = true) :
    ¬ p.drop i <+: x ∧ ¬ x <+: p.drop i := by
  obtain ⟨hno, hno'⟩ := startsApart_spec h hpos hi hd hjoint
  obtain ⟨y, rfl⟩ : ∃ y, x = c :: y := by
    cases x with
    | nil => cases hx
    | cons e y =>
      cases hx
      exact ⟨y, rfl⟩
  rw [List.drop_eq_getElem_cons hi] at hno' ⊢
  have hne : c ≠ p[i] := by
    intro heq
    exact hno' (List.cons_prefix_cons.mpr ⟨heq, List.nil_prefix⟩)
  constructor
  · intro hpre
    exact hne (List.cons_prefix_cons.mp hpre).1.symm
  · intro hpre
    exact hne (List.cons_prefix_cons.mp hpre).1

theorem fits_array {r : Reading} (hs : Seamed r.lead r.units) : Fits arrayText (wordAfter 3) r.units := by
  have hlike : startsApart arrayText (lit "LIKE") = true := by decide
  have hnone : ∀ {n i : Nat} {x : Str}, 0 < i → i < arrayText.length → ¬ arrayText.take i <:+ x ++ bracketText (n + 1) := by
    intro n i x hpos hi htake
    obtain ⟨s, hbrackets⟩ := bracketText_last n
    rw [hbrackets, ← List.append_assoc] at htake
    have hlast := last_of_take hpos hi htake
    have hcheck : (List.range 6).all (fun i => i == 0 || !decide (arrayText[i - 1]? = some (cp ']'))) = true := by
      decide
    have hat := inside_all hcheck hpos hi
    rw [decide_eq_true hlast] at hat
    cases hat
  constructor
  · rintro ⟨o, rest⟩ hu i c hpos hi hc hjoint
    cases o with
    | ilike s => exact startsApart_spec hlike hpos hi hc hjoint
    | type ty n =>
      obtain ⟨hstarts, _, hhead⟩ := names_fit_array ty
      have hword : (wordAfter 3 (.type ty n)).head? = some ((nameAfter 3 ty).headD 0) := by
        show (nameAfter 3 ty ++ bracketText n).head? = _
        rw [List.head?_append, hhead]
        rfl
      exact startsApart_of_head hword hstarts hpos hi hc hjoint
  · rintro ⟨o, rest⟩ hu i hpos hi htake hdrop
    obtain ⟨us, hstops⟩ := stops_of_seamed hs _ hu
    cases o with
    | ilike s =>
      have hcheck : (List.range 6).all (fun i => i == 0 || !decide (arrayText.take i <:+ lit "LIKE")) = true := by
        decide
      have hat := inside_all hcheck hpos hi
      rw [Bool.not_eq_true', decide_eq_false_iff_not] at hat
      exact hat htake
    | type ty n =>
      cases n with
      | succ n => exact hnone hpos hi htake
      | zero =>
        have hname : arrayText.take i <:+ nameAfter 3 ty := by
          rw [← List.append_nil (nameAfter 3 ty)]
          exact htake
        exact not_prefix_after hstops rfl (names_fit_array ty).2.1 hpos hi hname hdrop
  · rintro ⟨o, rest⟩ hu hdims i c hpos hi htake _
    cases o with
    | ilike s => exact absurd hdims (Nat.lt_irrefl 0)
    | type ty n =>
      cases n with
      | zero => exact absurd hdims (Nat.lt_irrefl 0)
      | succ n => exact absurd htake (hnone hpos hi)

end IsaCloud.Database
