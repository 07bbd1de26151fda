import IsaCloud.Database.ScriptStages

/-!
# The letters of a translated script

The keyword is converted within the lexemes. Of every letter the translation of a
script has as many as the replacements leave, and these balances determine how often
each replacement found its text.
-/

namespace IsaCloud.Database

set_option autoImplicit false

open Support Support.Text Support.Python Support.Occurrences

/-! ## Spelling -/

def bracketText (n : Nat) : Str := lexemesText (Occurrence.brackets n)

@[simp] theorem bracketText_zero : bracketText 0 = [] := rfl

theorem bracketText_succ (n : Nat) : bracketText (n + 1) = lit "[]" ++ bracketText n := rfl

/-- The text of a type without dimensions. -/
def PgType.name (ty : PgType) : Str := lexemesText ty.lexemes

theorem PgType.mem_all (ty : PgType) : ty ∈ PgType.all := by cases ty <;> decide

namespace Occurrence

/-- A word for an occurrence, from names for the types and the dimensions that are left. -/
def spelled (name : PgType → Str) (dims : PgType → Nat → Nat) : Occurrence → Str
  | .type ty n => name ty ++ bracketText (dims ty n)
  | .ilike _ => lit "LIKE"

theorem text_type (ty : PgType) (n : Nat) : (type ty n).text = ty.name ++ bracketText n := lexemesText_append _ _

end Occurrence

/-- All dimensions, as in the script. -/
def allDims (_ : PgType) (n : Nat) : Nat := n

section Keyword
variable [RegexTables]

/-! ## The keyword -/

theorem convertPgSyntax_bounded {x : Str} (h : Bounded x) (y : Str) :
    convertPgSyntax (x ++ y) = convertPgSyntax x ++ convertPgSyntax y := by
  rcases h with rfl | ⟨r, c, rfl, hc⟩
  · rfl
  · exact ilikeFrom_closes hc r y false (Nat.zero_le _)

/-- No I is followed by an L. -/
def neverIl : Str → Bool
  | c :: d :: s => (decide (c ∉ [cp 'I', cp 'i', 0x130, 0x131]) || decide (d ∉ [cp 'L', cp 'l'])) && neverIl (d :: s)
  | _ => true

theorem containsIlike_of_neverIl {s : Str} (h : neverIl s = true) (a : Bool) : containsIlikeFrom a s = false := by
  induction s generalizing a with
  | nil => rfl
  | cons c s ih =>
    have hfirst : matchesLetters ilikeLetters (c :: s) = false := by
      rw [ilikeLetters, matchesLetters_cons]
      cases s with
      | nil => rw [matchesLetters, Bool.and_false]
      | cons d s =>
        rw [neverIl, Bool.and_eq_true, Bool.or_eq_true, decide_eq_true_eq, decide_eq_true_eq] at h
        rcases h.1 with hc | hd
        · rw [decide_eq_false hc, Bool.false_and]
        · rw [matchesLetters_cons, decide_eq_false hd, Bool.false_and, Bool.and_false]
    rw [containsIlikeFrom, hfirst, Bool.and_false, Bool.false_or]
    apply ih
    cases s with
    | nil => rfl
    | cons d s =>
      rw [neverIl, Bool.and_eq_true] at h
      exact h.2

theorem convertPgSyntax_name (ty : PgType) : convertPgSyntax ty.name = ty.name := by
  have hnever : PgType.all.all (fun ty => neverIl ty.name) = true := by decide
  exact ilikeFrom_of_none (containsIlike_of_neverIl (List.all_eq_true.mp hnever ty ty.mem_all) false)

theorem convertPgSyntax_brackets (n : Nat) : convertPgSyntax (bracketText n) = bracketText n := by
  apply ilikeFrom_of_none
  apply containsIlike_of_neverIl
  induction n with
  | zero => rfl
  | succ n ih =>
    cases n with
    | zero => decide
    | succ n =>
      rw [bracketText_succ] at ih ⊢
      exact (Bool.and_eq_true _ _).mpr ⟨by decide, (Bool.and_eq_true _ _).mpr ⟨by decide, ih⟩⟩

theorem convertPgSyntax_occurrence {o : Occurrence} (h : ∀ s, o = .ilike s → isIlike s = true) :
    convertPgSyntax o.text = o.spelled PgType.name allDims := by
  cases o with
  | type ty n =>
    rw [Occurrence.text_type]
    cases n with
    | zero => rw [bracketText_zero, List.append_nil, convertPgSyntax_name]; exact (List.append_nil _).symm
    | succ n =>
      have hopens : Opens (bracketText (n + 1)) := ⟨cp '[', cp ']' :: bracketText n, rfl, by decide⟩
      rw [convertPgSyntax_append (.inr hopens), convertPgSyntax_name, convertPgSyntax_brackets]
      rfl
  | ilike s =>
    have htext : (Occurrence.ilike s).text = s := List.append_nil s
    rw [htext, convertPgSyntax_keyword (h s rfl)]
    rfl

/-- What follows an occurrence is converted on its own. -/
theorem convertPgSyntax_stops {o : Occurrence} {rest : Str} {us : List (Occurrence × Str)} (h : Stops o rest us)
    {y : Str} (hy : us = [] → y = []) :
    convertPgSyntax (o.text ++ (rest ++ y)) = convertPgSyntax o.text ++ convertPgSyntax (rest ++ y) := by
  rcases o.lexemes_last with ⟨hzero, _⟩ | ⟨_, ls, hls⟩
  · rcases h.opens hzero with ⟨rfl, hus⟩ | hopens
    · rw [hy hus, List.append_nil, List.append_nil]
      exact (List.append_nil _).symm
    · exact convertPgSyntax_append (.inr (hopens.append y))
  · apply convertPgSyntax_bounded
    refine .inr ⟨lexemesText ls, cp ']', ?_, by decide⟩
    rw [Occurrence.text, hls, lexemesText_append]
    rfl

theorem convertPgSyntax_units {left : Str} {us : List (Occurrence × Str)} (h : Seamed left us) :
    convertPgSyntax (us.flatMap fun u => u.1.text ++ u.2) =
      us.flatMap fun u => u.1.spelled PgType.name allDims ++ convertPgSyntax u.2 := by
  induction us generalizing left with
  | nil => rfl
  | cons u us ih =>
    obtain ⟨o, rest⟩ := u
    obtain ⟨_, hstops, hrest⟩ := h
    have hsplit : convertPgSyntax (rest ++ us.flatMap fun u => u.1.text ++ u.2) =
        convertPgSyntax rest ++ convertPgSyntax (us.flatMap fun u => u.1.text ++ u.2) := by
      by_cases hus : us = []
      · rw [hus, List.flatMap_nil, List.append_nil]
        exact (List.append_nil _).symm
      · exact convertPgSyntax_bounded (hrest.bounded hus) _
    rw [List.flatMap_cons, List.flatMap_cons, List.append_assoc, convertPgSyntax_stops hstops, hsplit, ih hrest,
      convertPgSyntax_occurrence hstops.keyword, List.append_assoc]
    intro hus
    rw [hus]
    rfl

/-- The keyword is converted, and so is what is found within the other texts. -/
theorem convertPgSyntax_reading {r : Reading} (h : Seamed r.lead r.units) :
    convertPgSyntax (r.render Occurrence.text) =
      (r.mapOthers convertPgSyntax).render (Occurrence.spelled PgType.name allDims) := by
  have hlead : convertPgSyntax (r.render Occurrence.text) =
      convertPgSyntax r.lead ++ convertPgSyntax (r.units.flatMap fun u => u.1.text ++ u.2) := by
    rw [Reading.render]
    cases hunits : r.units with
    | nil =>
      rw [List.flatMap_nil, List.append_nil]
      exact (List.append_nil _).symm
    | cons u us =>
      rw [hunits] at h
      exact convertPgSyntax_bounded h.1 _
  rw [hlead, convertPgSyntax_units h, Reading.render, Reading.mapOthers, List.flatMap_map]

/-! ## Characters of the keyword -/

/-- How often the keyword is found. -/
def keywordsFrom (skip : Nat) (afterWord : Bool) : Str → Nat
  | [] => 0
  | c :: s =>
    if 0 < skip then keywordsFrom (skip - 1) (RegexTables.isWord c) s
    else if !afterWord && matchesLetters ilikeLetters (c :: s) then keywordsFrom 4 true s + 1
    else keywordsFrom 0 (RegexTables.isWord c) s

theorem keywordsFrom_pos {a : Bool} {s : Str} (h : containsIlikeFrom a s = true) : 0 < keywordsFrom 0 a s := by
  induction s generalizing a with
  | nil => cases h
  | cons c s ih =>
    rw [containsIlikeFrom, Bool.or_eq_true] at h
    rw [keywordsFrom, if_neg (Nat.lt_irrefl 0)]
    split
    · exact Nat.succ_pos _
    · rename_i hnot
      exact ih (h.resolve_left hnot)

/-- A kind of character that either all letters I are of, or none, and no L, K or E, and no bracket. -/
structure LetterKind (f : CodePoint → Bool) (ofI : Bool) : Prop where
  letterI : ([cp 'I', cp 'i', 0x130, 0x131] : List CodePoint).all (fun c => f c == ofI) = true
  letters : ([cp 'L', cp 'l', cp 'K', cp 'k', 0x212a, cp 'E', cp 'e'] : List CodePoint).all (fun c => !f c) = true
  brackets : (f (cp '[') || f (cp ']')) = false

section LetterKind
variable {f : CodePoint → Bool} {ofI : Bool}

omit [RegexTables] in
theorem LetterKind.countP_like (hf : LetterKind f ofI) : (lit "LIKE").countP f = ofI.toNat := by
  have hI := List.all_eq_true.mp hf.letterI
  have hother := List.all_eq_true.mp hf.letters
  have hi : f (cp 'I') = ofI := eq_of_beq (hI _ (by simp))
  have hl : f (cp 'L') = false := by simpa using hother (cp 'L') (by simp)
  have hk : f (cp 'K') = false := by simpa using hother (cp 'K') (by simp)
  have he : f (cp 'E') = false := by simpa using hother (cp 'E') (by simp)
  show List.countP f [cp 'L', cp 'I', cp 'K', cp 'E'] = _
  cases ofI with
  | false => simp [hi, hl, hk, he]
  | true => simp [hi, hl, hk, he]

omit [RegexTables] in
theorem LetterKind.countP_brackets (hf : LetterKind f ofI) (n : Nat) : (bracketText n).countP f = 0 := by
  have hnone := Bool.or_eq_false_iff.mp hf.brackets
  induction n with
  | zero => rfl
  | succ n ih =>
    rw [bracketText_succ, List.countP_append, ih]
    show List.countP f [cp '[', cp ']'] + 0 = 0
    simp [hnone.1, hnone.2]

/-- What matches has the characters of its letters, and after them come the others. -/
theorem countP_matches {ls : List (List CodePoint)} {bs : List Bool}
    (hbs : List.Forall₂ (fun l b => ∀ c ∈ l, f c = b) ls bs) {s : Str} (h : matchesLetters ls s = true) :
    s.countP f = (bs.map Bool.toNat).sum + (s.drop ls.length).countP f := by
  induction hbs generalizing s with
  | nil => exact (Nat.zero_add _).symm
  | @cons l b ls bs hl _ ih =>
    cases s with
    | nil => cases h
    | cons c s =>
      rw [matchesLetters_cons, Bool.and_eq_true, decide_eq_true_eq] at h
      rw [List.countP_cons, ih h.2, hl c h.1, List.map_cons, List.sum_cons, List.length_cons, List.drop_succ_cons]
      cases b with
      | false => simp
      | true => simp; omega

omit [RegexTables] in
theorem LetterKind.forall_letters (hf : LetterKind f ofI) :
    List.Forall₂ (fun l b => ∀ c ∈ l, f c = b) ilikeLetters [ofI, false, ofI, false, false] := by
  have hI : ∀ c ∈ ([cp 'I', cp 'i', 0x130, 0x131] : List CodePoint), f c = ofI := by
    intro c hc
    exact eq_of_beq (List.all_eq_true.mp hf.letterI c hc)
  have hother : ∀ c ∈ ([cp 'L', cp 'l', cp 'K', cp 'k', 0x212a, cp 'E', cp 'e'] : List CodePoint), f c = false := by
    intro c hc
    exact (Bool.not_eq_true' _).mp (List.all_eq_true.mp hf.letters c hc)
  refine .cons hI (.cons ?_ (.cons hI (.cons ?_ (.cons ?_ .nil))))
  · intro c hc
    apply hother
    simp only [List.mem_cons] at hc ⊢
    tauto
  · intro c hc
    apply hother
    simp only [List.mem_cons] at hc ⊢
    tauto
  · intro c hc
    apply hother
    simp only [List.mem_cons] at hc ⊢
    tauto

/-- Of the two letters I of the keyword one is left. -/
theorem countP_ilikeFrom (hf : LetterKind f ofI) (k : Nat) (a : Bool) (s : Str) :
    (ilikeFrom k a s).countP f + keywordsFrom k a s * ofI.toNat = (s.drop k).countP f := by
  induction s generalizing k a with
  | nil => rw [List.drop_nil, keywordsFrom, ilikeFrom, Nat.zero_mul]; rfl
  | cons c s ih =>
    rw [ilikeFrom_cons, keywordsFrom]
    by_cases hk : 0 < k
    · rw [if_pos hk, if_pos hk, ih]
      obtain ⟨k, rfl⟩ := Nat.exists_eq_succ_of_ne_zero (Nat.pos_iff_ne_zero.mp hk)
      rfl
    · obtain rfl := Nat.le_zero.mp (Nat.not_lt.mp hk)
      rw [if_neg hk, if_neg hk]
      split
      · rename_i hmatch
        have hrest := ih 4 true
        rw [Bool.and_eq_true] at hmatch
        have hletters := countP_matches hf.forall_letters hmatch.2
        have hsum : ([ofI, false, ofI, false, false].map Bool.toNat).sum = 2 * ofI.toNat := by cases ofI <;> rfl
        have hfive : (c :: s).drop ilikeLetters.length = s.drop 4 := rfl
        rw [hsum, hfive] at hletters
        rw [List.countP_append, hf.countP_like, List.drop_zero, hletters, Nat.add_mul]
        omega
      · have hrest := ih 0 (RegexTables.isWord c)
        rw [List.drop_zero] at hrest ⊢
        rw [List.countP_cons, List.countP_cons]
        omega

end LetterKind

end Keyword

/-! ## Kinds of occurrences -/

/-- The types, each alone and as an array. -/
def kinds : List (PgType × Bool) := PgType.all.flatMap fun ty => [(ty, false), (ty, true)]

def Occurrence.kind : Occurrence → Option (PgType × Bool)
  | .type ty n => some (ty, decide (n ≠ 0))
  | .ilike _ => none

def Reading.tally (r : Reading) (kd : PgType × Bool) : Nat := r.total fun o => if o.kind = some kd then 1 else 0

theorem weighted_map (l : List (PgType × Bool)) (t g : PgType × Bool → Nat) :
    weighted (l.map t) (l.map g) = (l.map fun kd => t kd * g kd).sum := by
  rw [weighted, List.zipWith_map, List.zipWith_self]

theorem sum_kind (g : PgType × Bool → Nat) (kd : PgType × Bool) :
    (kinds.map fun kd' => (if some kd = some kd' then 1 else 0) * g kd').sum = g kd := by
  obtain ⟨ty, array⟩ := kd
  cases ty <;> cases array <;> simp [kinds, PgType.all]

/-- A sum that depends on the kind only. -/
theorem total_kinds {g : Occurrence → Nat} {G : PgType × Bool → Nat} {c : Nat}
    (hG : ∀ o kd, o.kind = some kd → g o = G kd) (hnone : ∀ s, g (.ilike s) = c) (r : Reading) :
    r.total g = weighted (kinds.map r.tally) (kinds.map G) + r.total fun o => if o.kind = none then c else 0 := by
  obtain ⟨lead, units⟩ := r
  rw [weighted_map]
  induction units with
  | nil => simp [Reading.total, Reading.tally]
  | cons u units ih =>
    have hone : g u.1 = (kinds.map fun kd => (if u.1.kind = some kd then 1 else 0) * G kd).sum +
        if u.1.kind = none then c else 0 := by
      cases hkind : u.1.kind with
      | none =>
        cases ho : u.1 with
        | type ty n => rw [ho] at hkind; cases hkind
        | ilike s => simp [hnone]
      | some kd => rw [hG u.1 kd hkind, sum_kind, if_neg (by simp), Nat.add_zero]
    have htally : ∀ kd, Reading.tally ⟨lead, u :: units⟩ kd =
        (if u.1.kind = some kd then 1 else 0) + Reading.tally ⟨lead, units⟩ kd := fun kd => List.sum_cons
    have hsum : (kinds.map fun kd => Reading.tally ⟨lead, u :: units⟩ kd * G kd).sum =
        (kinds.map fun kd => (if u.1.kind = some kd then 1 else 0) * G kd).sum +
          (kinds.map fun kd => Reading.tally ⟨lead, units⟩ kd * G kd).sum := by
      rw [← List.sum_map_add]
      simp only [htally, Nat.add_mul]
    rw [Reading.total_cons, Reading.total_cons, ih, hone, hsum]
    omega

/-! ## Balances -/

theorem typeTable_unbordered : ∀ e ∈ typeTable, e.1 ≠ [] ∧ Unbordered e.1 := by
  have hall : typeTable.all (fun e => decide (e.1 ≠ [] ∧ Unbordered e.1)) = true := by decide
  intro e he
  exact of_decide_eq_true (List.all_eq_true.mp hall e he)

theorem Script.text_eq (s : Script) : s.text = s.reading.render Occurrence.text := (render_text s.lexemes).symm

theorem countP_render (f : CodePoint → Bool) (w : Occurrence → Str) (r : Reading) :
    (r.render w).countP f = r.totalOthers (List.countP f) + r.total fun o => (w o).countP f := by
  rw [← Reading.sum_pieces, ← Reading.pieces_flatten, List.countP_flatten]

section Balance
variable [RegexTables]

/-- How often each replacement finds its text. -/
def Script.found (s : Script) : List Nat := tallies typeTable (convertPgSyntax s.text)

/-- The keywords found in the other texts. -/
def Script.foundKeywords (s : Script) : Nat := s.reading.totalOthers (keywordsFrom 0 false)

theorem totalOthers_convert {f : CodePoint → Bool} {ofI : Bool} (hf : LetterKind f ofI) (r : Reading) :
    (r.mapOthers convertPgSyntax).totalOthers (List.countP f) + r.totalOthers (keywordsFrom 0 false) * ofI.toNat =
      r.totalOthers (List.countP f) := by
  rw [Reading.totalOthers, Reading.others_mapOthers, Reading.totalOthers, Reading.totalOthers]
  generalize r.others = xs
  induction xs with
  | nil =>
    show 0 + 0 * ofI.toNat = 0
    rw [Nat.zero_mul]
  | cons x xs ih =>
    have hone : (convertPgSyntax x).countP f + keywordsFrom 0 false x * ofI.toNat = x.countP f :=
      countP_ilikeFrom hf 0 false x
    simp only [List.map_cons, List.sum_cons, Nat.add_mul] at ih ⊢
    omega

/-- Of each kind of letter an exact translation has as many as the replacements leave. -/
theorem Script.balance (s : Script) (h : sqliteScript s.text = s.translation) {f : CodePoint → Bool} {ofI : Bool}
    (hf : LetterKind f ofI) :
    weighted (kinds.map s.reading.tally) (kinds.map fun kd => (if kd.2 then lit "TEXT" else kd.1.sqlite).countP f) +
        weighted s.found (typeTable.map fun e => e.1.countP f) + s.foundKeywords * ofI.toNat =
      weighted (kinds.map s.reading.tally) (kinds.map fun kd => kd.1.name.countP f) +
        weighted s.found (typeTable.map fun e => e.2.countP f) := by
  have hcode := countP_replaceEach f typeTable_unbordered (convertPgSyntax s.text)
  have hexact : replaceEach typeTable (convertPgSyntax s.text) = s.reading.render Occurrence.sqlite := h
  have hothers : (s.reading.mapOthers convertPgSyntax).totalOthers (List.countP f) + s.foundKeywords * ofI.toNat =
      s.reading.totalOthers (List.countP f) := totalOthers_convert hf s.reading
  have htotal : (s.reading.mapOthers convertPgSyntax).total
      (fun o => (o.spelled PgType.name allDims).countP f) =
        s.reading.total fun o => (o.spelled PgType.name allDims).countP f := by
    rw [Reading.total, Reading.total, Reading.mapOthers, List.map_map]
    rfl
  have hsqlite : s.reading.total (fun o => o.sqlite.countP f) =
      weighted (kinds.map s.reading.tally) (kinds.map fun kd => (if kd.2 then lit "TEXT" else kd.1.sqlite).countP f) +
        s.reading.total fun o => if o.kind = none then (lit "LIKE").countP f else 0 := by
    apply total_kinds
    · intro o kd hkind
      cases o with
      | ilike _ => cases hkind
      | type ty n =>
        cases hkind
        cases n <;> rfl
    · intro _
      rfl
  have hspelled : s.reading.total (fun o => (o.spelled PgType.name allDims).countP f) =
      weighted (kinds.map s.reading.tally) (kinds.map fun kd => kd.1.name.countP f) +
        s.reading.total fun o => if o.kind = none then (lit "LIKE").countP f else 0 := by
    apply total_kinds
    · intro o kd hkind
      cases o with
      | ilike _ => cases hkind
      | type ty n =>
        cases hkind
        rw [Occurrence.spelled, List.countP_append, hf.countP_brackets, Nat.add_zero]
    · intro _
      rfl
  rw [hexact, countP_render, s.text_eq, convertPgSyntax_reading s.seamed, countP_render, htotal,
    ← convertPgSyntax_reading s.seamed, ← s.text_eq, hsqlite, hspelled] at hcode
  have hfound : tallies typeTable (convertPgSyntax s.text) = s.found := rfl
  rw [hfound] at hcode
  omega

/-! ## What is found -/

/-- The types of one name, alone and as arrays. -/
def Reading.tallyBoth (r : Reading) (ty : PgType) : Nat := r.tally (ty, false) + r.tally (ty, true)

/-- The letters of an exact translation tell how often each replacement found its text, the arrays aside. -/
theorem Script.found_of_exact (s : Script) (h : sqliteScript s.text = s.translation) :
    (∃ array, s.found = [s.reading.tallyBoth .serial, s.reading.tallyBoth .bigserial, s.reading.tallyBoth .jsonb, array,
      s.reading.tallyBoth .timestampWithTimeZone, s.reading.tallyBoth .timestamptz, s.reading.tallyBoth .uuid,
      s.reading.tallyBoth .boolean]) ∧
      s.reading.tally (.serial, true) = 0 ∧ s.reading.tally (.boolean, true) = 0 ∧ s.foundKeywords = 0 := by
  have hletter : ∀ (f : CodePoint → Bool) (ofI : Bool) (A P B Q : List Nat),
      ((([cp 'I', cp 'i', 0x130, 0x131] : List CodePoint).all (fun c => f c == ofI) = true ∧
        ([cp 'L', cp 'l', cp 'K', cp 'k', 0x212a, cp 'E', cp 'e'] : List CodePoint).all (fun c => !f c) = true ∧
          (f (cp '[') || f (cp ']')) = false) ∧
        (kinds.map fun kd => (if kd.2 then lit "TEXT" else kd.1.sqlite).countP f) = A ∧
        (typeTable.map fun e => e.1.countP f) = P ∧ (kinds.map fun kd => kd.1.name.countP f) = B ∧
        (typeTable.map fun e => e.2.countP f) = Q) →
      weighted (kinds.map s.reading.tally) A + weighted s.found P + s.foundKeywords * ofI.toNat =
        weighted (kinds.map s.reading.tally) B + weighted s.found Q := by
    rintro f ofI A P B Q ⟨⟨hI, hother, hbrackets⟩, rfl, rfl, rfl, rfl⟩
    exact s.balance h ⟨hI, hother, hbrackets⟩
  have hM := hletter (fun c => decide (c = cp 'M')) false
    [0, 0, 0, 0, 0, 0, 0, 0, 0, 0, 0, 0, 0, 0, 0, 0]
    [0, 0, 0, 0, 3, 2, 0, 0]
    [0, 0, 0, 0, 0, 0, 0, 0, 3, 3, 2, 2, 0, 0, 0, 0]
    [0, 0, 0, 0, 0, 0, 0, 0] (by decide)
  have hZ := hletter (fun c => decide (c = cp 'Z')) false
    [0, 0, 0, 0, 0, 0, 0, 0, 0, 0, 0, 0, 0, 0, 0, 0]
    [0, 0, 0, 0, 1, 1, 0, 0]
    [0, 0, 0, 0, 0, 0, 0, 0, 1, 1, 1, 1, 0, 0, 0, 0]
    [0, 0, 0, 0, 0, 0, 0, 0] (by decide)
  have hU := hletter (fun c => decide (c = cp 'U')) false
    [0, 0, 0, 0, 0, 0, 0, 0, 0, 0, 0, 0, 0, 0, 0, 0]
    [0, 0, 0, 0, 0, 0, 2, 0]
    [0, 0, 0, 0, 0, 0, 0, 0, 0, 0, 0, 0, 2, 2, 0, 0]
    [0, 0, 0, 0, 0, 0, 0, 0] (by decide)
  have hJ := hletter (fun c => decide (c = cp 'J')) false
    [0, 0, 0, 0, 0, 0, 0, 0, 0, 0, 0, 0, 0, 0, 0, 0]
    [0, 0, 1, 0, 0, 0, 0, 0]
    [0, 0, 0, 0, 1, 1, 0, 0, 0, 0, 0, 0, 0, 0, 0, 0]
    [0, 0, 0, 0, 0, 0, 0, 0] (by decide)
  have hO := hletter (fun c => decide (c = cp 'O')) false
    [0, 0, 0, 0, 0, 0, 0, 0, 0, 0, 0, 0, 0, 0, 0, 0]
    [0, 0, 1, 0, 1, 0, 0, 2]
    [0, 0, 0, 0, 1, 1, 0, 0, 1, 1, 0, 0, 0, 0, 2, 2]
    [0, 0, 0, 0, 0, 0, 0, 0] (by decide)
  have hS := hletter (fun c => decide (c = cp 'S')) false
    [0, 0, 0, 0, 0, 0, 0, 0, 0, 0, 0, 0, 0, 0, 0, 0]
    [1, 1, 1, 0, 1, 1, 0, 0]
    [1, 1, 1, 1, 1, 1, 0, 0, 1, 1, 1, 1, 0, 0, 0, 0]
    [0, 0, 0, 0, 0, 0, 0, 0] (by decide)
  have hB := hletter (fun c => decide (c = cp 'B')) false
    [0, 0, 0, 0, 0, 0, 0, 0, 0, 0, 0, 0, 0, 0, 0, 0]
    [0, 1, 1, 0, 0, 0, 0, 1]
    [0, 0, 1, 1, 1, 1, 0, 0, 0, 0, 0, 0, 0, 0, 1, 1]
    [0, 0, 0, 0, 0, 0, 0, 0] (by decide)
  have hX := hletter (fun c => decide (c = cp 'X')) false
    [0, 1, 0, 1, 1, 1, 1, 1, 1, 1, 1, 1, 1, 1, 0, 1]
    [0, 0, 0, 1, 0, 0, 0, 0]
    [0, 0, 0, 0, 0, 0, 1, 1, 0, 0, 0, 0, 0, 0, 0, 0]
    [0, 0, 1, 1, 1, 1, 1, 0] (by decide)
  have hI := hletter (fun c => decide (c ∈ [cp 'I', cp 'i', 0x130, 0x131])) true
    [1, 0, 1, 0, 0, 0, 0, 0, 0, 0, 0, 0, 0, 0, 1, 0]
    [1, 2, 0, 0, 3, 1, 1, 0]
    [1, 1, 2, 2, 0, 0, 0, 0, 3, 3, 1, 1, 1, 1, 0, 0]
    [1, 1, 0, 0, 0, 0, 0, 1] (by decide)
  have hkinds : kinds.map s.reading.tally = PgType.all.flatMap fun ty => [s.reading.tally (ty, false), s.reading.tally (ty, true)] := rfl
  obtain ⟨n₁, n₂, n₃, n₄, n₅, n₆, n₇, n₈, hfound⟩ :
      ∃ n₁ n₂ n₃ n₄ n₅ n₆ n₇ n₈, s.found = [n₁, n₂, n₃, n₄, n₅, n₆, n₇, n₈] := ⟨_, _, _, _, _, _, _, _, rfl⟩
  simp only [hkinds, hfound, PgType.all, weighted, List.flatMap_cons, List.flatMap_nil, List.cons_append, List.nil_append,
    List.zipWith_cons_cons, List.zipWith_nil_left, List.sum_cons, List.sum_nil, Nat.mul_zero, Nat.mul_one, Nat.zero_add,
    Nat.add_zero, Bool.toNat_false, Bool.toNat_true] at hM hZ hU hJ hO hS hB hX hI
  refine ⟨⟨n₄, ?_⟩, by omega, by omega, by omega⟩
  rw [hfound]
  simp only [Reading.tallyBoth, List.cons.injEq, and_true, true_and]
  omega

end Balance

end IsaCloud.Database
