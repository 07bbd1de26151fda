import IsaCloud.Database.ScriptWords

/-!
# Which scripts are translated exactly

In a plain script each replacement meets its own type and nothing else. Conversely the
letters of an exact translation leave each replacement but that of TEXT[] no more than
the types of its name, and the brackets of an exact translation stand where they stood.
-/

namespace IsaCloud.Database

set_option autoImplicit false

open Support Support.Text Support.Occurrences

/-! ## Plain scripts -/

theorem render_congr {w w' : Occurrence → Str} {r : Reading} (h : ∀ u ∈ r.units, w u.1 = w' u.1) :
    r.render w = r.render w' := by
  have hunits : ∀ u ∈ r.units, w u.1 ++ u.2 = w' u.1 ++ u.2 := by
    intro u hu
    rw [h u hu]
  rw [Reading.render, Reading.render, List.flatMap_congr hunits]

theorem wordAfter_supported {o : Occurrence} (h : o.supported = true) : wordAfter 8 o = o.sqlite := by
  cases o with
  | ilike s => rfl
  | type ty n =>
    have hcheck : supportedTypes.all (fun tn => decide (wordAfter 8 (.type tn.1 tn.2) =
        (Occurrence.type tn.1 tn.2).sqlite)) = true := by decide
    exact of_decide_eq_true (List.all_eq_true.mp hcheck (ty, n) (mem_supportedTypes h))

/-- Without a keyword in the other texts. -/
theorem convertPgSyntax_spared [RegexTables] {r : Reading} (hs : Seamed r.lead r.units)
    (h : ∀ x ∈ r.others, containsIlike x = false) :
    convertPgSyntax (r.render Occurrence.text) = r.render (wordAfter 0) := by
  have hsame : ∀ x ∈ r.others, convertPgSyntax x = x := by
    intro x hx
    exact ilikeFrom_of_none (h x hx)
  rw [convertPgSyntax_reading hs, Reading.mapOthers_eq_self hsame]
  rfl

theorem replaceEach_drop {k : Nat} (hk : k < typeTable.length) (s : Str) :
    replaceEach (typeTable.drop k) s = replaceEach (typeTable.drop (k + 1)) (replaceText typeTable[k].1 typeTable[k].2 s) := by
  rw [List.drop_eq_getElem_cons hk]
  rfl

theorem translated_plain [RegexTables] {r : Reading} (hs : Seamed r.lead r.units) (hr : r.Plain) :
    replaceEach typeTable (r.render (wordAfter 0)) = r.render Occurrence.sqlite := by
  have hstages : ∀ k ≤ typeTable.length,
      replaceEach typeTable (r.render (wordAfter 0)) = replaceEach (typeTable.drop k) (r.render (wordAfter k)) := by
    intro k
    induction k with
    | zero =>
      intro _
      rfl
    | succ k ih =>
      intro hk
      have hold := (typeTable_unbordered typeTable[k] (List.getElem_mem hk)).1
      have hspared : ∀ x ∈ r.others, count typeTable[k].1 x = 0 := by
        intro x hx
        exact (count_eq_zero_iff hold).mpr ((hr.others x hx).2 _ (List.getElem_mem hk))
      rw [ih (Nat.le_of_lt hk), replaceEach_drop hk,
        Reading.replaceText_render_of_others hold (separate_of_seamed hs (fits_of_plain hs hr hk)) hspared]
      simp only [wordAfter_succ hk]
  rw [hstages 8 (Nat.le_refl 8)]
  exact render_congr fun u hu => wordAfter_supported (hr.supported u hu)

/-! ## Words that account for what is found -/

theorem total_le {g g' : Occurrence → Nat} (h : ∀ o, g o ≤ g' o) (r : Reading) : r.total g ≤ r.total g' := by
  obtain ⟨lead, units⟩ := r
  induction units with
  | nil => exact Nat.le_refl 0
  | cons u units ih =>
    have hone := h u.1
    rw [Reading.total_cons, Reading.total_cons]
    omega

/-- How often a type occurs. -/
theorem tallyBoth_eq (ty : PgType) (r : Reading) :
    r.tallyBoth ty = r.total fun o => if o.kind = some (ty, false) ∨ o.kind = some (ty, true) then 1 else 0 := by
  obtain ⟨lead, units⟩ := r
  induction units with
  | nil => rfl
  | cons u units ih =>
    rw [Reading.tallyBoth, Reading.tally, Reading.tally] at ih ⊢
    rw [Reading.total_cons, Reading.total_cons, Reading.total_cons, ← ih]
    by_cases halone : u.1.kind = some (ty, false)
    · have hnot : u.1.kind ≠ some (ty, true) := by
        rw [halone]
        simp
      rw [if_pos halone, if_neg hnot, if_pos (.inl halone)]
      omega
    · by_cases harray : u.1.kind = some (ty, true)
      · rw [if_neg halone, if_pos harray, if_pos (.inr harray)]
        omega
      · rw [if_neg halone, if_neg harray, if_neg (by rintro (h | h); exacts [halone h, harray h])]
        omega

theorem tallyBoth_le {ty : PgType} {g : Occurrence → Nat} (h : ∀ n, 1 ≤ g (.type ty n)) (r : Reading) :
    r.tallyBoth ty ≤ r.total g := by
  rw [tallyBoth_eq]
  apply total_le
  intro o
  split
  · rename_i hkind
    cases o with
    | ilike s => rcases hkind with hkind | hkind <;> cases hkind
    | type ty' n =>
      have hty : ty' = ty := by
        rcases hkind with hkind | hkind
        · exact congrArg Prod.fst (Option.some.inj hkind)
        · exact congrArg Prod.fst (Option.some.inj hkind)
      rw [hty]
      exact h n
  · exact Nat.zero_le _

theorem total_mapOthers (g : Occurrence → Nat) (f : Str → Str) (r : Reading) : (r.mapOthers f).total g = r.total g := by
  rw [Reading.total, Reading.total, Reading.mapOthers, List.map_map]
  rfl

theorem tallyBoth_mapOthers (f : Str → Str) (r : Reading) (ty : PgType) :
    (r.mapOthers f).tallyBoth ty = r.tallyBoth ty := by
  rw [Reading.tallyBoth, Reading.tallyBoth, Reading.tally, Reading.tally, Reading.tally, Reading.tally,
    total_mapOthers, total_mapOthers]

/-- A type whose name a replacement is for. -/
theorem tallyBoth_le_count {k : Nat} (hk : k < typeTable.length) {ty : PgType}
    (h : 1 ≤ count typeTable[k].1 (nameAfter k ty)) (r : Reading) :
    r.tallyBoth ty ≤ r.total fun o => count typeTable[k].1 (wordAfter k o) := by
  apply tallyBoth_le
  intro n
  have hle := count_append_le typeTable[k].1 (nameAfter k ty) (bracketText ((if k ≤ 3 then allDims else lessDims) ty n))
  have hword : wordAfter k (.type ty n) = nameAfter k ty ++ bracketText ((if k ≤ 3 then allDims else lessDims) ty n) := rfl
  rw [hword]
  omega

/-- SERIAL is found in both of the types that have it in their names. -/
theorem tallyBoth_serial_le (r : Reading) : r.tallyBoth .serial + r.tallyBoth .bigserial ≤
    r.total fun o => count (lit "SERIAL") (wordAfter 0 o) := by
  have hsum : r.tallyBoth .serial + r.tallyBoth .bigserial = r.total fun o =>
      (if o.kind = some (.serial, false) ∨ o.kind = some (.serial, true) then 1 else 0) +
        if o.kind = some (.bigserial, false) ∨ o.kind = some (.bigserial, true) then 1 else 0 := by
    rw [tallyBoth_eq, tallyBoth_eq, Reading.total, Reading.total, Reading.total, List.sum_map_add]
  rw [hsum]
  apply total_le
  intro o
  cases o with
  | ilike s => exact Nat.zero_le _
  | type ty n =>
    have hle := count_append_le (lit "SERIAL") ty.name (bracketText n)
    have hword : wordAfter 0 (.type ty n) = ty.name ++ bracketText n := rfl
    have hserial : count (lit "SERIAL") PgType.serial.name = 1 := by decide
    have hbig : count (lit "SERIAL") PgType.bigserial.name = 1 := by decide
    rw [hword]
    cases ty with
    | serial | bigserial =>
      by_cases hn : n = 0
      · simp [Occurrence.kind, hn]
        omega
      · simp [Occurrence.kind, hn]
        omega
    | jsonb | text | timestampWithTimeZone | timestamptz | uuid | boolean => simp [Occurrence.kind]

/-- A replacement that finds no more than the words account for. -/
theorem stage_of_count {r : Reading} {k : Nat} (hk : k < typeTable.length)
    (h : count typeTable[k].1 (r.render (wordAfter k)) ≤ r.total fun o => count typeTable[k].1 (wordAfter k o)) :
    Separate typeTable[k].1 (r.pieces (wordAfter k)) ∧ (∀ x ∈ r.others, count typeTable[k].1 x = 0) ∧
      replaceText typeTable[k].1 typeTable[k].2 (r.render (wordAfter k)) = r.render (wordAfter (k + 1)) := by
  obtain ⟨hseparate, hothers⟩ := Reading.separate_of_count h
  have hold := (typeTable_unbordered typeTable[k] (List.getElem_mem hk)).1
  refine ⟨hseparate, hothers, ?_⟩
  rw [Reading.replaceText_render_of_others hold hseparate hothers]
  simp only [wordAfter_succ hk]

/-! ## Brackets that stay where they were -/

/-- No bracket is first. -/
def Unbracketed (x : Str) : Prop := x = [] ∨ ∃ c y, x = c :: y ∧ c ≠ cp '[' ∧ c ≠ cp ']'

/-- Nothing can make up for brackets that were taken away. -/
theorem brackets_not_shifted {x : Str} (hx : Unbracketed x) (b y : Str) :
    replaceText arrayText (lit "TEXT") b ++ x ≠ lit "[]" ++ (b ++ y) := by
  have hopen : ∀ {y : Str}, x ≠ cp '[' :: y := by
    intro y h
    rcases hx with rfl | ⟨c, z, rfl, hne, _⟩
    · cases h
    · exact hne (List.cons.inj h).1
  have hclose : ∀ {y : Str}, x ≠ cp ']' :: y := by
    intro y h
    rcases hx with rfl | ⟨c, z, rfl, _, hne⟩
    · cases h
    · exact hne (List.cons.inj h).1
  have hletter : ∀ {b : Str} {c : CodePoint} {y : Str}, arrayText <+: b → c ≠ cp 'T' →
      replaceText arrayText (lit "TEXT") b ++ x ≠ c :: y := by
    intro b c y hfound hc h
    rw [replaceText_found (by decide) hfound] at h
    exact hc (List.cons.inj h).1.symm
  induction hn : b.length using Nat.strong_induction_on generalizing b y with
  | _ n ih =>
    intro h
    cases b with
    | nil => exact hopen h
    | cons c b =>
      by_cases hfound : arrayText <+: c :: b
      · exact hletter hfound (by decide) h
      · rw [replaceText_cons hfound] at h
        obtain ⟨rfl, h⟩ := List.cons.inj h
        cases b with
        | nil => exact hclose h
        | cons d b =>
          by_cases hfound' : arrayText <+: d :: b
          · exact hletter hfound' (by decide) h
          · rw [replaceText_cons hfound'] at h
            obtain ⟨rfl, h⟩ := List.cons.inj h
            exact ih b.length (by rw [← hn, List.length_cons, List.length_cons]; omega) b y rfl h

theorem replaceText_array_cancel {x : Str} (hx : Unbracketed x) (b y : Str)
    (h : replaceText arrayText (lit "TEXT") b ++ x = b ++ y) : replaceText arrayText (lit "TEXT") b = b := by
  induction b with
  | nil => rfl
  | cons c b ih =>
    by_cases hfound : arrayText <+: c :: b
    · obtain ⟨b', hb'⟩ := hfound
      rw [← hb', replaceText_self_append (by decide)] at h
      have hsplit : arrayText ++ b' ++ y = lit "TEXT" ++ (lit "[]" ++ (b' ++ y)) := by
        rw [List.append_assoc]
        rfl
      rw [hsplit, List.append_assoc] at h
      exact absurd (List.append_cancel_left h) (brackets_not_shifted hx b' y)
    · rw [replaceText_cons hfound] at h ⊢
      rw [ih (List.cons.inj h).2]

theorem brackets_not_first {n : Nat} {rest x y : Str} (hy : Unbracketed y) (hrest : ¬ lit "[]" <+: rest)
    (h : bracketText n ++ x = rest ++ y) : n = 0 := by
  cases n with
  | zero => rfl
  | succ n =>
    exfalso
    have hbrackets : cp '[' :: cp ']' :: (bracketText n ++ x) = rest ++ y := h
    cases rest with
    | nil =>
      rcases hy with rfl | ⟨c, z, rfl, hne, _⟩
      · cases hbrackets
      · exact hne (List.cons.inj hbrackets).1.symm
    | cons c rest =>
      obtain ⟨hc, htail⟩ := List.cons.inj hbrackets
      cases rest with
      | nil =>
        rcases hy with rfl | ⟨d, z, rfl, _, hne⟩
        · cases htail
        · exact hne (List.cons.inj htail).1.symm
      | cons d rest =>
        rw [← hc, ← (List.cons.inj htail).1] at hrest
        exact hrest ⟨rest, rfl⟩

/-- What becomes of an occurrence that no other type gets in the way of. -/
def Settles (o : Occurrence) : Prop := ∀ ty n, o = .type ty n → wordAfter 8 o = o.sqlite ++ bracketText (lessDims ty n)

theorem settles_of_kind {o : Occurrence} (h : ∀ array, o.kind ≠ some (.bigserial, array))
    (hserial : o.kind ≠ some (.serial, true)) (hboolean : o.kind ≠ some (.boolean, true)) : Settles o := by
  rintro ty n rfl
  have hcheck : kinds.all (fun kd => decide (kd.1 = .bigserial) || decide (kd = (.serial, true)) ||
      decide (kd = (.boolean, true)) || decide (nameAfter 8 kd.1 = if kd.2 then lit "TEXT" else kd.1.sqlite)) = true := by
    decide
  have hmem : (ty, decide (n ≠ 0)) ∈ kinds := by cases ty <;> cases decide (n ≠ 0) <;> decide
  have hname := List.all_eq_true.mp hcheck _ hmem
  have hbig : ty ≠ .bigserial := by
    rintro rfl
    exact h _ rfl
  have hser : (ty, decide (n ≠ 0)) ≠ (.serial, true) := fun heq => hserial (congrArg some heq)
  have hboo : (ty, decide (n ≠ 0)) ≠ (.boolean, true) := fun heq => hboolean (congrArg some heq)
  rw [decide_eq_false hbig, decide_eq_false hser, decide_eq_false hboo, Bool.false_or, Bool.false_or, Bool.false_or,
    decide_eq_true_eq] at hname
  show nameAfter 8 ty ++ bracketText (lessDims ty n) = _
  rw [hname]
  cases n with
  | zero => rfl
  | succ n => rfl

theorem sqlite_head (o : Occurrence) : ∃ c y, o.sqlite = c :: y ∧ c ≠ cp '[' ∧ c ≠ cp ']' := by
  cases o with
  | ilike s => exact ⟨cp 'L', lit "IKE", rfl, by decide, by decide⟩
  | type ty n =>
    cases n with
    | succ n => exact ⟨cp 'T', lit "EXT", rfl, by decide, by decide⟩
    | zero =>
      cases ty with
      | serial | bigserial | boolean => exact ⟨cp 'I', lit "NTEGER", rfl, by decide, by decide⟩
      | jsonb | text | timestampWithTimeZone | timestamptz | uuid =>
        exact ⟨cp 'T', lit "EXT", rfl, by decide, by decide⟩

/-- No bracket stands first where the words begin with those of SQLite. -/
theorem unbracketed_units {w : Occurrence → Str} {us : List (Occurrence × Str)}
    (h : ∀ u ∈ us, ∃ z, w u.1 = u.1.sqlite ++ z) : Unbracketed (us.flatMap fun u => w u.1 ++ u.2) := by
  cases us with
  | nil => exact .inl rfl
  | cons u us =>
    obtain ⟨z, hz⟩ := h u List.mem_cons_self
    obtain ⟨c, y, hc, hne⟩ := sqlite_head u.1
    refine .inr ⟨c, y ++ z ++ u.2 ++ us.flatMap fun u => w u.1 ++ u.2, ?_, hne⟩
    rw [List.flatMap_cons, hz, hc]
    rfl

theorem Settles.begins {o : Occurrence} (h : Settles o) : ∃ z, wordAfter 8 o = o.sqlite ++ z := by
  cases o with
  | ilike s => exact ⟨[], rfl⟩
  | type ty n => exact ⟨_, h ty n rfl⟩

def withoutArrays : Str → Str := replaceText arrayText (lit "TEXT")

theorem unbracketed_settled {us : List (Occurrence × Str)} (h : ∀ u ∈ us, Settles u.1) :
    Unbracketed (us.flatMap fun u => wordAfter 8 u.1 ++ withoutArrays u.2) := by
  have hunits := @unbracketed_units (wordAfter 8) (us.map fun u => (u.1, withoutArrays u.2)) (by
    intro u hu
    obtain ⟨u', hu', rfl⟩ := List.mem_map.mp hu
    exact (h u' hu').begins)
  rw [List.flatMap_map] at hunits
  exact hunits

/-- Where the texts agree, no array lost its brackets and no brackets are left over. -/
theorem units_exact {left : Str} {us : List (Occurrence × Str)} (hs : Seamed left us) (hset : ∀ u ∈ us, Settles u.1)
    (h : (us.flatMap fun u => wordAfter 8 u.1 ++ withoutArrays u.2) = us.flatMap fun u => u.1.sqlite ++ u.2) :
    ∀ u ∈ us, withoutArrays u.2 = u.2 ∧ ∀ ty n, u.1 = .type ty n → lessDims ty n = 0 := by
  induction us generalizing left with
  | nil =>
    intro u hu
    cases hu
  | cons u us ih =>
    obtain ⟨o, rest⟩ := u
    obtain ⟨_, hstops, hrest⟩ := hs
    have hset' : ∀ u ∈ us, Settles u.1 := fun u hu => hset u (List.mem_cons_of_mem _ hu)
    have hright : Unbracketed (us.flatMap fun u => u.1.sqlite ++ u.2) :=
      unbracketed_units fun u _ => ⟨[], (List.append_nil _).symm⟩
    rw [List.flatMap_cons, List.flatMap_cons] at h
    -- Once the brackets of the word are settled, the text after it is cut off.
    have hcut : withoutArrays rest ++ (us.flatMap fun u => wordAfter 8 u.1 ++ withoutArrays u.2) =
        rest ++ (us.flatMap fun u => u.1.sqlite ++ u.2) ∧ ∀ ty n, o = .type ty n → lessDims ty n = 0 := by
      cases o with
      | ilike s =>
        rw [List.append_assoc, List.append_assoc] at h
        exact ⟨List.append_cancel_left h, nofun⟩
      | type ty n =>
        rw [hset _ List.mem_cons_self ty n rfl, List.append_assoc, List.append_assoc, List.append_assoc] at h
        have hbrackets := List.append_cancel_left h
        have hzero := brackets_not_first hright (hstops.dims ty n rfl) hbrackets
        rw [hzero] at hbrackets
        refine ⟨hbrackets, ?_⟩
        intro ty' n' ho
        cases ho
        exact hzero
    have hsame : withoutArrays rest = rest := replaceText_array_cancel (unbracketed_settled hset') rest _ hcut.1
    have hmore := hcut.1
    rw [hsame] at hmore
    intro u hu
    rcases List.mem_cons.mp hu with rfl | hu
    · exact ⟨hsame, hcut.2⟩
    · exact ih hrest hset' (List.append_cancel_left hmore) u hu

/-! ## Exact translations -/

theorem count_withoutArrays {x : Str} (h : withoutArrays x = x) : count arrayText x = 0 := by
  have hbalance := @countP_replaceText arrayText (lit "TEXT") (by decide) (by decide)
    (fun c => decide (c = cp '[')) x
  have hsame : replaceText arrayText (lit "TEXT") x = x := h
  have hold : arrayText.countP (fun c => decide (c = cp '[')) = 1 := by decide
  have hnew : (lit "TEXT").countP (fun c => decide (c = cp '[')) = 0 := by decide
  rw [hsame, hold, hnew] at hbalance
  omega

theorem tally_eq_zero {r : Reading} {kd : PgType × Bool} (h : r.tally kd = 0) : ∀ u ∈ r.units, u.1.kind ≠ some kd := by
  intro u hu hkind
  have hone : (if u.1.kind = some kd then 1 else 0) = 0 :=
    List.sum_eq_zero_iff_forall_eq_nat.mp h _ (List.mem_map_of_mem hu)
  rw [if_pos hkind] at hone
  cases hone

/-- No pattern crosses from a word into the text after it. -/
theorem not_crosses_unit {p : Str} {w : Occurrence → Str} {r : Reading} (h : Separate p (r.pieces w)) :
    ∀ u ∈ r.units, ¬ Crosses p (w u.1) u.2 := by
  obtain ⟨lead, units⟩ := r
  have hunits : Separate p (units.flatMap fun u => [w u.1, u.2]) := h.2
  clear h
  induction units with
  | nil =>
    intro u hu
    cases hu
  | cons u units ih =>
    have hparts : ¬ Crosses p (w u.1) (u.2 :: units.flatMap fun u => [w u.1, u.2]).flatten ∧
        Separate p (u.2 :: units.flatMap fun u => [w u.1, u.2]) := hunits
    intro u' hu'
    rcases List.mem_cons.mp hu' with rfl | hu'
    · rintro ⟨i, hpos, hi, htake, hdrop⟩
      apply hparts.1
      rw [List.flatten_cons]
      exact ⟨i, hpos, hi, htake, hdrop.trans (List.prefix_append _ _)⟩
    · exact ih hparts.2.2 u' hu'

/-- One replacement that finds no more than the words account for, and those after it. -/
theorem next_stage {r : Reading} {k : Nat} (hk : k < typeTable.length) {n : Nat} {ns : List Nat}
    (h : tallies (typeTable.drop k) (r.render (wordAfter k)) = n :: ns)
    (hn : n ≤ r.total fun o => count typeTable[k].1 (wordAfter k o)) :
    Separate typeTable[k].1 (r.pieces (wordAfter k)) ∧ (∀ x ∈ r.others, count typeTable[k].1 x = 0) ∧
      tallies (typeTable.drop (k + 1)) (r.render (wordAfter (k + 1))) = ns ∧
      replaceEach (typeTable.drop k) (r.render (wordAfter k)) =
        replaceEach (typeTable.drop (k + 1)) (r.render (wordAfter (k + 1))) := by
  rw [List.drop_eq_getElem_cons hk] at h
  obtain ⟨hcount, hrest⟩ := List.cons.inj h
  obtain ⟨hseparate, hspared, hnext⟩ := stage_of_count hk (hcount ▸ hn)
  rw [hnext] at hrest
  exact ⟨hseparate, hspared, hrest, by rw [replaceEach_drop hk, hnext]⟩

theorem array_stage {r : Reading} (hs : Seamed r.lead r.units) {n : Nat} {ns : List Nat}
    (h : tallies (typeTable.drop 3) (r.render (wordAfter 3)) = n :: ns) :
    tallies (typeTable.drop 4) ((r.mapOthers withoutArrays).render (wordAfter 4)) = ns ∧
      replaceEach (typeTable.drop 3) (r.render (wordAfter 3)) =
        replaceEach (typeTable.drop 4) ((r.mapOthers withoutArrays).render (wordAfter 4)) := by
  have hthree : 3 < typeTable.length := by decide
  have hnext : replaceText arrayText (lit "TEXT") (r.render (wordAfter 3)) =
      (r.mapOthers withoutArrays).render (wordAfter 4) := by
    rw [Reading.replaceText_render (by decide) (separate_of_seamed hs (fits_array hs))]
    exact congrArg (fun w => (r.mapOthers withoutArrays).render w) (funext fun o => wordAfter_succ hthree o)
  constructor
  · rw [← hnext]
    exact (List.cons.inj h).2
  · rw [← hnext]
    rfl

theorem total_le_count (p : Str) (w : Occurrence → Str) (r : Reading) :
    (r.total fun o => count p (w o)) ≤ count p (r.render w) := by
  have hle := sum_count_le p (r.pieces w)
  rw [Reading.pieces_flatten, Reading.sum_pieces] at hle
  omega

/-- SERIAL would be found in BIGSERIAL. -/
theorem no_bigserial {r : Reading} (h : count (lit "SERIAL") (r.render (wordAfter 0)) = r.tallyBoth .serial) :
    r.tallyBoth .bigserial = 0 := by
  have hwords := tallyBoth_serial_le r
  have hall := total_le_count (lit "SERIAL") (wordAfter 0) r
  omega

/-- The three replacements before that of TEXT[]. -/
theorem stages_before_array {r : Reading} {ns : List Nat}
    (h : tallies typeTable (r.render (wordAfter 0)) =
      r.tallyBoth .serial :: r.tallyBoth .bigserial :: r.tallyBoth .jsonb :: ns) :
    (∀ k (hk : k < typeTable.length), k < 3 → ∀ x ∈ r.others, count typeTable[k].1 x = 0) ∧
      r.tallyBoth .bigserial = 0 ∧ tallies (typeTable.drop 3) (r.render (wordAfter 3)) = ns ∧
      replaceEach typeTable (r.render (wordAfter 0)) = replaceEach (typeTable.drop 3) (r.render (wordAfter 3)) := by
  have hbig := no_bigserial (List.cons.inj h).1
  obtain ⟨_, hserial, htallies, hstage⟩ := @next_stage r 0 (by decide) _ _ h
    (tallyBoth_le_count (by decide) (by decide) r)
  obtain ⟨_, hbigserial, htallies, hstage'⟩ := next_stage (by decide) htallies (by rw [hbig]; exact Nat.zero_le _)
  obtain ⟨_, hjsonb, htallies, hstage''⟩ := next_stage (by decide) htallies
    (tallyBoth_le_count (by decide) (by decide) r)
  refine ⟨?_, hbig, htallies, hstage.trans (hstage'.trans hstage'')⟩
  intro k _ hthree
  match k with
  | 0 => exact hserial
  | 1 => exact hbigserial
  | 2 => exact hjsonb

/-- The four replacements after that of TEXT[]. -/
theorem stages_after_array {r : Reading}
    (h : tallies (typeTable.drop 4) (r.render (wordAfter 4)) =
      [r.tallyBoth .timestampWithTimeZone, r.tallyBoth .timestamptz, r.tallyBoth .uuid, r.tallyBoth .boolean]) :
    (∀ k (hk : k < typeTable.length), 3 < k →
        Separate typeTable[k].1 (r.pieces (wordAfter k)) ∧ ∀ x ∈ r.others, count typeTable[k].1 x = 0) ∧
      replaceEach (typeTable.drop 4) (r.render (wordAfter 4)) = r.render (wordAfter 8) := by
  obtain ⟨hapart₄, hzone, htallies, hstage₄⟩ := next_stage (by decide) h
    (tallyBoth_le_count (by decide) (by decide) r)
  obtain ⟨hapart₅, htz, htallies, hstage₅⟩ := next_stage (by decide) htallies
    (tallyBoth_le_count (by decide) (by decide) r)
  obtain ⟨hapart₆, huuid, htallies, hstage₆⟩ := next_stage (by decide) htallies
    (tallyBoth_le_count (by decide) (by decide) r)
  obtain ⟨hapart₇, hboolean, _, hstage₇⟩ := next_stage (by decide) htallies
    (tallyBoth_le_count (by decide) (by decide) r)
  refine ⟨?_, hstage₄.trans (hstage₅.trans (hstage₆.trans hstage₇))⟩
  intro k hk hfour
  have hlen : k < 8 := hk
  match k with
  | 4 => exact ⟨hapart₄, hzone⟩
  | 5 => exact ⟨hapart₅, htz⟩
  | 6 => exact ⟨hapart₆, huuid⟩
  | 7 => exact ⟨hapart₇, hboolean⟩

theorem supported_of_dims {ty : PgType} {n : Nat} (hbig : ty ≠ .bigserial) (h : lessDims ty n = 0) :
    (Occurrence.type ty n).supported = true := by
  rw [lessDims] at h
  split at h
  · rename_i hty
    cases n with
    | zero => exact decide_eq_true hbig
    | succ n =>
      cases n with
      | zero => exact decide_eq_true hty
      | succ n => cases h
  · rw [h]
    exact decide_eq_true hbig

/-- No array lost its brackets within the other texts, and none kept them. -/
theorem arrays_exact {r : Reading} (hs : Seamed r.lead r.units) (hset : ∀ u ∈ r.units, Settles u.1)
    (h : (r.mapOthers withoutArrays).render (wordAfter 8) = r.render Occurrence.sqlite) :
    (∀ x ∈ r.others, withoutArrays x = x) ∧ ∀ u ∈ r.units, ∀ ty n, u.1 = .type ty n → lessDims ty n = 0 := by
  rw [Reading.render, Reading.render, Reading.mapOthers, List.flatMap_map] at h
  have hlead : withoutArrays r.lead = r.lead := replaceText_array_cancel (unbracketed_settled hset) r.lead _ h
  rw [hlead] at h
  have hunits := units_exact hs hset (List.append_cancel_left h)
  constructor
  · intro x hx
    rcases List.mem_cons.mp hx with rfl | hx
    · exact hlead
    · obtain ⟨u, hu, rfl⟩ := List.mem_map.mp hx
      exact (hunits u hu).1
  · intro u hu
    exact (hunits u hu).2

/-- What completes a TEXT crosses from the word into the text after it. -/
theorem not_completion {r : Reading} {k : Nat} (hk : k < typeTable.length)
    (hseparate : Separate typeTable[k].1 (r.pieces (wordAfter k))) {u : Occurrence × Str} (hu : u ∈ r.units)
    (hword : lit "T" <:+ wordAfter k u.1) {tail : Str} (hold : typeTable[k].1 = lit "T" ++ tail) (htail : tail ≠ []) :
    ¬ tail <+: u.2 := by
  intro hpre
  apply not_crosses_unit hseparate u hu
  have hlen := List.length_pos_iff.mpr htail
  refine ⟨1, Nat.zero_lt_one, ?_, ?_, ?_⟩
  · rw [hold, List.length_append]
    exact Nat.lt_add_of_pos_right hlen
  · rw [hold]
    exact hword
  · rw [hold]
    exact hpre

section Exact
variable [RegexTables]

/-- The keyword is not found in the other texts. -/
theorem Script.spared_of_exact (s : Script) (h : s.foundKeywords = 0) :
    ∀ x ∈ s.reading.others, containsIlike x = false := by
  intro x hx
  have hnone : keywordsFrom 0 false x = 0 := List.sum_eq_zero_iff_forall_eq_nat.mp h _ (List.mem_map_of_mem hx)
  apply eq_false_of_ne_true
  intro hcontains
  exact absurd (keywordsFrom_pos hcontains) (by omega)

theorem plain_of_exact (s : Script) (h : sqliteScript s.text = s.translation) : s.reading.Plain := by
  obtain ⟨⟨array, hfound⟩, hserial, hboolean, hkeywords⟩ := s.found_of_exact h
  have hkeyword := s.spared_of_exact hkeywords
  have hstart : convertPgSyntax s.text = s.reading.render (wordAfter 0) := by
    rw [s.text_eq, convertPgSyntax_spared s.seamed hkeyword]
  rw [Script.found, hstart] at hfound
  rw [sqliteScript, hstart] at h
  obtain ⟨hbefore, hbig, htallies, hfirst⟩ := stages_before_array hfound
  obtain ⟨htallies, hmiddle⟩ := array_stage s.seamed htallies
  simp only [← tallyBoth_mapOthers withoutArrays s.reading] at htallies
  obtain ⟨hafter, hlast⟩ := stages_after_array htallies
  have hnone : ∀ u ∈ s.reading.units, ∀ isArray, u.1.kind ≠ some (.bigserial, isArray) := by
    intro u hu isArray
    cases isArray with
    | false => exact tally_eq_zero (Nat.add_eq_zero_iff.mp hbig).1 u hu
    | true => exact tally_eq_zero (Nat.add_eq_zero_iff.mp hbig).2 u hu
  have hset : ∀ u ∈ s.reading.units, Settles u.1 := by
    intro u hu
    exact settles_of_kind (hnone u hu) (tally_eq_zero hserial u hu) (tally_eq_zero hboolean u hu)
  obtain ⟨hsame, hdims⟩ := arrays_exact s.seamed hset (by
    rw [← hlast, ← hmiddle, ← hfirst, h, Script.translation])
  have hreading : s.reading.mapOthers withoutArrays = s.reading := Reading.mapOthers_eq_self hsame
  rw [hreading] at hafter
  have hcounts : ∀ k (hk : k < typeTable.length), ∀ x ∈ s.reading.others, count typeTable[k].1 x = 0 := by
    intro k hk x hx
    rcases Nat.lt_trichotomy k 3 with hlt | rfl | hgt
    · exact hbefore k hk hlt x hx
    · exact count_withoutArrays (hsame x hx)
    · exact (hafter k hk hgt).2 x hx
  have hsupported : ∀ u ∈ s.reading.units, u.1.supported = true := by
    intro u hu
    cases ho : u.1 with
    | ilike x => rfl
    | type ty n =>
      apply supported_of_dims _ (hdims u hu ty n ho)
      rintro rfl
      apply hnone u hu (decide (n ≠ 0))
      rw [ho]
      rfl
  refine ⟨?_, hsupported, ?_⟩
  · intro x hx
    refine ⟨hkeyword x hx, ?_⟩
    intro e he
    obtain ⟨k, hk, rfl⟩ := List.getElem_of_mem he
    exact (count_eq_zero_iff (typeTable_unbordered _ he).1).mp (hcounts k hk x hx)
  · intro u hu ty ho tail htail
    have hty : ty = .text ∨ ty = .jsonb := by
      have hin := hsupported u hu
      rw [ho] at hin
      exact of_decide_eq_true hin
    have hword : lit "T" <:+ wordAfter 4 u.1 ∧ lit "T" <:+ wordAfter 5 u.1 := by
      rw [ho]
      rcases hty with rfl | rfl
      · decide
      · decide
    rcases List.mem_cons.mp htail with rfl | htail
    · exact not_completion (by decide) (hafter 4 (by decide) (by decide)).1 hu hword.1 rfl (by decide)
    · obtain rfl := List.mem_singleton.mp htail
      exact not_completion (by decide) (hafter 5 (by decide) (by decide)).1 hu hword.2 rfl (by decide)

/-- A script is translated type by type, and nothing else in it is changed, exactly where it is plain. -/
theorem script_exact_iff (s : Script) : sqliteScript s.text = s.translation ↔ s.reading.Plain := by
  constructor
  · exact plain_of_exact s
  · intro hplain
    have hkeyword : ∀ x ∈ s.reading.others, containsIlike x = false := fun x hx => (hplain.others x hx).1
    rw [sqliteScript, s.text_eq, convertPgSyntax_spared s.seamed hkeyword, translated_plain s.seamed hplain,
      Script.translation]

end Exact

/-! ## A type within another -/

section Example
attribute [local instance] asciiTables

/-- `id BIGSERIAL`. -/
def bigserialColumn : Script where
  lexemes := [.word (lit "id"), .symbol (cp ' '), .word (lit "BIGSERIAL")]
  valid := by decide
  apart := by decide
  separated := by decide

theorem bigserial_half_replaced :
    sqliteScript bigserialColumn.text = lit "id BIGINTEGER" ∧ bigserialColumn.translation = lit "id INTEGER" ∧
      sqliteScript bigserialColumn.text ≠ bigserialColumn.translation := by
  have hcode : sqliteScript bigserialColumn.text = lit "id BIGINTEGER" := by decide
  have hmeant : bigserialColumn.translation = lit "id INTEGER" := by decide
  refine ⟨hcode, hmeant, ?_⟩
  rw [hcode, hmeant]
  decide

end Example

end IsaCloud.Database
