import IsaCloud.Database.SqlTranslation
import IsaCloud.Database.ScriptTypes

/-!
# The boundaries of types in a script

An occurrence of a type or of ILIKE stands among lexemes it does not merge with. So
the text before it ends with an ASCII character of no word, and so begins the text
after it, unless the dimensions of an array come between.
-/

namespace IsaCloud.Database

set_option autoImplicit false

open Support Support.Text Support.Python

/-! ## Lexemes side by side -/

/-- The text ends where a word may begin. -/
def Bounded (x : Str) : Prop := x = [] ∨ ∃ r c, x = r ++ [c] ∧ markChar c = true

theorem Bounded.append_left {y : Str} (x : Str) (hy : y ≠ []) (h : Bounded (x ++ y)) : Bounded y := by
  right
  obtain ⟨r, c, rfl⟩ := (List.eq_nil_or_concat y).resolve_left hy
  rw [List.concat_eq_append] at hy h ⊢
  rcases h with h | ⟨r', c', h, hc⟩
  · exact absurd (List.append_eq_nil_iff.mp h).2 hy
  · rw [← List.append_assoc] at h
    obtain ⟨-, hlast⟩ := List.append_inj' h rfl
    exact ⟨r, c, rfl, by rw [List.singleton_inj.mp hlast]; exact hc⟩

theorem bounded_append (x : Str) {y r : Str} {c : CodePoint} (hy : y = r ++ [c]) (hc : markChar c = true) :
    Bounded (x ++ y) := .inr ⟨x ++ r, c, by rw [hy, List.append_assoc], hc⟩

theorem closesComment_end {depth : Nat} {s : Str} (h : closesComment depth s = true) : ∃ r, s = r ++ [cp '/'] := by
  induction depth, s using closesComment.induct with
  | case1 => cases h
  | case2 => cases h
  | case3 c d s hclose =>
    unfold closesComment at h
    rw [if_pos hclose] at h
    obtain ⟨rfl, rfl⟩ := hclose
    obtain rfl := List.isEmpty_iff.mp h
    exact ⟨[cp '*'], rfl⟩
  | case4 c d s hclose depth ih =>
    unfold closesComment at h
    rw [if_pos hclose] at h
    obtain ⟨r, rfl⟩ := ih h
    exact ⟨c :: d :: r, rfl⟩
  | case5 depth c d s hclose hopen ih =>
    unfold closesComment at h
    rw [if_neg hclose, if_pos hopen] at h
    obtain ⟨r, rfl⟩ := ih h
    exact ⟨c :: d :: r, rfl⟩
  | case6 depth c d s hclose hopen ih =>
    unfold closesComment at h
    rw [if_neg hclose, if_neg hopen] at h
    obtain ⟨r, hr⟩ := ih h
    exact ⟨c :: r, by rw [hr, List.cons_append]⟩

namespace Lexeme

/-- What stands right before a word. -/
theorem ends_before_word {l : Lexeme} {w : Str} (hv : l.valid = true) (h : l.apart (word w) = true) :
    ∃ r c, l.text = r ++ [c] ∧ markChar c = true := by
  cases l with
  | token t =>
    cases t with
    | literal s =>
      obtain ⟨r, c, hr, hc, _⟩ := (literal_parts s).2
      exact ⟨r, c, hr, hc⟩
    | quoted s =>
      obtain ⟨r, c, hr, hc, _⟩ := (quoted_parts s).2
      exact ⟨r, c, hr, hc⟩
    | symbol c => exact ⟨[], c, rfl, (markChar_symbol hv).1⟩
    | placeholder _ | number _ | word _ => cases h
  | escapeLiteral e s => exact ⟨e :: apostrophe :: s, apostrophe, rfl, by decide⟩
  | dollarQuote tag s =>
    refine ⟨dollarSign :: tag ++ [dollarSign] ++ s ++ (dollarSign :: tag), dollarSign, ?_, by decide⟩
    rw [text, List.append_assoc (dollarSign :: tag ++ [dollarSign] ++ s)]
  | lineComment s => cases h
  | blockComment s =>
    obtain ⟨r, hr⟩ := closesComment_end hv
    refine ⟨lit "/*" ++ r, cp '/', ?_, by decide⟩
    rw [text, hr, List.append_assoc]

/-- What stands right after a word. -/
theorem opens_after_word {l : Lexeme} {w : Str} (hv : l.valid = true) (h : (word w).apart l = true) :
    Opens l.text ∧ ∀ w', l ≠ word w' := by
  cases l with
  | token t =>
    cases t with
    | literal s => exact ⟨(literal_parts s).1, nofun⟩
    | quoted s => exact ⟨(quoted_parts s).1, nofun⟩
    | symbol c => exact ⟨(symbol_parts hv).1, nofun⟩
    | placeholder _ | number _ | word _ => cases h
  | escapeLiteral e s => cases h
  | dollarQuote tag s => cases h
  | lineComment s => exact ⟨⟨cp '-', cp '-' :: s, rfl, by decide⟩, nofun⟩
  | blockComment s => exact ⟨⟨cp '/', cp '*' :: s, rfl, by decide⟩, nofun⟩

theorem text_ne_nil {l : Lexeme} (hv : l.valid = true) : l.text ≠ [] := by
  cases l with
  | token t =>
    cases t with
    | number s =>
      intro h
      obtain rfl : s = [] := h
      cases hv
    | word s =>
      intro h
      obtain rfl : s = [] := h
      cases hv
    | literal s | quoted s | placeholder s | symbol s => exact List.cons_ne_nil _ _
  | escapeLiteral _ _ | dollarQuote _ _ | lineComment _ | blockComment _ => exact List.cons_ne_nil _ _

/-- Only the symbol itself begins with a bracket. -/
theorem eq_symbol {l : Lexeme} {c : CodePoint} {r : Str} (hv : l.valid = true) (hc : c = cp '[' ∨ c = cp ']')
    (h : l.text = c :: r) : l = symbol c ∧ r = [] := by
  have hne : ∀ {d : CodePoint} {s : Str}, d ≠ cp '[' → d ≠ cp ']' → d :: s ≠ c :: r := by
    intro d s hopen hclose heq
    rcases hc with rfl | rfl
    · exact hopen (List.cons.inj heq).1
    · exact hclose (List.cons.inj heq).1
  cases l with
  | token t =>
    cases t with
    | literal s => exact absurd h (hne (by decide) (by decide))
    | quoted s => exact absurd h (hne (by decide) (by decide))
    | placeholder digits => exact absurd h (hne (by decide) (by decide))
    | number s =>
      have hs : s = c :: r := h
      have hdigit : (Token.number (c :: r)).valid = true := hs ▸ hv
      rcases hc with rfl | rfl
      · exact absurd hdigit (by simp [Token.valid, isDigit, cp])
      · exact absurd hdigit (by simp [Token.valid, isDigit, cp])
    | word s =>
      have hs : s = c :: r := h
      have hstart : (Token.word (c :: r)).valid = true := hs ▸ hv
      rw [Token.valid, Bool.and_eq_true] at hstart
      have hname : nameStart c = true := hstart.1
      rcases hc with rfl | rfl
      · exact absurd hname (by decide)
      · exact absurd hname (by decide)
    | symbol d =>
      obtain ⟨rfl, rfl⟩ := List.cons.inj h
      exact ⟨rfl, rfl⟩
  | escapeLiteral e s =>
    rw [valid, Bool.and_eq_true, decide_eq_true_eq] at hv
    rcases hv.1 with rfl | rfl
    · exact absurd h (hne (by decide) (by decide))
    · exact absurd h (hne (by decide) (by decide))
  | dollarQuote tag s => exact absurd h (hne (by decide) (by decide))
  | lineComment s => exact absurd h (hne (d := cp '-') (by decide) (by decide))
  | blockComment s => exact absurd h (hne (d := cp '/') (by decide) (by decide))

end Lexeme

/-! ## Reading an occurrence -/

namespace Occurrence

def dims : Occurrence → Nat
  | .type _ dims => dims
  | .ilike _ => 0

theorem lexemes_head (o : Occurrence) : ∃ w ls, o.lexemes = Lexeme.word w :: ls := by
  cases o with
  | ilike s => exact ⟨s, [], rfl⟩
  | type ty dims =>
    cases ty with
    | timestampWithTimeZone => exact ⟨lit "TIMESTAMP", _, rfl⟩
    | serial | bigserial | jsonb | text | timestamptz | uuid | boolean => exact ⟨_, _, rfl⟩

theorem brackets_last (n : Nat) : ∃ ls, brackets (n + 1) = ls ++ [Lexeme.symbol (cp ']')] := by
  induction n with
  | zero => exact ⟨[Lexeme.symbol (cp '[')], rfl⟩
  | succ n ih =>
    obtain ⟨ls, hls⟩ := ih
    refine ⟨Lexeme.symbol (cp '[') :: Lexeme.symbol (cp ']') :: ls, ?_⟩
    rw [brackets, hls, List.cons_append, List.cons_append]

/-- Without dimensions the last lexeme is a word, else it is a bracket. -/
theorem lexemes_last (o : Occurrence) : (o.dims = 0 ∧ ∃ ls w, o.lexemes = ls ++ [Lexeme.word w]) ∨
    (0 < o.dims ∧ ∃ ls, o.lexemes = ls ++ [Lexeme.symbol (cp ']')]) := by
  cases o with
  | ilike s => exact .inl ⟨rfl, [], s, rfl⟩
  | type ty dims =>
    cases dims with
    | zero =>
      left
      refine ⟨rfl, ?_⟩
      cases ty with
      | timestampWithTimeZone =>
        exact ⟨(([lit "TIMESTAMP", lit "WITH", lit "TIME"].map Lexeme.word).intersperse (Lexeme.symbol (cp ' '))) ++
          [Lexeme.symbol (cp ' ')], lit "ZONE", rfl⟩
      | serial | bigserial | jsonb | text | timestamptz | uuid | boolean => exact ⟨[], _, rfl⟩
    | succ n =>
      right
      obtain ⟨ls, hls⟩ := brackets_last n
      refine ⟨Nat.succ_pos n, ty.lexemes ++ ls, ?_⟩
      rw [lexemes, hls, List.append_assoc]

end Occurrence

theorem readBrackets_spec (ls : List Lexeme) :
    ∃ rest, ls = Occurrence.brackets (readBrackets ls) ++ rest ∧ readBrackets rest = 0 := by
  induction ls using readBrackets.induct with
  | case1 a b ls hab ih =>
    obtain ⟨rest, hls, hrest⟩ := ih
    obtain ⟨rfl, rfl⟩ := hab
    refine ⟨rest, ?_, hrest⟩
    rw [readBrackets, if_pos ⟨rfl, rfl⟩, Occurrence.brackets, List.cons_append, List.cons_append, ← hls]
    rfl
  | case2 a b ls hab =>
    have hzero : readBrackets (.token (.symbol a) :: .token (.symbol b) :: ls) = 0 := if_neg hab
    exact ⟨_, by rw [hzero]; rfl, hzero⟩
  | case3 ls hno =>
    have hzero : readBrackets ls = 0 := by
      unfold readBrackets
      split
      · exact absurd rfl (hno _ _ _)
      · rfl
    exact ⟨_, by rw [hzero]; rfl, hzero⟩

/-- What is read is there, with all dimensions of an array. -/
theorem readOccurrence_spec {ls : List Lexeme} {o : Occurrence} (h : readOccurrence ls = some o) :
    ∃ rest, ls = o.lexemes ++ rest ∧ (∀ ty n, o = .type ty n → readBrackets rest = 0) ∧
      ∀ s, o = .ilike s → isIlike s = true := by
  unfold readOccurrence at h
  cases hty : PgType.all.find? fun ty => decide (ty.lexemes <+: ls) with
  | some ty =>
    rw [hty] at h
    have hfound := List.find?_some hty
    obtain ⟨tail, rfl⟩ : ty.lexemes <+: ls := of_decide_eq_true hfound
    obtain ⟨rest, htail, hrest⟩ := readBrackets_spec tail
    simp only [List.drop_left] at h
    split_ifs at h
    cases h
    refine ⟨rest, ?_, fun _ _ _ => hrest, nofun⟩
    rw [Occurrence.lexemes, List.append_assoc, ← htail]
  | none =>
    rw [hty] at h
    simp only at h
    split at h
    · rename_i s tail
      split_ifs at h with hs
      cases h
      exact ⟨tail, rfl, nofun, fun s' hs' => Occurrence.ilike.inj hs' ▸ hs⟩
    · cases h

theorem readFrom_skip (k : Nat) (ls : List Lexeme) : readFrom k ls = readFrom 0 (ls.drop k) := by
  induction ls generalizing k with
  | nil => rw [List.drop_nil, readFrom, readFrom]
  | cons l ls ih =>
    cases k with
    | zero => rfl
    | succ k =>
      rw [readFrom, if_pos (Nat.zero_lt_succ k), List.drop_succ_cons]
      exact ih k

/-- The reading of a script: no occurrence begins it, or it begins with one. -/
theorem readFrom_cases (l : Lexeme) (ls : List Lexeme) :
    (readFrom 0 (l :: ls) = ⟨l.text ++ (readFrom 0 ls).lead, (readFrom 0 ls).units⟩) ∨
      ∃ o rest, l :: ls = o.lexemes ++ rest ∧ (∀ ty n, o = .type ty n → readBrackets rest = 0) ∧
        (∀ s, o = .ilike s → isIlike s = true) ∧
        readFrom 0 (l :: ls) = ⟨[], (o, (readFrom 0 rest).lead) :: (readFrom 0 rest).units⟩ := by
  rw [readFrom, if_neg (Nat.lt_irrefl 0)]
  cases ho : readOccurrence (l :: ls) with
  | none => exact .inl rfl
  | some o =>
    right
    obtain ⟨rest, hls, hdims, hilike⟩ := readOccurrence_spec ho
    have hrest : ls.drop (o.lexemes.length - 1) = rest := by
      obtain ⟨w, tail, hw⟩ := o.lexemes_head
      rw [hw, List.cons_append] at hls
      rw [hw, (List.cons.inj hls).2, List.length_cons, Nat.add_sub_cancel, List.drop_left]
    refine ⟨o, rest, hls, hdims, hilike, ?_⟩
    simp only [readFrom_skip (o.lexemes.length - 1), hrest]

/-- The rest of a script, where the occurrence at its beginning is read. -/
theorem reading_induction {motive : List Lexeme → Reading → Prop} (nil : motive [] ⟨[], []⟩)
    (other : ∀ l ls, readFrom 0 (l :: ls) = ⟨l.text ++ (readFrom 0 ls).lead, (readFrom 0 ls).units⟩ →
      motive ls (readFrom 0 ls) → motive (l :: ls) ⟨l.text ++ (readFrom 0 ls).lead, (readFrom 0 ls).units⟩)
    (occurrence : ∀ o rest, (∀ ty n, o = .type ty n → readBrackets rest = 0) → (∀ s, o = .ilike s → isIlike s = true) →
      motive rest (readFrom 0 rest) →
        motive (o.lexemes ++ rest) ⟨[], (o, (readFrom 0 rest).lead) :: (readFrom 0 rest).units⟩)
    (ls : List Lexeme) : motive ls (readFrom 0 ls) := by
  induction hn : ls.length using Nat.strong_induction_on generalizing ls with
  | _ n ih =>
    cases ls with
    | nil => exact nil
    | cons l ls =>
      rcases readFrom_cases l ls with hr | ⟨o, rest, hls, hdims, hilike, hr⟩
      · rw [hr]
        exact other l ls hr (ih ls.length (by rw [← hn, List.length_cons]; omega) ls rfl)
      · rw [hr, hls]
        apply occurrence o rest hdims hilike
        apply ih rest.length _ rest rfl
        obtain ⟨w, tail, hw⟩ := o.lexemes_head
        have hlen := congrArg List.length hls
        rw [hw, List.length_append, List.length_cons, List.length_cons] at hlen
        rw [← hn, List.length_cons]
        omega

theorem lexemesText_append (ls ls' : List Lexeme) : lexemesText (ls ++ ls') = lexemesText ls ++ lexemesText ls' :=
  List.flatMap_append

/-- Reading loses nothing. -/
theorem render_text (ls : List Lexeme) : (readFrom 0 ls).render Occurrence.text = lexemesText ls := by
  refine reading_induction (motive := fun ls r => r.render Occurrence.text = lexemesText ls) rfl ?_ ?_ ls
  · intro l ls _ ih
    rw [Reading.render, List.append_assoc]
    exact congrArg (l.text ++ ·) ih
  · intro o rest _ _ ih
    rw [lexemesText_append, ← ih, Reading.render, Reading.render, List.flatMap_cons, List.nil_append, List.append_assoc]
    rfl

/-! ## Around an occurrence -/

/-- What follows an occurrence among `us`: without dimensions a character of no word, and never further dimensions. -/
structure Stops (o : Occurrence) (rest : Str) (us : List (Occurrence × Str)) : Prop where
  opens : o.dims = 0 → (rest = [] ∧ us = []) ∨ Opens rest
  dims : ∀ ty n, o = .type ty n → ¬ lit "[]" <+: rest
  keyword : ∀ s, o = .ilike s → isIlike s = true

/-- Before each occurrence a word may begin, and each occurrence stops. -/
def Seamed : Str → List (Occurrence × Str) → Prop
  | _, [] => True
  | left, (o, rest) :: us => Bounded left ∧ Stops o rest us ∧ Seamed (o.text ++ rest) us

/-- What stands between two occurrences ends where a word may begin. -/
theorem Seamed.bounded {o : Occurrence} {rest : Str} {us : List (Occurrence × Str)} (h : Seamed (o.text ++ rest) us)
    (hus : us ≠ []) : Bounded rest := by
  by_cases hnil : rest = []
  · exact .inl hnil
  · cases us with
    | nil => exact absurd rfl hus
    | cons u us => exact h.1.append_left o.text hnil

/-- A bracket at the beginning of the text is a lexeme of its own. -/
theorem lead_bracket {ls : List Lexeme} {c : CodePoint} {r : Str} (hv : ∀ l ∈ ls, l.valid = true)
    (hc : c = cp '[' ∨ c = cp ']') (h : (readFrom 0 ls).lead = c :: r) :
    ∃ ls', ls = Lexeme.symbol c :: ls' ∧ (readFrom 0 ls').lead = r := by
  cases ls with
  | nil => cases h
  | cons l ls =>
    rcases readFrom_cases l ls with hr | ⟨o, rest, _, _, _, hr⟩
    · rw [hr] at h
      have hvl := hv l List.mem_cons_self
      obtain ⟨d, s, hls⟩ := List.exists_cons_of_ne_nil (Lexeme.text_ne_nil hvl)
      simp only [hls, List.cons_append, List.cons.injEq] at h
      obtain ⟨rfl, hr'⟩ := h
      obtain ⟨rfl, rfl⟩ := Lexeme.eq_symbol hvl hc hls
      exact ⟨ls, rfl, hr'⟩
    · rw [hr] at h
      cases h

theorem lead_dims {ls : List Lexeme} (hv : ∀ l ∈ ls, l.valid = true) (h : readBrackets ls = 0) :
    ¬ lit "[]" <+: (readFrom 0 ls).lead := by
  rintro ⟨r, hr⟩
  obtain ⟨ls', rfl, hlead⟩ := lead_bracket hv (.inl rfl) hr.symm
  obtain ⟨ls'', rfl, _⟩ := lead_bracket (fun l hl => hv l (List.mem_cons_of_mem _ hl)) (.inr rfl) hlead
  rw [Lexeme.symbol, Lexeme.symbol, readBrackets, if_pos ⟨rfl, rfl⟩] at h
  cases h

theorem stops_reading {o : Occurrence} {rest : List Lexeme} (hv : ∀ l ∈ rest, l.valid = true)
    (hchain : (o.lexemes ++ rest).IsChain fun l l' => l.apart l' = true)
    (hdims : ∀ ty n, o = .type ty n → readBrackets rest = 0) (hilike : ∀ s, o = .ilike s → isIlike s = true) :
    Stops o (readFrom 0 rest).lead (readFrom 0 rest).units where
  dims ty n ho := lead_dims hv (hdims ty n ho)
  keyword := hilike
  opens := by
    intro hzero
    rcases o.lexemes_last with ⟨_, ls, w, hlast⟩ | ⟨hpos, _⟩
    · cases rest with
      | nil => exact .inl ⟨rfl, rfl⟩
      | cons l rest =>
        have hapart : (Lexeme.word w).apart l = true := by
          rw [List.isChain_append] at hchain
          apply hchain.2.2
          · rw [hlast, List.getLast?_append]
            rfl
          · rfl
        obtain ⟨hopens, hne⟩ := Lexeme.opens_after_word (hv l List.mem_cons_self) hapart
        rcases readFrom_cases l rest with hr | ⟨o', rest', hls, _⟩
        · rw [hr]
          exact .inr (hopens.append _)
        · obtain ⟨w', tail, hw'⟩ := o'.lexemes_head
          rw [hw'] at hls
          exact absurd (List.cons.inj hls).1 (hne w')
    · omega

/-- The boundaries in a reading; `x` is what stands before. -/
theorem seamed_readFrom (ls : List Lexeme) : (∀ l ∈ ls, l.valid = true) → (ls.IsChain fun l l' => l.apart l' = true) →
    ∀ x, (∀ w, ls.head? = some (Lexeme.word w) → Bounded x) →
      Seamed (x ++ (readFrom 0 ls).lead) (readFrom 0 ls).units := by
  refine reading_induction (motive := fun ls r => (∀ l ∈ ls, l.valid = true) →
    (ls.IsChain fun l l' => l.apart l' = true) → ∀ x, (∀ w, ls.head? = some (Lexeme.word w) → Bounded x) →
      Seamed (x ++ r.lead) r.units) (fun _ _ _ _ => trivial) ?_ ?_ ls
  · intro l ls _ ih hv hchain x _
    rw [List.isChain_cons] at hchain
    rw [← List.append_assoc]
    apply ih (fun l' hl' => hv l' (List.mem_cons_of_mem l hl')) hchain.2
    intro w hw
    obtain ⟨r, c, hr, hc⟩ := Lexeme.ends_before_word (hv l List.mem_cons_self) (hchain.1 _ hw)
    exact bounded_append x hr hc
  · intro o rest hdims hilike ih hv hchain x hx
    have hvrest : ∀ l ∈ rest, l.valid = true := fun l hl => hv l (List.mem_append_right _ hl)
    refine ⟨?_, stops_reading hvrest hchain hdims hilike, ?_⟩
    · rw [List.append_nil]
      obtain ⟨w, tail, hw⟩ := o.lexemes_head
      apply hx w
      rw [hw]
      rfl
    · have hparts := List.isChain_append.mp hchain
      apply ih hvrest hparts.2.1
      intro w hw
      rcases o.lexemes_last with ⟨_, tail, w', hlast⟩ | ⟨_, tail, hlast⟩
      · have hapart : (Lexeme.word w').apart (Lexeme.word w) = true := by
          apply hparts.2.2 _ _ _ hw
          rw [hlast, List.getLast?_append]
          rfl
        cases hapart
      · have htext : o.text = lexemesText tail ++ [cp ']'] := by
          rw [Occurrence.text, hlast, lexemesText_append]
          rfl
        exact .inr ⟨_, _, htext, by decide⟩

theorem Script.seamed (s : Script) : Seamed s.reading.lead s.reading.units :=
  seamed_readFrom s.lexemes (List.all_eq_true.mp s.valid) s.apart [] fun _ _ => .inl rfl

end IsaCloud.Database
