import IsaCloud.Database.SqlTokens
import IsaCloud.Support.ListParts

/-!
# Which statements survive the translation

The placeholder and ILIKE rewritings look at one token at a time, since tokens
that could merge do not stand side by side. They only ever shorten a text, so the
translation has the length it should only if they spare every other token. The
schema's qualifier is then replaced as plain text, from left to right.
-/

namespace IsaCloud.Database

set_option autoImplicit false

open Support Support.Text Support.Python Support.TextPieces

/-! ## Boundaries -/

/-- An ASCII character of no word. -/
def markChar (c : CodePoint) : Bool := decide (c.val < 0x80) && !asciiWord c

def Opens (s : Str) : Prop := ∃ c r, s = c :: r ∧ markChar c = true

def Closes (s : Str) : Prop := ∃ r c, s = r ++ [c] ∧ markChar c = true ∧ c ≠ dollarSign

/-- No rewriting looks across from `x` to `y`. -/
def Parted (x y : Str) : Prop := Closes x ∨ Opens y

theorem Opens.append {x : Str} (h : Opens x) (y : Str) : Opens (x ++ y) := by
  obtain ⟨c, r, rfl, hc⟩ := h
  exact ⟨c, r ++ y, rfl, hc⟩

theorem Parted.append {x y : Str} (h : Parted x y) (z : Str) : Parted x (y ++ z) := h.imp id fun hy => hy.append z

theorem markChar_not_digit {c : CodePoint} (h : markChar c = true) : isDigit c = false := by
  rw [markChar, Bool.and_eq_true] at h
  cases hd : isDigit c with
  | false => rfl
  | true =>
    rw [asciiWord, hd] at h
    exact nomatch h.2

section Rewriting
variable [RegexTables]

theorem markChar_classes {c : CodePoint} (h : markChar c = true) :
    RegexTables.isDecimal c = false ∧ RegexTables.isWord c = false := by
  have hdigit := markChar_not_digit h
  rw [markChar, Bool.and_eq_true, Bool.not_eq_true'] at h
  have hascii : c.val < 0x80 := of_decide_eq_true h.1
  rw [RegexTables.isDecimal_ascii c hascii, RegexTables.isWord_ascii c hascii]
  exact ⟨hdigit, h.2⟩

/-! ## Placeholders -/

theorem placeholdersFrom_cons (b : Bool) (c : CodePoint) (s : Str) :
    placeholdersFrom b (c :: s) =
      if (b && RegexTables.isDecimal c) = true then placeholdersFrom true s
      else if (decide (c = dollarSign) && s.head?.any RegexTables.isDecimal) = true then cp '?' :: placeholdersFrom true s
      else c :: placeholdersFrom false s := rfl

theorem placeholdersFrom_mark {b : Bool} {c : CodePoint} (h : markChar c = true) (s : Str) :
    placeholdersFrom b (c :: s) = placeholdersFrom false (c :: s) := by
  rw [placeholdersFrom_cons, placeholdersFrom_cons, (markChar_classes h).1, Bool.and_false, Bool.and_false]

/-- One character more before a boundary that the rest respects. -/
theorem placeholdersFrom_step {b : Bool} {d : CodePoint} {x y : Str}
    (hhead : (x ++ y).head?.any RegexTables.isDecimal = x.head?.any RegexTables.isDecimal)
    (ih : ∀ b, placeholdersFrom b (x ++ y) = placeholdersFrom b x ++ placeholdersFrom false y) :
    placeholdersFrom b (d :: x ++ y) = placeholdersFrom b (d :: x) ++ placeholdersFrom false y := by
  rw [List.cons_append, placeholdersFrom_cons, placeholdersFrom_cons, hhead]
  split
  · exact ih true
  · split
    · rw [ih true, List.cons_append]
    · rw [ih false, List.cons_append]

theorem placeholdersFrom_opens {y : Str} (h : Opens y) (b : Bool) (x : Str) :
    placeholdersFrom b (x ++ y) = placeholdersFrom b x ++ placeholdersFrom false y := by
  obtain ⟨c, r, rfl, hc⟩ := h
  induction x generalizing b with
  | nil => exact placeholdersFrom_mark hc r
  | cons d x ih =>
    apply placeholdersFrom_step _ ih
    cases x with
    | nil => exact (markChar_classes hc).1
    | cons e x => rfl

theorem placeholdersFrom_closes {x : Str} (h : Closes x) (b : Bool) (y : Str) :
    placeholdersFrom b (x ++ y) = placeholdersFrom b x ++ placeholdersFrom false y := by
  obtain ⟨r, c, rfl, hc, hne⟩ := h
  induction r generalizing b with
  | nil =>
    have hlast : ∀ s, placeholdersFrom b (c :: s) = c :: placeholdersFrom false s := by
      intro s
      rw [placeholdersFrom_cons, (markChar_classes hc).1, Bool.and_false, if_neg Bool.false_ne_true,
        decide_eq_false hne, Bool.false_and, if_neg Bool.false_ne_true]
    rw [List.nil_append, List.singleton_append, hlast, hlast]
    rfl
  | cons d r ih =>
    apply placeholdersFrom_step _ ih
    cases r with
    | nil => rfl
    | cons e r => rfl

theorem convertPgPlaceholders_append {x y : Str} (h : Parted x y) :
    convertPgPlaceholders (x ++ y) = convertPgPlaceholders x ++ convertPgPlaceholders y := by
  rcases h with hx | hy
  · exact placeholdersFrom_closes hx false y
  · exact placeholdersFrom_opens hy false x

theorem placeholdersFrom_of_none {s : Str} (h : containsPlaceholder s = false) : placeholdersFrom false s = s := by
  induction s with
  | nil => rfl
  | cons c s ih =>
    rw [containsPlaceholder, Bool.or_eq_false_iff] at h
    rw [placeholdersFrom_cons, h.1, Bool.false_and, if_neg Bool.false_ne_true, if_neg Bool.false_ne_true, ih h.2]

theorem length_placeholdersFrom_le (b : Bool) (s : Str) : (placeholdersFrom b s).length ≤ s.length := by
  induction s generalizing b with
  | nil => exact Nat.le_refl 0
  | cons c s ih =>
    have htrue := ih true
    have hfalse := ih false
    rw [placeholdersFrom_cons]
    split
    · rw [List.length_cons]
      omega
    · split
      · rw [List.length_cons, List.length_cons]
        omega
      · rw [List.length_cons, List.length_cons]
        omega

/-- A placeholder that is found makes the text shorter. -/
theorem length_placeholdersFrom_lt {s : Str} (h : containsPlaceholder s = true) :
    (placeholdersFrom false s).length < s.length := by
  induction s with
  | nil => cases h
  | cons c s ih =>
    rw [containsPlaceholder, Bool.or_eq_true] at h
    rw [placeholdersFrom_cons, Bool.false_and, if_neg Bool.false_ne_true]
    split
    · rename_i hfound
      cases s with
      | nil => simp only [List.head?_nil, Option.any_none, Bool.and_false, Bool.false_eq_true] at hfound
      | cons d s =>
        rw [Bool.and_eq_true] at hfound
        have hd : RegexTables.isDecimal d = true := hfound.2
        have hrest := length_placeholdersFrom_le true s
        rw [placeholdersFrom_cons, hd, Bool.true_and, if_pos rfl, List.length_cons, List.length_cons, List.length_cons]
        omega
    · rename_i hnot
      have hlt := ih (h.resolve_left hnot)
      rw [List.length_cons, List.length_cons]
      omega

/-! ## The keyword ILIKE -/

theorem ilikeFrom_cons (k : Nat) (a : Bool) (c : CodePoint) (s : Str) :
    ilikeFrom k a (c :: s) =
      if 0 < k then ilikeFrom (k - 1) (RegexTables.isWord c) s
      else if (!a && matchesLetters ilikeLetters (c :: s)) = true then lit "LIKE" ++ ilikeFrom 4 true s
      else c :: ilikeFrom 0 (RegexTables.isWord c) s := rfl

theorem matchesLetters_cons (letters : List CodePoint) (rest : List (List CodePoint)) (c : CodePoint) (s : Str) :
    matchesLetters (letters :: rest) (c :: s) = (decide (c ∈ letters) && matchesLetters rest s) := rfl

theorem length_le_of_matches {ls : List (List CodePoint)} {s : Str} (h : matchesLetters ls s = true) :
    ls.length ≤ s.length := by
  induction ls generalizing s with
  | nil => exact Nat.zero_le _
  | cons l ls ih =>
    cases s with
    | nil => cases h
    | cons c s =>
      rw [matchesLetters_cons, Bool.and_eq_true] at h
      exact Nat.succ_le_succ (ih h.2)

def NoMarks (ls : List (List CodePoint)) : Prop := ∀ l ∈ ls, ∀ c ∈ l, markChar c = false

omit [RegexTables] in
theorem ilikeLetters_noMarks : NoMarks ilikeLetters := by
  have hall : ilikeLetters.all (fun l => l.all fun c => !markChar c) = true := by decide
  intro l hl c hc
  have hmark := List.all_eq_true.mp (List.all_eq_true.mp hall l hl) c hc
  rwa [Bool.not_eq_true'] at hmark

theorem matches_mark {l : List CodePoint} {ls : List (List CodePoint)} (h : NoMarks (l :: ls)) {c : CodePoint}
    (hc : markChar c = true) (s : Str) : matchesLetters (l :: ls) (c :: s) = false := by
  have hnot : c ∉ l := by
    intro hmem
    rw [h l List.mem_cons_self c hmem] at hc
    cases hc
  rw [matchesLetters_cons, decide_eq_false hnot, Bool.false_and]

theorem matches_opens {ls : List (List CodePoint)} (hls : NoMarks ls) {y : Str} (h : Opens y) (x : Str) :
    matchesLetters ls (x ++ y) = matchesLetters ls x := by
  obtain ⟨c, r, rfl, hc⟩ := h
  induction ls generalizing x with
  | nil =>
    cases x with
    | nil =>
      show (!RegexTables.isWord c) = true
      rw [(markChar_classes hc).2]
      rfl
    | cons d x => rfl
  | cons l ls ih =>
    cases x with
    | nil => exact matches_mark hls hc r
    | cons d x =>
      rw [List.cons_append, matchesLetters_cons, matchesLetters_cons, ih fun l hl => hls l (List.mem_cons_of_mem _ hl)]

theorem matches_closes {ls : List (List CodePoint)} (hls : NoMarks ls) {c : CodePoint} (hc : markChar c = true)
    (r y : Str) : matchesLetters ls (r ++ [c] ++ y) = matchesLetters ls (r ++ [c]) := by
  induction r generalizing ls with
  | nil =>
    cases ls with
    | nil => rfl
    | cons l ls =>
      rw [List.nil_append, List.singleton_append, matches_mark hls hc, matches_mark hls hc]
  | cons d r ih =>
    cases ls with
    | nil => rfl
    | cons l ls =>
      rw [List.cons_append, List.cons_append, matchesLetters_cons, matchesLetters_cons,
        ih fun l hl => hls l (List.mem_cons_of_mem _ hl)]

theorem ilikeFrom_mark {c : CodePoint} (h : markChar c = true) (a : Bool) (s : Str) :
    ilikeFrom 0 a (c :: s) = c :: ilikeFrom 0 false s := by
  rw [ilikeFrom_cons, if_neg (Nat.lt_irrefl 0), ilikeLetters, matches_mark ilikeLetters_noMarks h, Bool.and_false,
    if_neg Bool.false_ne_true, (markChar_classes h).2]

/-- One character more before a boundary that the rest respects. -/
theorem ilikeFrom_step {k : Nat} {a : Bool} {d : CodePoint} {x y : Str} (hk : k ≤ (d :: x).length)
    (hm : matchesLetters ilikeLetters (d :: (x ++ y)) = matchesLetters ilikeLetters (d :: x))
    (ih : ∀ k a, k ≤ x.length → ilikeFrom k a (x ++ y) = ilikeFrom k a x ++ ilikeFrom 0 false y) :
    ilikeFrom k a (d :: x ++ y) = ilikeFrom k a (d :: x) ++ ilikeFrom 0 false y := by
  rw [List.length_cons] at hk
  rw [List.cons_append, ilikeFrom_cons, ilikeFrom_cons, hm]
  split
  · exact ih (k - 1) _ (by omega)
  · split
    · rename_i hmatch
      rw [Bool.and_eq_true] at hmatch
      have hlen : ilikeLetters.length ≤ (d :: x).length := length_le_of_matches hmatch.2
      have hfive : ilikeLetters.length = 5 := rfl
      rw [List.length_cons] at hlen
      rw [ih 4 true (by omega), List.append_assoc]
    · rw [ih 0 _ (Nat.zero_le _), List.cons_append]

theorem ilikeFrom_opens {y : Str} (h : Opens y) (x : Str) {k : Nat} (a : Bool) (hk : k ≤ x.length) :
    ilikeFrom k a (x ++ y) = ilikeFrom k a x ++ ilikeFrom 0 false y := by
  induction x generalizing k a with
  | nil =>
    obtain rfl := Nat.le_zero.mp hk
    obtain ⟨c, r, rfl, hc⟩ := h
    rw [List.nil_append, ilikeFrom_mark hc, ilikeFrom_mark hc]
    rfl
  | cons d x ih => exact ilikeFrom_step hk (matches_opens ilikeLetters_noMarks h (d :: x)) fun k a hk => ih a hk

theorem ilikeFrom_closes {c : CodePoint} (hc : markChar c = true) (r y : Str) {k : Nat} (a : Bool)
    (hk : k ≤ (r ++ [c]).length) : ilikeFrom k a (r ++ [c] ++ y) = ilikeFrom k a (r ++ [c]) ++ ilikeFrom 0 false y := by
  induction r generalizing k a with
  | nil =>
    rw [List.nil_append, List.singleton_append]
    rcases Nat.eq_zero_or_pos k with rfl | hpos
    · rw [ilikeFrom_mark hc, ilikeFrom_mark hc]
      rfl
    · obtain rfl : k = 1 := Nat.le_antisymm hk hpos
      rw [ilikeFrom_cons, ilikeFrom_cons, if_pos Nat.zero_lt_one, if_pos Nat.zero_lt_one, (markChar_classes hc).2]
      rfl
  | cons d r ih =>
    exact ilikeFrom_step hk (matches_closes ilikeLetters_noMarks hc (d :: r) y) fun k a hk => ih a hk

theorem convertPgSyntax_append {x y : Str} (h : Parted x y) :
    convertPgSyntax (x ++ y) = convertPgSyntax x ++ convertPgSyntax y := by
  rcases h with ⟨r, c, rfl, hc, -⟩ | hy
  · exact ilikeFrom_closes hc r y false (Nat.zero_le _)
  · exact ilikeFrom_opens hy x false (Nat.zero_le _)

theorem ilikeFrom_of_none {a : Bool} {s : Str} (h : containsIlikeFrom a s = false) : ilikeFrom 0 a s = s := by
  induction s generalizing a with
  | nil => rfl
  | cons c s ih =>
    rw [containsIlikeFrom, Bool.or_eq_false_iff] at h
    rw [ilikeFrom_cons, if_neg (Nat.lt_irrefl 0), h.1, if_neg Bool.false_ne_true, ih h.2]

theorem length_ilikeFrom_le {k : Nat} (a : Bool) {s : Str} (hk : k ≤ s.length) :
    (ilikeFrom k a s).length + k ≤ s.length := by
  induction s generalizing k a with
  | nil =>
    have hnone : ilikeFrom k a [] = [] := rfl
    rw [hnone, List.length_nil, Nat.zero_add]
    exact hk
  | cons c s ih =>
    rw [List.length_cons] at hk
    rw [ilikeFrom_cons]
    split
    · have hrest := ih (RegexTables.isWord c) (k := k - 1) (by omega)
      rw [List.length_cons]
      omega
    · split
      · rename_i hmatch
        rw [Bool.and_eq_true] at hmatch
        have hlen : ilikeLetters.length ≤ (c :: s).length := length_le_of_matches hmatch.2
        have hfive : ilikeLetters.length = 5 := rfl
        rw [List.length_cons] at hlen
        have hrest := ih true (k := 4) (by omega)
        have hfour : (lit "LIKE").length = 4 := rfl
        rw [List.length_append, List.length_cons]
        omega
      · have hrest := ih (RegexTables.isWord c) (Nat.zero_le _)
        rw [List.length_cons, List.length_cons]
        omega

/-- An ILIKE that is found makes the text shorter. -/
theorem length_ilikeFrom_lt {a : Bool} {s : Str} (h : containsIlikeFrom a s = true) :
    (ilikeFrom 0 a s).length < s.length := by
  induction s generalizing a with
  | nil => cases h
  | cons c s ih =>
    rw [containsIlikeFrom, Bool.or_eq_true] at h
    rw [ilikeFrom_cons, if_neg (Nat.lt_irrefl 0)]
    split
    · rename_i hmatch
      rw [Bool.and_eq_true] at hmatch
      have hlen : ilikeLetters.length ≤ (c :: s).length := length_le_of_matches hmatch.2
      have hfive : ilikeLetters.length = 5 := rfl
      rw [List.length_cons] at hlen
      have hrest := length_ilikeFrom_le true (k := 4) (s := s) (by omega)
      have hfour : (lit "LIKE").length = 4 := rfl
      rw [List.length_append, List.length_cons]
      omega
    · rename_i hnot
      have hlt := ih (h.resolve_left hnot)
      rw [List.length_cons, List.length_cons]
      omega

/-! ## Tokens side by side -/

omit [RegexTables] in
theorem markChar_symbol {c : CodePoint} (h : (Token.symbol c).valid = true) : markChar c = true ∧ c ≠ dollarSign := by
  simp only [Token.valid, Bool.and_eq_true, decide_eq_true_eq, List.mem_cons, not_or] at h
  obtain ⟨⟨hascii, hword⟩, -, -, hdollar, -⟩ := h
  exact ⟨by rw [markChar, decide_eq_true hascii, Bool.true_and, hword], hdollar⟩

omit [RegexTables] in
theorem enclosed_parts {q : CodePoint} (hq : markChar q = true) (hne : q ≠ dollarSign) (s : Str) :
    Opens (enclosed q s) ∧ Closes (enclosed q s) :=
  ⟨⟨q, _, rfl, hq⟩, ⟨_, q, rfl, hq, hne⟩⟩

omit [RegexTables] in
theorem literal_parts (s : Str) : Opens (Token.literal s).text ∧ Closes (Token.literal s).text :=
  enclosed_parts (by decide) (by decide) s

omit [RegexTables] in
theorem quoted_parts (s : Str) : Opens (Token.quoted s).text ∧ Closes (Token.quoted s).text :=
  enclosed_parts (by decide) (by decide) s

omit [RegexTables] in
theorem opens_placeholder (digits : Str) : Opens (Token.placeholder digits).text :=
  ⟨dollarSign, digits, rfl, by decide⟩

omit [RegexTables] in
theorem symbol_parts {c : CodePoint} (h : (Token.symbol c).valid = true) :
    Opens (Token.symbol c).text ∧ Closes (Token.symbol c).text := by
  obtain ⟨hmark, hne⟩ := markChar_symbol h
  exact ⟨⟨c, [], rfl, hmark⟩, ⟨[], c, rfl, hmark, hne⟩⟩

omit [RegexTables] in
/-- Tokens that may stand side by side are parted. -/
theorem parted_of_apart {t t' : Token} (hv : t.valid = true) (hv' : t'.valid = true) (h : t.apart t' = true) :
    Parted t.text t'.text := by
  cases t with
  | literal s => exact Or.inl (literal_parts s).2
  | quoted s => exact Or.inl (quoted_parts s).2
  | symbol c => exact Or.inl (symbol_parts hv).2
  | placeholder _ | number _ | word _ =>
    cases t' with
    | literal s => exact Or.inr (literal_parts s).1
    | quoted s => exact Or.inr (quoted_parts s).1
    | symbol c => exact Or.inr (symbol_parts hv').1
    | placeholder ds => exact Or.inr (opens_placeholder ds)
    | number _ | word _ => cases h

omit [RegexTables] in
theorem parted_texts {ts : List Token} (hv : ts.all Token.valid = true)
    (h : ts.IsChain fun t t' => t.apart t' = true) : (ts.map Token.text).IsChain Parted := by
  have hall := List.all_eq_true.mp hv
  refine (List.isChain_map _).mpr (h.imp_of_mem_imp ?_)
  intro t t' ht ht' hapart
  exact parted_of_apart (hall t ht) (hall t' ht') hapart

theorem Opens.convertPgSyntax {x : Str} (h : Opens x) : Opens (Database.convertPgSyntax x) := by
  obtain ⟨c, r, rfl, hc⟩ := h
  exact ⟨c, _, ilikeFrom_mark hc false r, hc⟩

theorem Closes.convertPgSyntax {x : Str} (h : Closes x) : Closes (Database.convertPgSyntax x) := by
  obtain ⟨r, c, rfl, hc, hne⟩ := h
  refine ⟨Database.convertPgSyntax r, c, ?_, hc, hne⟩
  rw [convertPgSyntax_append (Or.inr ⟨c, [], rfl, hc⟩)]
  exact congrArg _ (ilikeFrom_mark hc false [])

def Token.rewritten (t : Token) : Str := convertPgPlaceholders (convertPgSyntax t.text)

/-- Every token is rewritten alone. -/
theorem rewritten_tokens (s : PgStatement) :
    convertPgPlaceholders (convertPgSyntax (textOf s.tokens)) = s.tokens.flatMap Token.rewritten := by
  have hparted : (s.tokens.map Token.text).IsChain Parted := parted_texts s.valid s.apart
  have hlike : convertPgSyntax (textOf s.tokens) = ((s.tokens.map Token.text).map convertPgSyntax).flatten := by
    rw [textOf, List.flatMap_def]
    exact rewrite_flatten rfl (fun x y z h => h.append z) (fun x y h => convertPgSyntax_append h) hparted
  have hparted' : ((s.tokens.map Token.text).map convertPgSyntax).IsChain Parted :=
    List.isChain_map_of_isChain _ (fun x y h => h.imp Closes.convertPgSyntax Opens.convertPgSyntax) hparted
  rw [hlike, rewrite_flatten rfl (fun x y z h => h.append z) (fun x y h => convertPgPlaceholders_append h) hparted',
    List.flatMap_def, List.map_map, List.map_map]
  rfl

/-! ## One token -/

theorem containsIlike_of_letters {x : Str} (h : ∀ c ∈ x, c ∉ ([cp 'I', cp 'i', 0x130, 0x131] : List CodePoint)) (a : Bool) :
    containsIlikeFrom a x = false := by
  induction x generalizing a with
  | nil => rfl
  | cons c x ih =>
    have hfirst : matchesLetters ilikeLetters (c :: x) = false := by
      rw [ilikeLetters, matchesLetters_cons, decide_eq_false (h c List.mem_cons_self), Bool.false_and]
    rw [containsIlikeFrom, hfirst, Bool.and_false, Bool.false_or]
    exact ih (fun d hd => h d (List.mem_cons_of_mem c hd)) _

theorem isDecimal_of_digit {c : CodePoint} (h : isDigit c = true) : RegexTables.isDecimal c = true := by
  have hrange := of_decide_eq_true h
  rw [RegexTables.isDecimal_ascii c (by omega), h]

theorem placeholdersFrom_digits {digits : Str} (h : ∀ c ∈ digits, isDigit c = true) :
    placeholdersFrom true digits = [] := by
  induction digits with
  | nil => rfl
  | cons c digits ih =>
    rw [placeholdersFrom_cons, isDecimal_of_digit (h c List.mem_cons_self), Bool.true_and, if_pos rfl]
    exact ih fun d hd => h d (List.mem_cons_of_mem c hd)

theorem rewritten_placeholder {digits : Str} (h : (Token.placeholder digits).valid = true) :
    (Token.placeholder digits).rewritten = [cp '?'] := by
  simp only [Token.valid, Bool.and_eq_true] at h
  obtain ⟨⟨hne, hall⟩, -⟩ := h
  have hdigits := List.all_eq_true.mp hall
  have hnone : containsIlikeFrom false (Token.placeholder digits).text = false := by
    apply containsIlike_of_letters
    intro c hc hmem
    have hletters : ([cp 'I', cp 'i', 0x130, 0x131] : List CodePoint).all (fun c => !isDigit c && decide (c ≠ dollarSign)) =
        true := by decide
    have hletter := List.all_eq_true.mp hletters c hmem
    rw [Bool.and_eq_true, Bool.not_eq_true', decide_eq_true_eq] at hletter
    rcases List.mem_cons.mp hc with hdollar | hdigit
    · exact hletter.2 hdollar
    · rw [hdigits c hdigit] at hletter
      exact nomatch hletter.1
  rw [Token.rewritten, convertPgSyntax, ilikeFrom_of_none hnone]
  cases digits with
  | nil => cases hne
  | cons d ds =>
    have hd := isDecimal_of_digit (hdigits d List.mem_cons_self)
    show placeholdersFrom false (dollarSign :: d :: ds) = [cp '?']
    rw [placeholdersFrom_cons, Bool.false_and, if_neg Bool.false_ne_true, placeholdersFrom_digits hdigits, List.head?_cons,
      Option.any_some, hd]
    rfl

omit [RegexTables] in
/-- A letter that is lowered to `d` is `d` or its capital. -/
theorem mem_of_lowerPoint {c d u : CodePoint} (h : lowerPoint c = d) (hu : u.val + 32 = d.val) (rest : List CodePoint) :
    c ∈ u :: d :: rest := by
  rw [lowerPoint] at h
  split at h
  · rename_i hrange
    have hval := congrArg Fin.val h
    rw [Fin.val_ofNat, Nat.mod_eq_of_lt (by omega)] at hval
    have hc : c = u := Fin.ext (by omega)
    rw [hc]
    exact List.mem_cons_self
  · rw [h]
    exact List.mem_cons_of_mem _ List.mem_cons_self

theorem matches_keyword {w : Str} (h : isIlike w = true) :
    matchesLetters ilikeLetters w = true ∧ w.length = 5 := by
  have hlower : w.map lowerPoint = [cp 'i', cp 'l', cp 'i', cp 'k', cp 'e'] := of_decide_eq_true h
  obtain ⟨a, w, rfl, ha, hlower⟩ := List.map_eq_cons_iff.mp hlower
  obtain ⟨b, w, rfl, hb, hlower⟩ := List.map_eq_cons_iff.mp hlower
  obtain ⟨c, w, rfl, hc, hlower⟩ := List.map_eq_cons_iff.mp hlower
  obtain ⟨d, w, rfl, hd, hlower⟩ := List.map_eq_cons_iff.mp hlower
  obtain ⟨e, w, rfl, he, hlower⟩ := List.map_eq_cons_iff.mp hlower
  obtain rfl := List.map_eq_nil_iff.mp hlower
  have ha := decide_eq_true (mem_of_lowerPoint (u := cp 'I') ha (by decide) [0x130, 0x131])
  have hb := decide_eq_true (mem_of_lowerPoint (u := cp 'L') hb (by decide) [])
  have hc := decide_eq_true (mem_of_lowerPoint (u := cp 'I') hc (by decide) [0x130, 0x131])
  have hd := decide_eq_true (mem_of_lowerPoint (u := cp 'K') hd (by decide) [0x212a])
  have he := decide_eq_true (mem_of_lowerPoint (u := cp 'E') he (by decide) [])
  refine ⟨?_, rfl⟩
  simp only [ilikeLetters, matchesLetters_cons, ha, hb, hc, hd, he, Bool.true_and]
  rfl

theorem ilikeFrom_skip (a : Bool) (s : Str) : ilikeFrom s.length a s = [] := by
  induction s generalizing a with
  | nil => rfl
  | cons c s ih =>
    rw [List.length_cons, ilikeFrom_cons, if_pos (Nat.zero_lt_succ _)]
    exact ih _

theorem convertPgSyntax_keyword {w : Str} (h : isIlike w = true) : convertPgSyntax w = lit "LIKE" := by
  obtain ⟨hmatch, hlen⟩ := matches_keyword h
  cases w with
  | nil => cases hlen
  | cons c w =>
    have hfour : w.length = 4 := Nat.succ.inj hlen
    rw [convertPgSyntax, ilikeFrom_cons, if_neg (Nat.lt_irrefl 0), hmatch, Bool.not_false, Bool.true_and, if_pos rfl,
      ← hfour, ilikeFrom_skip, List.append_nil]

theorem rewritten_keyword {w : Str} (h : isIlike w = true) : (Token.word w).rewritten = lit "LIKE" := by
  show convertPgPlaceholders (convertPgSyntax w) = lit "LIKE"
  rw [convertPgSyntax_keyword h]
  exact placeholdersFrom_of_none rfl

theorem length_rewritten_le (t : Token) : t.rewritten.length ≤ t.text.length :=
  (length_placeholdersFrom_le false _).trans (length_ilikeFrom_le false (Nat.zero_le _))

theorem rewritten_of_untouched {t : Token} (h : containsIlike t.text = false ∧ containsPlaceholder t.text = false) :
    t.rewritten = t.text := by
  rw [Token.rewritten, convertPgSyntax, ilikeFrom_of_none h.1]
  exact placeholdersFrom_of_none h.2

/-- A token as long as before was not touched. -/
theorem untouched_of_length {t : Token} (h : t.rewritten.length = t.text.length) :
    containsIlike t.text = false ∧ containsPlaceholder t.text = false := by
  have hlike : (convertPgSyntax t.text).length ≤ t.text.length := length_ilikeFrom_le false (Nat.zero_le _)
  have hplace : t.rewritten.length ≤ (convertPgSyntax t.text).length := length_placeholdersFrom_le false _
  have hilike : containsIlike t.text = false := by
    rw [Bool.eq_false_iff]
    intro hfound
    have hlt : (convertPgSyntax t.text).length < t.text.length := length_ilikeFrom_lt hfound
    omega
  refine ⟨hilike, ?_⟩
  rw [Bool.eq_false_iff]
  intro hfound
  have hlt := length_placeholdersFrom_lt hfound
  have hsame : convertPgSyntax t.text = t.text := ilikeFrom_of_none hilike
  rw [Token.rewritten, hsame] at h
  exact absurd h (Nat.ne_of_lt hlt)

omit [RegexTables] in
theorem converted_of_kept {t : Token} (h : t.kept = true) : t.converted = t.text := by
  cases t with
  | placeholder _ => cases h
  | word w =>
    rw [Token.kept, Bool.not_eq_true'] at h
    rw [Token.converted, h]
    rfl
  | literal _ | quoted _ | number _ | symbol _ => rfl

/-- Placeholders and the keyword are always rewritten as they should be. -/
theorem rewritten_of_not_kept {t : Token} (hv : t.valid = true) (h : t.kept = false) : t.rewritten = t.converted := by
  cases t with
  | placeholder ds => exact rewritten_placeholder hv
  | word w =>
    rw [Token.kept, Bool.not_eq_false'] at h
    rw [rewritten_keyword h, Token.converted, h]
    rfl
  | literal _ | quoted _ | number _ | symbol _ => cases h

/-! ## Both rewritings -/

theorem convertedText_of_untouched {s : PgStatement} (h : Untouched s.tokens) :
    convertPgPlaceholders (convertPgSyntax (textOf s.tokens)) = convertedText s.tokens := by
  have hall := List.all_eq_true.mp s.valid
  rw [rewritten_tokens, convertedText]
  apply List.flatMap_congr
  intro t ht
  cases hk : t.kept with
  | true => rw [rewritten_of_untouched (h t ht hk), converted_of_kept hk]
  | false => exact rewritten_of_not_kept (hall t ht) hk

/-- Where another token is touched, the text gets too short. -/
theorem untouched_of_convertedText {s : PgStatement}
    (h : (convertPgPlaceholders (convertPgSyntax (textOf s.tokens))).length = (convertedText s.tokens).length) :
    Untouched s.tokens := by
  have hall := List.all_eq_true.mp s.valid
  have hle : ∀ t ∈ s.tokens, t.rewritten.length ≤ t.converted.length := by
    intro t ht
    cases hk : t.kept with
    | true =>
      rw [converted_of_kept hk]
      exact length_rewritten_le t
    | false => rw [rewritten_of_not_kept (hall t ht) hk]
  rw [rewritten_tokens] at h
  intro t ht hk
  have hsame := length_eq_of_flatMap hle h t ht
  rw [converted_of_kept hk] at hsame
  exact untouched_of_length hsame

end Rewriting

/-! ## Replacing one text by another -/

section Replace
variable {old new : Str}

theorem replaceFrom_skip (k : Nat) (s : Str) : replaceFrom old new k s = replaceFrom old new 0 (s.drop k) := by
  induction s generalizing k with
  | nil => rw [List.drop_nil, replaceFrom, replaceFrom]
  | cons c s ih =>
    cases k with
    | zero => rfl
    | succ k =>
      rw [replaceFrom, if_pos (Nat.zero_lt_succ k), List.drop_succ_cons]
      exact ih k

theorem replaceText_found {s : Str} (hold : old ≠ []) (h : old <+: s) :
    replaceText old new s = new ++ replaceText old new (s.drop old.length) := by
  cases s with
  | nil => exact absurd (List.prefix_nil.mp h) hold
  | cons c s =>
    obtain ⟨a, rest, rfl⟩ := List.exists_cons_of_ne_nil hold
    rw [replaceText, replaceFrom, if_neg (Nat.lt_irrefl 0), if_pos h, replaceFrom_skip, List.length_cons,
      Nat.add_sub_cancel, List.drop_succ_cons]
    rfl

theorem replaceText_cons {c : CodePoint} {s : Str} (h : ¬ old <+: c :: s) :
    replaceText old new (c :: s) = c :: replaceText old new s := by
  rw [replaceText, replaceFrom, if_neg (Nat.lt_irrefl 0), if_neg h]
  rfl

/-- A text in which no occurrence begins is left alone. -/
theorem replaceText_append {x y : Str} (h : ∀ i < x.length, ¬ old <+: (x ++ y).drop i) :
    replaceText old new (x ++ y) = x ++ replaceText old new y := by
  induction x with
  | nil => rfl
  | cons c x ih =>
    have hfirst : ¬ old <+: c :: (x ++ y) := h 0 (Nat.zero_lt_succ _)
    rw [List.cons_append, replaceText_cons hfirst, List.cons_append]
    refine congrArg _ (ih ?_)
    intro i hi
    exact h (i + 1) (Nat.succ_lt_succ hi)

theorem length_replaceFrom (hold : old ≠ []) (hlen : new.length = old.length) {k : Nat} {s : Str} (hk : k ≤ s.length) :
    (replaceFrom old new k s).length + k = s.length := by
  induction s generalizing k with
  | nil =>
    obtain rfl := Nat.le_zero.mp hk
    rfl
  | cons c s ih =>
    rw [List.length_cons] at hk
    rw [replaceFrom]
    split
    · have hrest := ih (k := k - 1) (by omega)
      rw [List.length_cons]
      omega
    · split
      · rename_i hfound
        have hle := hfound.length_le
        rw [List.length_cons] at hle
        have hrest := ih (k := old.length - 1) (by omega)
        have hpos := List.length_pos_iff.mpr hold
        rw [List.length_append, List.length_cons]
        omega
      · have hrest := ih (k := 0) (Nat.zero_le _)
        rw [List.length_cons, List.length_cons]
        omega

theorem length_replaceText (hold : old ≠ []) (hlen : new.length = old.length) (s : Str) :
    (replaceText old new s).length = s.length := length_replaceFrom hold hlen (Nat.zero_le _)

/-- Where an occurrence begins the last character is changed, and nothing that only differs later can hide it. -/
theorem replaceText_append_iff {w : Str} {a b : CodePoint} (hab : a ≠ b) {x y z : Str}
    (hz : z.take w.length = y.take w.length) :
    replaceText (w ++ [a]) (w ++ [b]) (x ++ y) = x ++ z ↔
      (∀ i < x.length, ¬ (w ++ [a]) <+: (x ++ y).drop i) ∧ replaceText (w ++ [a]) (w ++ [b]) y = z := by
  constructor
  · intro h
    have hnone : ∀ i < x.length, ¬ (w ++ [a]) <+: (x ++ y).drop i := by
      intro i hi hfound
      have hexists : ∃ i, (w ++ [a]) <+: (x ++ y).drop i := ⟨i, hfound⟩
      have hfirst := Nat.find_spec hexists
      have hmin := fun j hj => Nat.find_min hexists (m := j) hj
      have hle : Nat.find hexists ≤ i := Nat.find_min' hexists hfound
      generalize Nat.find hexists = k at *
      have hk : ((x ++ y).take k).length = k := by
        rw [List.length_take, List.length_append]
        omega
      have hleft : replaceText (w ++ [a]) (w ++ [b]) (x ++ y) =
          (x ++ y).take k ++ ((w ++ [b]) ++ replaceText (w ++ [a]) (w ++ [b]) (((x ++ y).drop k).drop (w ++ [a]).length)) := by
        rw [← replaceText_found (List.append_ne_nil_of_right_ne_nil _ (List.cons_ne_nil _ _)) hfirst,
          ← replaceText_append, List.take_append_drop]
        intro j hj
        rw [hk] at hj
        rw [List.take_append_drop]
        exact hmin j hj
      have hbefore : (x ++ y)[k + w.length]? = some a := by
        obtain ⟨r, hr⟩ := hfirst
        rw [← List.getElem?_drop, ← hr, List.append_assoc, List.getElem?_append_right (Nat.le_refl _), Nat.sub_self]
        rfl
      have hafter : (x ++ z)[k + w.length]? = some b := by
        rw [← h, hleft, List.getElem?_append_right (by omega), hk, Nat.add_sub_cancel_left, List.append_assoc,
          List.getElem?_append_right (Nat.le_refl _), Nat.sub_self]
        rfl
      have hsame : (x ++ z)[k + w.length]? = (x ++ y)[k + w.length]? := by
        by_cases hlt : k + w.length < x.length
        · rw [List.getElem?_append_left hlt, List.getElem?_append_left hlt]
        · have hpos : k + w.length - x.length < w.length := by omega
          rw [List.getElem?_append_right (by omega), List.getElem?_append_right (by omega),
            ← List.getElem?_take_of_lt hpos, hz, List.getElem?_take_of_lt hpos]
      rw [hbefore, hafter, Option.some.injEq] at hsame
      exact hab hsame.symm
    refine ⟨hnone, ?_⟩
    rw [replaceText_append hnone] at h
    exact List.append_cancel_left h
  · rintro ⟨hnone, hrest⟩
    rw [replaceText_append hnone, hrest]

end Replace

/-! ## The schema's qualifier -/

section Schema
variable {schema : Str}

def underscore : CodePoint := cp '_'

theorem converted_cons {t : Token} (h : t.valid = true) :
    ∃ c r, t.converted = c :: r ∧ (c = period → t = .symbol period) := by
  cases t with
  | literal s => exact ⟨apostrophe, _, rfl, fun hc => absurd hc (by decide)⟩
  | quoted s => exact ⟨doubleQuote, _, rfl, fun hc => absurd hc (by decide)⟩
  | placeholder ds => exact ⟨cp '?', [], rfl, fun hc => absurd hc (by decide)⟩
  | symbol c => exact ⟨c, [], rfl, fun hc => congrArg _ hc⟩
  | number s =>
    rw [Token.valid, Bool.and_eq_true] at h
    cases s with
    | nil => exact nomatch h.1
    | cons c s =>
      refine ⟨c, s, rfl, ?_⟩
      rintro rfl
      exact absurd h.1 (show ¬ isDigit period = true by decide)
  | word s =>
    rw [Token.valid, Bool.and_eq_true] at h
    cases s with
    | nil => exact nomatch h.1
    | cons c s =>
      rw [Token.converted]
      split
      · exact ⟨cp 'L', _, rfl, fun hc => absurd hc (by decide)⟩
      · refine ⟨c, s, rfl, ?_⟩
        rintro rfl
        exact absurd h.1 (show ¬ nameStart period = true by decide)

/-- The schema's name is converted to itself; it is not empty and has no point in it. -/
theorem names_spec {t : Token} (hv : t.valid = true) (h : t.names schema = true) :
    t.converted = schema ∧ period ∉ schema ∧ schema ≠ [] := by
  cases t with
  | word s =>
    rw [Token.names, Bool.and_eq_true, decide_eq_true_eq, Bool.not_eq_true'] at h
    obtain ⟨rfl, hlike⟩ := h
    rw [Token.valid, Bool.and_eq_true] at hv
    refine ⟨?_, ?_, ?_⟩
    · rw [Token.converted, hlike]
      rfl
    · intro hp
      exact absurd (List.all_eq_true.mp hv.2 period hp) (by decide)
    · rintro rfl
      exact nomatch hv.1
  | literal _ | quoted _ | placeholder _ | number _ | symbol _ => cases h

theorem convertedText_cons (t : Token) (ts : List Token) : convertedText (t :: ts) = t.converted ++ convertedText ts :=
  List.flatMap_cons

theorem translatedFrom_cons (named : Bool) (t : Token) (ts : List Token) : translatedFrom schema named (t :: ts) =
    (if named = true ∧ t = .symbol period then [underscore] else t.converted) ++ translatedFrom schema (t.names schema) ts :=
  rfl

theorem length_translatedFrom (named : Bool) (ts : List Token) :
    (translatedFrom schema named ts).length = (convertedText ts).length := by
  induction ts generalizing named with
  | nil => rfl
  | cons t ts ih =>
    rw [translatedFrom_cons, convertedText_cons, List.length_append, List.length_append, ih]
    split
    · rename_i hpoint
      rw [hpoint.2]
      rfl
    · rfl

/-- A name just read makes no difference unless a point follows. -/
theorem translatedFrom_named {named : Bool} {ts : List Token} (h : named = true → ts.head? ≠ some (.symbol period)) :
    translatedFrom schema named ts = translated schema ts := by
  cases ts with
  | nil => rfl
  | cons t ts =>
    have hnot : ¬ (named = true ∧ t = .symbol period) := by
      rintro ⟨hn, rfl⟩
      exact h hn rfl
    rw [translated, translatedFrom_cons, translatedFrom_cons, if_neg hnot, if_neg fun hf => Bool.false_ne_true hf.1]

/-- The first underscore comes after the schema's name. -/
theorem take_translated (ts : List Token) (hv : ∀ t ∈ ts, t.valid = true) {n : Nat} (hn : n ≤ schema.length) :
    (translated schema ts).take n = (convertedText ts).take n := by
  induction ts generalizing n with
  | nil => rfl
  | cons t ts ih =>
    rw [translated, translatedFrom_cons, if_neg fun hf => Bool.false_ne_true hf.1, convertedText_cons]
    cases hname : t.names schema with
    | true =>
      have hconv := (names_spec (hv t List.mem_cons_self) hname).1
      rw [hconv, List.take_append_of_le_length hn, List.take_append_of_le_length hn]
    | false =>
      have hrest := ih (fun t ht => hv t (List.mem_cons_of_mem _ ht)) (n := n - t.converted.length) (by omega)
      rw [List.take_append, List.take_append]
      exact congrArg _ hrest

/-! ### The default schema -/

theorem translatedFrom_eq_iff (named : Bool) (ts : List Token) : translatedFrom schema named ts = convertedText ts ↔
    (named = true → ts.head? ≠ some (.symbol period)) ∧ qualified schema ts = false := by
  induction ts generalizing named with
  | nil => exact ⟨fun _ => ⟨fun _ h => (nomatch h), rfl⟩, fun _ => rfl⟩
  | cons t ts ih =>
    have hqualified : qualified schema (t :: ts) = false ↔
        (t.names schema = true → ts.head? ≠ some (.symbol period)) ∧ qualified schema ts = false := by
      cases ts with
      | nil => exact ⟨fun _ => ⟨fun _ h => (nomatch h), rfl⟩, fun _ => rfl⟩
      | cons t' ts =>
        rw [qualified, Bool.or_eq_false_iff, List.head?_cons, ne_eq, Option.some.injEq, Bool.and_eq_false_imp,
          decide_eq_false_iff_not]
    rw [translatedFrom_cons, convertedText_cons, hqualified, ← ih, List.head?_cons, ne_eq, Option.some.injEq]
    split
    · rename_i hpoint
      constructor
      · intro heq
        rw [hpoint.2] at heq
        exact absurd (List.cons.inj heq).1 (by decide)
      · rintro ⟨hnot, -⟩
        exact absurd hpoint.2 (hnot hpoint.1)
    · rename_i hpoint
      rw [List.append_cancel_left_eq]
      exact ⟨fun heq => ⟨fun hn ht => hpoint ⟨hn, ht⟩, heq⟩, fun h => h.2⟩

/-! ### Any other schema -/

def prefixed (schema : Str) : Str := schema ++ [underscore]

/-- A token that is not followed as the schema's qualifier. -/
theorem replaced_other {t : Token} {ts : List Token} (hv : ∀ u ∈ t :: ts, u.valid = true)
    (hnot : t.names schema = true → ts.head? ≠ some (.symbol period))
    (ih : replaceText (qualifier schema) (prefixed schema) (convertedText ts) = translated schema ts ↔
      OnlyQualifiers schema ts) :
    replaceText (qualifier schema) (prefixed schema) (convertedText (t :: ts)) = translated schema (t :: ts) ↔
      OnlyQualifiers schema (t :: ts) := by
  have htail : ∀ u ∈ ts, u.valid = true := fun u hu => hv u (List.mem_cons_of_mem _ hu)
  have htranslated : translated schema (t :: ts) = t.converted ++ translated schema ts := by
    rw [translated, translatedFrom_cons, if_neg fun hf => Bool.false_ne_true hf.1, translatedFrom_named hnot]
  have hoccurs : ∀ i, qualifier schema <+: (convertedText (t :: ts)).drop i → ¬ (i = 0 ∧ t.names schema = true) := by
    rintro i hfound ⟨rfl, hname⟩
    have hconv := (names_spec (hv t List.mem_cons_self) hname).1
    rw [List.drop_zero, convertedText_cons, hconv, qualifier, List.prefix_append_right_inj] at hfound
    cases ts with
    | nil => exact absurd (List.prefix_nil.mp hfound) (List.cons_ne_nil _ _)
    | cons t' ts =>
      obtain ⟨c, r, hc, hperiod⟩ := converted_cons (htail t' List.mem_cons_self)
      rw [convertedText_cons, hc, List.cons_append, List.cons_prefix_cons] at hfound
      rw [hperiod hfound.1.symm] at hnot
      exact hnot hname rfl
  rw [htranslated, convertedText_cons, qualifier, prefixed,
    replaceText_append_iff (by decide) (take_translated ts htail (Nat.le_refl _)), ← qualifier, ← prefixed, ih,
    OnlyQualifiers, convertedText_cons]
  rw [convertedText_cons] at hoccurs
  constructor
  · rintro ⟨hnone, hrest⟩
    exact ⟨fun i hi hfound => absurd hfound (hnone i hi), hrest⟩
  · rintro ⟨honly, hrest⟩
    exact ⟨fun i hi hfound => hoccurs i hfound (honly i hi hfound), hrest⟩

/-- The schema's qualifier is replaced, and no occurrence overlaps it. -/
theorem replaced_qualifier {t : Token} {ts : List Token} (hv : t.valid = true) (hname : t.names schema = true)
    (ih : replaceText (qualifier schema) (prefixed schema) (convertedText ts) = translated schema ts ↔
      OnlyQualifiers schema ts) :
    replaceText (qualifier schema) (prefixed schema) (convertedText (t :: .symbol period :: ts)) =
      translated schema (t :: .symbol period :: ts) ↔ OnlyQualifiers schema (t :: .symbol period :: ts) := by
  obtain ⟨hconv, hperiod, hne⟩ := names_spec hv hname
  have htext : convertedText (t :: .symbol period :: ts) = qualifier schema ++ convertedText ts := by
    rw [convertedText_cons, convertedText_cons, hconv, qualifier, List.append_assoc]
    rfl
  have htranslated : translated schema (t :: .symbol period :: ts) = prefixed schema ++ translated schema ts := by
    rw [translated, translatedFrom_cons, if_neg fun hf => Bool.false_ne_true hf.1, hconv, hname, translatedFrom_cons,
      if_pos ⟨rfl, rfl⟩, prefixed, List.append_assoc]
    rfl
  have hold : qualifier schema ≠ [] := List.append_ne_nil_of_right_ne_nil _ (List.cons_ne_nil _ _)
  rw [htext, htranslated, replaceText_found hold (List.prefix_append _ _), List.drop_left, List.append_cancel_left_eq, ih]
  -- an occurrence further on would put a point into the schema's name
  have hinside : ∀ i, 0 < i → i ≤ schema.length → ¬ qualifier schema <+: (qualifier schema ++ convertedText ts).drop i := by
    intro i hpos hle hfound
    have hpoint : (qualifier schema ++ convertedText ts)[schema.length]? = some period := by
      rw [qualifier, List.append_assoc, List.getElem?_append_right (Nat.le_refl _), Nat.sub_self]
      rfl
    obtain ⟨r, hr⟩ := hfound
    have hat : (qualifier schema ++ r)[schema.length - i]? = some period := by
      rw [hr, List.getElem?_drop, Nat.add_sub_cancel' hle]
      exact hpoint
    rw [qualifier, List.append_assoc, List.getElem?_append_left (by omega)] at hat
    exact hperiod (List.mem_of_getElem? hat)
  constructor
  · intro hrest
    refine ⟨?_, ?_, hrest⟩
    · intro i hi hfound
      rw [htext] at hfound
      rw [hconv] at hi
      rcases Nat.eq_zero_or_pos i with rfl | hpos
      · exact ⟨rfl, hname⟩
      · exact absurd hfound (hinside i hpos (Nat.le_of_lt hi))
    · intro i hi hfound
      obtain rfl : i = 0 := Nat.lt_one_iff.mp hi
      refine absurd ?_ (hinside schema.length (List.length_pos_iff.mpr hne) (Nat.le_refl _))
      rw [qualifier, List.append_assoc, List.drop_left]
      exact hfound
  · rintro ⟨-, -, hrest⟩
    exact hrest

theorem replaced_iff (ts : List Token) (hv : ∀ t ∈ ts, t.valid = true) :
    replaceText (qualifier schema) (prefixed schema) (convertedText ts) = translated schema ts ↔
      OnlyQualifiers schema ts := by
  induction ts using List.twoStepInduction with
  | nil => exact ⟨fun _ => trivial, fun _ => rfl⟩
  | singleton t =>
    exact replaced_other hv (fun _ h => nomatch h) ⟨fun _ => trivial, fun _ => rfl⟩
  | cons_cons t t' ts ih ih' =>
    have htail : ∀ u ∈ t' :: ts, u.valid = true := fun u hu => hv u (List.mem_cons_of_mem _ hu)
    by_cases hq : t.names schema = true ∧ t' = .symbol period
    · obtain ⟨hname, rfl⟩ := hq
      exact replaced_qualifier (hv t List.mem_cons_self) hname (ih fun u hu => htail u (List.mem_cons_of_mem _ hu))
    · refine replaced_other hv ?_ (ih' t' htail)
      intro hname hhead
      exact hq ⟨hname, Option.some.inj hhead⟩

end Schema

section Statement
variable [RegexTables]

/-! ## The text -/

theorem sqliteText_iff (schema : Str) (s : PgStatement) :
    sqliteText schema (textOf s.tokens) = translated schema s.tokens ↔
      Untouched s.tokens ∧ SchemaApart schema s.tokens := by
  have hold : qualifier schema ≠ [] := List.append_ne_nil_of_right_ne_nil _ (List.cons_ne_nil _ _)
  have hsame : (prefixed schema).length = (qualifier schema).length := by
    rw [prefixed, qualifier, List.length_append, List.length_append]
    rfl
  have hdef : sqliteText schema (textOf s.tokens) =
      if schema ≠ publicSchema then
        replaceText (qualifier schema) (prefixed schema) (convertPgPlaceholders (convertPgSyntax (textOf s.tokens)))
      else convertPgPlaceholders (convertPgSyntax (textOf s.tokens)) := rfl
  have hlength : (sqliteText schema (textOf s.tokens)).length =
      (convertPgPlaceholders (convertPgSyntax (textOf s.tokens))).length := by
    rw [hdef]
    split
    · exact length_replaceText hold hsame _
    · rfl
  have hschema : Untouched s.tokens →
      (sqliteText schema (textOf s.tokens) = translated schema s.tokens ↔ SchemaApart schema s.tokens) := by
    intro huntouched
    rw [hdef, convertedText_of_untouched huntouched, SchemaApart]
    by_cases hpublic : schema = publicSchema
    · rw [if_neg (not_not_intro hpublic), if_pos hpublic, eq_comm, translated, translatedFrom_eq_iff]
      exact ⟨fun h => h.2, fun h => ⟨fun hf => absurd hf Bool.false_ne_true, h⟩⟩
    · rw [if_pos hpublic, if_neg hpublic]
      exact replaced_iff s.tokens (List.all_eq_true.mp s.valid)
  constructor
  · intro h
    have huntouched : Untouched s.tokens := by
      apply untouched_of_convertedText
      rw [← hlength, h, translated, length_translatedFrom]
    exact ⟨huntouched, (hschema huntouched).mp h⟩
  · rintro ⟨huntouched, hapart⟩
    exact (hschema huntouched).mpr hapart

/-! ## The parameters -/

section Binding
variable {F : Type} [PyFloat F]

omit [RegexTables] in
theorem serializeAll_getElem {params values : List (SqlValue F)} (h : serializeAll params = .ok values) (k : Nat) :
    values[k]? = params[k]?.bind fun v => (serializeValue v).toOption := by
  induction params generalizing values k with
  | nil =>
    cases h
    rfl
  | cons v vs ih =>
    rw [serializeAll] at h
    cases hv : serializeValue v with
    | error e =>
      rw [hv] at h
      cases h
    | ok v' =>
      rw [hv] at h
      cases hvs : serializeAll vs with
      | error e =>
        rw [hvs] at h
        cases h
      | ok vs' =>
        rw [hvs] at h
        cases h
        cases k with
        | zero =>
          rw [List.getElem?_cons_zero, List.getElem?_cons_zero, Option.bind_some, hv]
          rfl
        | succ k =>
          rw [List.getElem?_cons_succ, List.getElem?_cons_succ]
          exact ih hvs k

/-- A parameter for each position, all different. -/
def intValue (n : Nat) : SqlValue F := .value (.int n)

omit [RegexTables] in
theorem serializeAll_ints (ns : List Nat) :
    serializeAll (ns.map intValue : List (SqlValue F)) = .ok (ns.map intValue) := by
  induction ns with
  | nil => rfl
  | cons n ns ih =>
    rw [List.map_cons, serializeAll, ih]
    rfl

omit [RegexTables] [PyFloat F] in
theorem getElem_ints {m k : Nat} (h : k < m) : ((List.range m).map intValue : List (SqlValue F))[k]? = some (intValue k) := by
  rw [List.getElem?_map, List.getElem?_range h]
  rfl

end Binding

end Statement

/-! ## Two statements -/

section Example

attribute [local instance] asciiTables

/-- `SELECT $2, $1`. -/
def swappedPlaceholders : PgStatement where
  tokens := [.word (lit "SELECT"), .symbol (cp ' '), .placeholder (lit "2"), .symbol (cp ','), .symbol (cp ' '),
    .placeholder (lit "1")]
  valid := by decide
  apart := by decide

end Example

end IsaCloud.Database
