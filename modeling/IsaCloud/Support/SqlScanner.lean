import IsaCloud.Support.Python
import Mathlib.Data.List.TakeWhile

/-!
# The outline of an SQL text

A text is read character by character. String literals, quoted names, comments and
dollar quotes hide what they hold, and a comma separates items only outside all
brackets. The outline of a list in parentheses are its items, up to the closing
parenthesis that ends the text. A part that is balanced in itself can be replaced
by its final state.
-/

namespace Support.SqlScanner

set_option autoImplicit false

open Text

/-! ## Characters -/

def isNewline (c : CodePoint) : Bool := decide (c.val = 10 ∨ c.val = 13)

def isBlank (c : CodePoint) : Bool := decide ((9 ≤ c.val ∧ c.val ≤ 13) ∨ c.val = 32)

def isLetter (c : CodePoint) : Bool :=
  decide ((65 ≤ c.val ∧ c.val ≤ 90) ∨ (97 ≤ c.val ∧ c.val ≤ 122) ∨ c.val = 95)

/-- The characters of names; beyond ASCII they are the database's choice. -/
class NameChars where
  isName : CodePoint → Bool
  isName_ascii : ∀ c : CodePoint, c.val < 0x80 → isName c = (isLetter c || isDigit c || decide (c = cp '$'))

/-- Everything beyond ASCII is part of a name. -/
@[reducible] def wideNames : NameChars where
  isName c := decide (0x80 ≤ c.val) || (isLetter c || isDigit c || decide (c = cp '$'))
  isName_ascii c h := by
    rw [decide_eq_false (Nat.not_le.mpr h), Bool.false_or]

section Scanner
variable [NameChars]

def startsName (c : CodePoint) : Bool := NameChars.isName c && !isDigit c && decide (c ≠ cp '$')

/-- The letter that makes a quote right after it open an escape literal. -/
def isEscapePrefix (c : CodePoint) : Bool := decide (c = cp 'e' ∨ c = cp 'E')

/-! ## One character -/

inductive Mode where
  | code
  /-- Within a name, which may be the prefix of an escape literal. -/
  | word (escape : Bool)
  | dash
  | slash
  /-- After a dollar sign and the characters of a tag, the last one first. -/
  | dollar (tag : Str)
  | literal
  | literalEnd
  | escaped
  | escapedSlash
  | escapedEnd
  /-- Blanks after an escape literal, which a quote on a later line continues. -/
  | gap (newline : Bool)
  | gapDash
  | gapLine
  | quoted
  | quotedEnd
  | line
  | block (depth : Nat)
  | blockStar (depth : Nat)
  | blockSlash (depth : Nat)
  /-- A dollar quote with its tag and what was read of it, both backwards. -/
  | body (tag recent : Str)
  deriving DecidableEq

/-- No literal, quoted name or comment is open. -/
def Mode.inCode : Mode → Bool
  | .code | .word _ | .dash | .slash | .dollar _ => true
  | .literalEnd | .escapedEnd | .gap _ | .gapDash | .quotedEnd => true
  | _ => false

structure State where
  mode : Mode
  /-- The closing brackets that are due, the innermost first. -/
  due : Str
  deriving DecidableEq

def start : State := ⟨.code, []⟩

def State.closed (st : State) : Bool := st.mode.inCode && st.due.isEmpty

inductive Outcome where
  | on (st : State)
  /-- A comma outside all brackets. -/
  | comma
  /-- A closing parenthesis that was not opened. -/
  | close
  /-- The statement ends, or brackets do not match. -/
  | broken
  deriving DecidableEq

/-- The closing bracket of an opening one. -/
def closing (c : CodePoint) : Option CodePoint :=
  if c = cp '(' then some (cp ')') else if c = cp '[' then some (cp ']') else if c = cp '{' then some (cp '}') else none

/-- What begins outside all names; `escape` tells that the letter E stands right before. -/
def opened (escape : Bool) (c : CodePoint) : Mode :=
  if c = cp '\'' then (if escape then .escaped else .literal)
  else if c = cp '"' then .quoted
  else if c = cp '-' then .dash
  else if c = cp '/' then .slash
  else if c = cp '$' then .dollar []
  else if startsName c then .word (isEscapePrefix c)
  else .code

/-- A character outside all names. -/
def codeStep (escape : Bool) (due : Str) (c : CodePoint) : Outcome :=
  if c = cp ';' then .broken
  else if c = cp ',' ∧ due = [] then .comma
  else if c = cp ')' ∧ due = [] then .close
  else if c ∈ [cp ')', cp ']', cp '}'] then (if due.head? = some c then .on ⟨.code, due.tail⟩ else .broken)
  else .on ⟨opened escape c, (closing c).toList ++ due⟩

def gapStep (newline : Bool) (due : Str) (c : CodePoint) : Outcome :=
  if isNewline c then .on ⟨.gap true, due⟩
  else if isBlank c then .on ⟨.gap newline, due⟩
  else if c = cp '-' then .on ⟨.gapDash, due⟩
  else codeStep newline due c

def step (st : State) (c : CodePoint) : Outcome :=
  match st.mode with
  | .code => codeStep false st.due c
  | .word escape => if NameChars.isName c then .on ⟨.word false, st.due⟩ else codeStep escape st.due c
  | .dash => if c = cp '-' then .on ⟨.line, st.due⟩ else codeStep false st.due c
  | .slash => if c = cp '*' then .on ⟨.block 0, st.due⟩ else codeStep false st.due c
  | .dollar tag =>
    if c = cp '$' then .on ⟨.body tag [], st.due⟩
    else if startsName c || (!tag.isEmpty && NameChars.isName c) then .on ⟨.dollar (c :: tag), st.due⟩
    else codeStep (decide (tag = [cp 'e'] ∨ tag = [cp 'E'])) st.due c
  | .literal => .on ⟨if c = cp '\'' then .literalEnd else .literal, st.due⟩
  | .literalEnd => if c = cp '\'' then .on ⟨.literal, st.due⟩ else codeStep false st.due c
  | .escaped =>
    .on ⟨if c = cp '\\' then .escapedSlash else if c = cp '\'' then .escapedEnd else .escaped, st.due⟩
  | .escapedSlash => .on ⟨.escaped, st.due⟩
  | .escapedEnd => if c = cp '\'' then .on ⟨.escaped, st.due⟩ else gapStep false st.due c
  | .gap newline => gapStep newline st.due c
  | .gapDash => if c = cp '-' then .on ⟨.gapLine, st.due⟩ else codeStep false st.due c
  | .gapLine => .on ⟨if isNewline c then .gap true else .gapLine, st.due⟩
  | .quoted => .on ⟨if c = cp '"' then .quotedEnd else .quoted, st.due⟩
  | .quotedEnd => if c = cp '"' then .on ⟨.quoted, st.due⟩ else codeStep false st.due c
  | .line => .on ⟨if isNewline c then .code else .line, st.due⟩
  | .block depth =>
    .on ⟨if c = cp '*' then .blockStar depth else if c = cp '/' then .blockSlash depth else .block depth, st.due⟩
  | .blockStar depth =>
    if c = cp '/' then .on ⟨if depth = 0 then .code else .block (depth - 1), st.due⟩
    else .on ⟨if c = cp '*' then .blockStar depth else .block depth, st.due⟩
  | .blockSlash depth =>
    .on ⟨if c = cp '*' then .block (depth + 1) else if c = cp '/' then .blockSlash depth else .block depth, st.due⟩
  | .body tag recent =>
    .on ⟨if c = cp '$' ∧ tag ++ [cp '$'] <+: recent then .code else .body tag (c :: recent), st.due⟩

/-! ## A part of a text -/

/-- The state after a part, which ends nothing that it did not begin. -/
def scan : State → Str → Option State
  | st, [] => some st
  | st, c :: s =>
    match step st c with
    | .on st' => scan st' s
    | _ => none

/-- A part that can stand between any two commas. -/
def contained (s : Str) : Bool := (scan start s).any State.closed

/-- Puts a part before the first item. -/
def push (x : Str) : List Str → List Str
  | [] => []
  | item :: items => (x ++ item) :: items

/-- The items up to the closing parenthesis that ends the text. -/
def readItems : State → Str → Option (List Str)
  | _, [] => none
  | st, c :: s =>
    match step st c with
    | .on st' => (readItems st' s).map (push [c])
    | .comma => (readItems start s).map ([] :: ·)
    | .close => if s = [] then some [[]] else none
    | .broken => none

def trim (s : Str) : Str := s.dropWhile isBlank

/-- The items without the blanks before them; a list of nothing has none. -/
def readList (s : Str) : Option (List Str) :=
  (readItems start s).map fun items => if items.map trim = [[]] then [] else items.map trim

/-! ## Commas and parentheses -/

variable {st st' : State}

omit [NameChars] in
/-- Where a comma separates and a parenthesis closes. -/
theorem closed_iff : st.closed = true ↔ st.mode.inCode = true ∧ st.due = [] := by
  rw [State.closed, Bool.and_eq_true, List.isEmpty_iff]

theorem codeStep_comma (escape : Bool) : codeStep escape [] (cp ',') = .comma := by
  rw [codeStep, if_neg (by decide), if_pos ⟨rfl, rfl⟩]

theorem codeStep_close (escape : Bool) : codeStep escape [] (cp ')') = .close := by
  rw [codeStep, if_neg (by decide), if_neg (by decide), if_pos ⟨rfl, rfl⟩]

theorem codeStep_eq_comma {escape : Bool} {due : Str} {c : CodePoint} (h : codeStep escape due c = .comma) :
    c = cp ',' ∧ due = [] := by
  unfold codeStep at h
  split_ifs at h with _ hcomma
  exact hcomma

theorem codeStep_eq_close {escape : Bool} {due : Str} {c : CodePoint} (h : codeStep escape due c = .close) :
    c = cp ')' ∧ due = [] := by
  unfold codeStep at h
  split_ifs at h with _ _ hclose
  exact hclose

/-- Only a character outside all names ends anything. -/
theorem step_cases (st : State) (c : CodePoint) :
    (∃ st', step st c = .on st') ∨ (st.mode.inCode = true ∧ ∃ escape, step st c = codeStep escape st.due c) := by
  obtain ⟨mode, due⟩ := st
  have hif : ∀ {p : Prop} [Decidable p] {on : State} {outcome : Outcome} {b : Bool} {escape : Bool}, b = true →
      outcome = codeStep escape due c →
      (∃ st', (if p then Outcome.on on else outcome) = .on st') ∨
        (b = true ∧ ∃ escape, (if p then Outcome.on on else outcome) = codeStep escape due c) := by
    intro p _ on outcome b escape hb ho
    by_cases hp : p
    · exact .inl ⟨on, if_pos hp⟩
    · exact .inr ⟨hb, escape, (if_neg hp).trans ho⟩
  have hgap : ∀ newline : Bool, (∃ st', gapStep newline due c = .on st') ∨
      (true = true ∧ ∃ escape, gapStep newline due c = codeStep escape due c) := by
    intro newline
    unfold gapStep
    split_ifs with hnew hblank hdash
    · exact .inl ⟨_, rfl⟩
    · exact .inl ⟨_, rfl⟩
    · exact .inl ⟨_, rfl⟩
    · exact .inr ⟨rfl, newline, rfl⟩
  cases mode with
  | code => exact .inr ⟨rfl, false, rfl⟩
  | word escape => exact hif rfl rfl
  | dash => exact hif rfl rfl
  | slash => exact hif rfl rfl
  | dollar tag =>
    by_cases hc : c = cp '$'
    · exact .inl ⟨_, if_pos hc⟩
    · have hstep : step ⟨.dollar tag, due⟩ c =
          if startsName c || (!tag.isEmpty && NameChars.isName c) then .on ⟨.dollar (c :: tag), due⟩
          else codeStep (decide (tag = [cp 'e'] ∨ tag = [cp 'E'])) due c := if_neg hc
      rw [hstep]
      exact hif rfl rfl
  | literal => exact .inl ⟨_, rfl⟩
  | literalEnd => exact hif rfl rfl
  | escaped => exact .inl ⟨_, rfl⟩
  | escapedSlash => exact .inl ⟨_, rfl⟩
  | escapedEnd =>
    by_cases hc : c = cp '\''
    · exact .inl ⟨_, if_pos hc⟩
    · have hstep : step ⟨.escapedEnd, due⟩ c = gapStep false due c := if_neg hc
      rw [hstep]
      exact hgap false
  | gap newline => exact hgap newline
  | gapDash => exact hif rfl rfl
  | gapLine => exact .inl ⟨_, rfl⟩
  | quoted => exact .inl ⟨_, rfl⟩
  | quotedEnd => exact hif rfl rfl
  | line => exact .inl ⟨_, rfl⟩
  | block depth => exact .inl ⟨_, rfl⟩
  | blockStar depth =>
    by_cases hc : c = cp '/'
    · exact .inl ⟨_, if_pos hc⟩
    · exact .inl ⟨_, if_neg hc⟩
  | blockSlash depth => exact .inl ⟨_, rfl⟩
  | body tag recent => exact .inl ⟨_, rfl⟩

/-- Outside all literals a comma and a closing parenthesis are just that. -/
theorem step_of_inCode {c : CodePoint} (hc : c = cp ',' ∨ c = cp ')') (hcode : st.mode.inCode = true) :
    ∃ escape, step st c = codeStep escape st.due c := by
  obtain ⟨mode, due⟩ := st
  have hname : NameChars.isName c = false := by
    rcases hc with rfl | rfl
    · exact NameChars.isName_ascii _ (by decide)
    · exact NameChars.isName_ascii _ (by decide)
  have hstarts : startsName c = false := by rw [startsName, hname, Bool.false_and, Bool.false_and]
  have hmarks : c ∉ [cp '-', cp '*', cp '$', cp '\'', cp '"'] := by
    rcases hc with rfl | rfl
    · decide
    · decide
  have hother : ∀ d ∈ [cp '-', cp '*', cp '$', cp '\'', cp '"'], c ≠ d := by
    intro d hd hcd
    exact hmarks (hcd ▸ hd)
  have hblank : isNewline c = false ∧ isBlank c = false := by
    rcases hc with rfl | rfl
    · decide
    · decide
  have hgap : ∀ newline : Bool, gapStep newline due c = codeStep newline due c := by
    intro newline
    rw [gapStep, hblank.1, hblank.2, if_neg Bool.false_ne_true, if_neg Bool.false_ne_true,
      if_neg (hother _ (by decide))]
  cases mode with
  | code => exact ⟨false, rfl⟩
  | word escape => exact ⟨escape, if_neg (by rw [hname]; exact Bool.false_ne_true)⟩
  | dash => exact ⟨false, if_neg (hother _ (by decide))⟩
  | slash => exact ⟨false, if_neg (hother _ (by decide))⟩
  | dollar tag =>
    refine ⟨decide (tag = [cp 'e'] ∨ tag = [cp 'E']), (if_neg (hother _ (by decide))).trans (if_neg ?_)⟩
    rw [hstarts, hname, Bool.and_false]
    exact Bool.false_ne_true
  | literalEnd => exact ⟨false, if_neg (hother _ (by decide))⟩
  | escapedEnd => exact ⟨false, (if_neg (hother _ (by decide))).trans (hgap false)⟩
  | gap newline => exact ⟨newline, hgap newline⟩
  | gapDash => exact ⟨false, if_neg (hother _ (by decide))⟩
  | quotedEnd => exact ⟨false, if_neg (hother _ (by decide))⟩
  | _ => cases hcode

theorem step_comma (h : st.closed = true) : step st (cp ',') = .comma := by
  obtain ⟨hcode, hdue⟩ := closed_iff.mp h
  obtain ⟨escape, hstep⟩ := step_of_inCode (.inl rfl) hcode
  rw [hstep, hdue, codeStep_comma]

theorem step_close (h : st.closed = true) : step st (cp ')') = .close := by
  obtain ⟨hcode, hdue⟩ := closed_iff.mp h
  obtain ⟨escape, hstep⟩ := step_of_inCode (.inr rfl) hcode
  rw [hstep, hdue, codeStep_close]

theorem step_eq_comma {c : CodePoint} (h : step st c = .comma) : c = cp ',' ∧ st.closed = true := by
  rcases step_cases st c with ⟨st', hon⟩ | ⟨hcode, escape, hstep⟩
  · rw [hon] at h
    cases h
  · obtain ⟨hc, hdue⟩ := codeStep_eq_comma (hstep.symm.trans h)
    exact ⟨hc, closed_iff.mpr ⟨hcode, hdue⟩⟩

theorem step_eq_close {c : CodePoint} (h : step st c = .close) : c = cp ')' ∧ st.closed = true := by
  rcases step_cases st c with ⟨st', hon⟩ | ⟨hcode, escape, hstep⟩
  · rw [hon] at h
    cases h
  · obtain ⟨hc, hdue⟩ := codeStep_eq_close (hstep.symm.trans h)
    exact ⟨hc, closed_iff.mpr ⟨hcode, hdue⟩⟩

/-! ## Parts -/

theorem scan_append (st : State) (x y : Str) : scan st (x ++ y) = (scan st x).bind fun st' => scan st' y := by
  induction x generalizing st with
  | nil => rfl
  | cons c x ih =>
    rw [List.cons_append, scan, scan]
    cases step st c with
    | on st' => exact ih st'
    | comma => rfl
    | close => rfl
    | broken => rfl

omit [NameChars] in
@[simp] theorem push_nil (items : List Str) : push [] items = items := by
  cases items with
  | nil => rfl
  | cons item items => rfl

omit [NameChars] in
theorem push_append (x y : Str) (items : List Str) : push (x ++ y) items = push x (push y items) := by
  cases items with
  | nil => rfl
  | cons item items =>
    show (x ++ y ++ item) :: items = (x ++ (y ++ item)) :: items
    rw [List.append_assoc]

/-- What was scanned belongs to the first item. -/
theorem readItems_append {x : Str} (y : Str) (h : scan st x = some st') :
    readItems st (x ++ y) = (readItems st' y).map (push x) := by
  induction x generalizing st with
  | nil =>
    cases h
    have hpush : push [] = id := funext push_nil
    rw [List.nil_append, hpush, Option.map_id_fun, id]
  | cons c x ih =>
    rw [scan] at h
    rw [List.cons_append, readItems]
    cases hstep : step st c with
    | on st₁ =>
      rw [hstep] at h
      show (readItems st₁ (x ++ y)).map (push [c]) = _
      rw [ih h, Option.map_map]
      congr 1
      funext items
      exact (push_append [c] x items).symm
    | comma => rw [hstep] at h; cases h
    | close => rw [hstep] at h; cases h
    | broken => rw [hstep] at h; cases h

/-- The first item ends at a comma or at the end of the text. -/
theorem readItems_cases {s : Str} {items : List Str} (h : readItems st s = some items) :
    ∃ item st', scan st item = some st' ∧ st'.closed = true ∧
      ((s = item ++ [cp ')'] ∧ items = [item]) ∨
        ∃ rest items', s = item ++ cp ',' :: rest ∧ readItems start rest = some items' ∧ items = item :: items') := by
  induction s generalizing st items with
  | nil => cases h
  | cons c s ih =>
    rw [readItems] at h
    cases hstep : step st c with
    | on st₁ =>
      rw [hstep] at h
      obtain ⟨items₁, hread, rfl⟩ := Option.map_eq_some_iff.mp h
      obtain ⟨item, st', hscan, hclosed, hends⟩ := ih hread
      refine ⟨c :: item, st', ?_, hclosed, ?_⟩
      · rw [scan, hstep]
        exact hscan
      · rcases hends with ⟨hs, rfl⟩ | ⟨rest, items', hs, hrest, rfl⟩
        · exact .inl ⟨congrArg (List.cons c) hs, rfl⟩
        · exact .inr ⟨rest, items', congrArg (List.cons c) hs, hrest, rfl⟩
    | comma =>
      obtain ⟨rfl, hclosed⟩ := step_eq_comma hstep
      rw [hstep] at h
      obtain ⟨items', hread, rfl⟩ := Option.map_eq_some_iff.mp h
      exact ⟨[], st, rfl, hclosed, .inr ⟨s, items', rfl, hread, rfl⟩⟩
    | close =>
      obtain ⟨rfl, hclosed⟩ := step_eq_close hstep
      rw [hstep] at h
      by_cases hs : s = []
      · subst hs
        cases h
        exact ⟨[], st, rfl, hclosed, .inl ⟨rfl, rfl⟩⟩
      · cases (if_neg hs).symm.trans h
    | broken =>
      rw [hstep] at h
      cases h

/-! ## Blanks and names -/

omit [NameChars] in
theorem blank_ne {c d : CodePoint} (hc : isBlank c = true) (hd : isBlank d = false) : c ≠ d := by
  intro hcd
  rw [hcd, hd] at hc
  cases hc

omit [NameChars] in
theorem closing_blank {c : CodePoint} (hc : isBlank c = true) : closing c = none := by
  rw [closing, if_neg (blank_ne hc rfl), if_neg (blank_ne hc rfl), if_neg (blank_ne hc rfl)]

theorem isName_blank {c : CodePoint} (hc : isBlank c = true) : NameChars.isName c = false := by
  have hval : (9 ≤ c.val ∧ c.val ≤ 13) ∨ c.val = 32 := of_decide_eq_true hc
  have hletter : isLetter c = false := decide_eq_false (by omega)
  have hdigit : isDigit c = false := decide_eq_false (by omega)
  rw [NameChars.isName_ascii c (by omega), hletter, hdigit, decide_eq_false (blank_ne hc rfl)]
  rfl

theorem codeStep_blank {c : CodePoint} (escape : Bool) (due : Str) (hc : isBlank c = true) :
    codeStep escape due c = .on ⟨.code, due⟩ := by
  have hcloses : c ∉ [cp ')', cp ']', cp '}'] := by
    intro hmem
    have hblank : ∀ d ∈ [cp ')', cp ']', cp '}'], isBlank d = false := by
      simp only [List.forall_mem_cons, List.not_mem_nil, false_implies, implies_true, and_true]
      decide
    exact blank_ne hc (hblank c hmem) rfl
  have hopened : opened escape c = .code := by
    rw [opened, if_neg (blank_ne hc rfl), if_neg (blank_ne hc rfl), if_neg (blank_ne hc rfl),
      if_neg (blank_ne hc rfl), if_neg (blank_ne hc rfl), startsName, isName_blank hc]
    rfl
  rw [codeStep, if_neg (blank_ne hc rfl), if_neg fun h => blank_ne hc rfl h.1,
    if_neg fun h => blank_ne hc rfl h.1, if_neg hcloses, hopened, closing_blank hc]
  rfl

/-- Blanks before an item do not matter. -/
theorem scan_blanks {pad : Str} (h : ∀ c ∈ pad, isBlank c = true) : scan start pad = some start := by
  induction pad with
  | nil => rfl
  | cons c pad ih =>
    have hstep : step start c = .on start := codeStep_blank false [] (h c List.mem_cons_self)
    rw [scan, hstep]
    exact ih fun d hd => h d (List.mem_cons_of_mem c hd)

/-- A name and the blank after it leave nothing open. -/
theorem scan_word {s : Str} {escape : Bool} (due : Str) (h : ∀ c ∈ s, NameChars.isName c = true) {blank : CodePoint}
    (hblank : isBlank blank = true) : scan ⟨.word escape, due⟩ (s ++ [blank]) = some ⟨.code, due⟩ := by
  induction s generalizing escape with
  | nil =>
    have hstep : step ⟨.word escape, due⟩ blank = .on ⟨.code, due⟩ :=
      (if_neg (by rw [isName_blank hblank]; exact Bool.false_ne_true)).trans (codeStep_blank escape due hblank)
    rw [List.nil_append, scan, hstep]
    rfl
  | cons c s ih =>
    have hstep : step ⟨.word escape, due⟩ c = .on ⟨.word false, due⟩ := if_pos (h c List.mem_cons_self)
    rw [List.cons_append, scan, hstep]
    exact ih fun d hd => h d (List.mem_cons_of_mem c hd)

theorem codeStep_letter {c : CodePoint} (escape : Bool) (due : Str) (hc : isLetter c = true) :
    codeStep escape due c = .on ⟨.word (isEscapePrefix c), due⟩ := by
  have hne : ∀ {d : CodePoint}, isLetter d = false → c ≠ d := by
    intro d hd hcd
    rw [hcd, hd] at hc
    cases hc
  have hval : (65 ≤ c.val ∧ c.val ≤ 90) ∨ (97 ≤ c.val ∧ c.val ≤ 122) ∨ c.val = 95 := of_decide_eq_true hc
  have hstarts : startsName c = true := by
    rw [startsName, NameChars.isName_ascii c (by omega), hc, decide_eq_true (hne rfl),
      show isDigit c = false from decide_eq_false (by omega)]
    rfl
  have hcloses : c ∉ [cp ')', cp ']', cp '}'] := by
    simp only [List.mem_cons, List.not_mem_nil, or_false, not_or]
    exact ⟨hne rfl, hne rfl, hne rfl⟩
  have hopened : opened escape c = .word (isEscapePrefix c) := by
    rw [opened, if_neg (hne rfl), if_neg (hne rfl), if_neg (hne rfl), if_neg (hne rfl), if_neg (hne rfl),
      if_pos hstarts]
  have hclosing : closing c = none := by rw [closing, if_neg (hne rfl), if_neg (hne rfl), if_neg (hne rfl)]
  rw [codeStep, if_neg (hne rfl), if_neg fun h => hne rfl h.1, if_neg fun h => hne rfl h.1, if_neg hcloses, hopened,
    hclosing]
  rfl

theorem scan_name {c : CodePoint} {s : Str} (hc : isLetter c = true) (hs : ∀ d ∈ s, NameChars.isName d = true)
    {blank : CodePoint} (hblank : isBlank blank = true) : scan start (c :: s ++ [blank]) = some start := by
  have hstep : step start c = .on ⟨.word (isEscapePrefix c), []⟩ := codeStep_letter false [] hc
  rw [List.cons_append, scan, hstep]
  exact scan_word [] hs hblank

/-! ## Lists -/

omit [NameChars] in
theorem trim_append {pad s : Str} (hpad : ∀ c ∈ pad, isBlank c = true) : trim (pad ++ s) = trim s := by
  rw [trim, List.dropWhile_append_of_pos hpad, trim]

omit [NameChars] in
theorem intercalate_cons_cons (d d' : Str) (ds : List Str) :
    (lit ", ").intercalate (d :: d' :: ds) = d ++ cp ',' :: (cp ' ' :: (lit ", ").intercalate (d' :: ds)) := by
  rw [List.intercalate_cons_cons, List.append_assoc]
  rfl

/-- Nothing stands before the first character, which is not a blank. -/
def Bare (d : Str) : Prop := ∃ c s, d = c :: s ∧ isBlank c = false

omit [NameChars] in
theorem Bare.trim {d : Str} (hd : Bare d) : trim d = d := by
  obtain ⟨c, s, rfl, hc⟩ := hd
  rw [SqlScanner.trim, List.dropWhile_cons_of_neg]
  rw [hc]
  exact Bool.false_ne_true

omit [NameChars] in
theorem takeWhile_blanks {pad d : Str} (s : Str) (hpad : ∀ c ∈ pad, isBlank c = true) (hd : Bare d) :
    (pad ++ d ++ s).takeWhile isBlank = pad := by
  obtain ⟨c, d, rfl, hc⟩ := hd
  rw [List.append_assoc, List.takeWhile_append_of_pos hpad, List.cons_append, List.takeWhile_cons_of_neg,
    List.append_nil]
  rw [hc]
  exact Bool.false_ne_true

omit [NameChars] in
/-- An item that is a part after some blanks are just those blanks and the part. -/
theorem item_eq {pad item d rest tail : Str} (hpad : ∀ c ∈ pad, isBlank c = true) (hd : Bare d)
    (hitem : SqlScanner.trim item = d) (h : pad ++ d ++ tail = item ++ rest) : item = pad ++ d ∧ tail = rest := by
  have hsplit : item.takeWhile isBlank ++ d = item := by
    rw [← hitem]
    exact List.takeWhile_append_dropWhile
  have hblanks : ∀ c ∈ item.takeWhile isBlank, isBlank c = true := fun c hc => List.mem_takeWhile_imp hc
  have hpads : item.takeWhile isBlank = pad := by
    rw [← takeWhile_blanks rest hblanks hd, hsplit, ← h, takeWhile_blanks tail hpad hd]
  rw [hpads] at hsplit
  rw [← hsplit] at h
  exact ⟨hsplit.symm, List.append_cancel_left h⟩

theorem contained_iff {d : Str} : contained d = true ↔ ∃ st', scan start d = some st' ∧ st'.closed = true := by
  rw [contained, Option.any_eq_true]

/-- What leaves nothing open does not matter before a part. -/
theorem contained_append {x : Str} (y : Str) (h : scan start x = some start) : contained (x ++ y) = contained y := by
  rw [contained, scan_append, h]
  rfl

/-- A contained part is the first item, and what follows it decides about the others. -/
theorem readItems_contained {pad d : Str} (tail : Str) (hpad : ∀ c ∈ pad, isBlank c = true)
    (hd : contained d = true) :
    readItems start (pad ++ d ++ cp ',' :: tail) = (readItems start tail).map (fun items => (pad ++ d) :: items) ∧
      readItems start (pad ++ d ++ [cp ')']) = some [pad ++ d] := by
  obtain ⟨st', hscan, hclosed⟩ := contained_iff.mp hd
  have hpadded : scan start (pad ++ d) = some st' := by
    rw [scan_append, scan_blanks hpad]
    exact hscan
  constructor
  · rw [readItems_append _ hpadded, readItems, step_comma hclosed]
    show ((readItems start tail).map _).map (push (pad ++ d)) = _
    rw [Option.map_map]
    congr 1
    funext items
    show (pad ++ d ++ []) :: items = _
    rw [List.append_nil]
  · rw [readItems_append _ hpadded, readItems, step_close hclosed]
    show some [pad ++ d ++ []] = _
    rw [List.append_nil]

/-- Where the first item is a part after some blanks, the part is contained. -/
theorem contained_of_readItems {pad d tail : Str} {items : List Str} {item : Str}
    (hpad : ∀ c ∈ pad, isBlank c = true) (hd : Bare d) (h : readItems start (pad ++ d ++ tail) = some (item :: items))
    (hitem : SqlScanner.trim item = d) :
    contained d = true ∧ ((tail = [cp ')'] ∧ items = []) ∨
      ∃ rest, tail = cp ',' :: rest ∧ readItems start rest = some items) := by
  obtain ⟨item', st', hscan, hclosed, hends⟩ := readItems_cases h
  have hfirst : item' = item := by
    rcases hends with ⟨_, hitems⟩ | ⟨_, _, _, _, hitems⟩
    · exact (List.cons.inj hitems).1.symm
    · exact (List.cons.inj hitems).1.symm
  subst hfirst
  have hcontained : item' = pad ++ d → contained d = true := by
    intro heq
    rw [heq, scan_append, scan_blanks hpad] at hscan
    exact contained_iff.mpr ⟨st', hscan, hclosed⟩
  rcases hends with ⟨hs, hitems⟩ | ⟨rest, items', hs, hrest, hitems⟩
  · obtain ⟨heq, htail⟩ := item_eq hpad hd hitem hs
    exact ⟨hcontained heq, .inl ⟨htail, (List.cons.inj hitems).2⟩⟩
  · obtain ⟨heq, htail⟩ := item_eq hpad hd hitem hs
    exact ⟨hcontained heq, .inr ⟨rest, htail, (List.cons.inj hitems).2 ▸ hrest⟩⟩

/-- Parts after some blanks are read as the items exactly when each of them is contained. -/
theorem readItems_iff {pad d : Str} {ds : List Str} (hpad : ∀ c ∈ pad, isBlank c = true)
    (hds : ∀ d' ∈ d :: ds, Bare d') :
    (readItems start (pad ++ (lit ", ").intercalate (d :: ds) ++ [cp ')'])).map (List.map SqlScanner.trim) =
        some (d :: ds) ↔ ∀ d' ∈ d :: ds, contained d' = true := by
  have hbare := hds d List.mem_cons_self
  have htrim : SqlScanner.trim (pad ++ d) = d := (trim_append hpad).trans hbare.trim
  induction ds generalizing pad d with
  | nil =>
    rw [List.intercalate_singleton]
    constructor
    · intro h d' hd'
      obtain ⟨items, hread, hitems⟩ := Option.map_eq_some_iff.mp h
      obtain ⟨item, items, rfl, hitem, _⟩ := List.map_eq_cons_iff.mp hitems
      rw [List.mem_singleton.mp hd']
      exact (contained_of_readItems hpad hbare hread hitem).1
    · intro h
      rw [(readItems_contained [] hpad (h d List.mem_cons_self)).2]
      exact congrArg (fun d' => some [d']) htrim
  | cons d' ds ih =>
    have hblank : ∀ c ∈ [cp ' '], isBlank c = true := by
      intro c hc
      rw [List.mem_singleton.mp hc]
      rfl
    have hmore : ∀ d'' ∈ d' :: ds, Bare d'' := fun d'' hd'' => hds d'' (List.mem_cons_of_mem d hd'')
    have hnext : Bare d' := hmore d' List.mem_cons_self
    have hrest : (readItems start ([cp ' '] ++ (lit ", ").intercalate (d' :: ds) ++ [cp ')'])).map
        (List.map SqlScanner.trim) = some (d' :: ds) ↔ ∀ d'' ∈ d' :: ds, contained d'' = true :=
      ih hblank hmore hnext ((trim_append hblank).trans hnext.trim)
    have htext : pad ++ (lit ", ").intercalate (d :: d' :: ds) ++ [cp ')'] =
        pad ++ d ++ cp ',' :: ([cp ' '] ++ (lit ", ").intercalate (d' :: ds) ++ [cp ')']) := by
      rw [intercalate_cons_cons]
      simp only [List.append_assoc, List.cons_append, List.nil_append]
    rw [htext, List.forall_mem_cons, ← hrest]
    constructor
    · intro h
      obtain ⟨items, hread, hitems⟩ := Option.map_eq_some_iff.mp h
      obtain ⟨item, items, rfl, hitem, hothers⟩ := List.map_eq_cons_iff.mp hitems
      obtain ⟨hd, hends⟩ := contained_of_readItems hpad hbare hread hitem
      refine ⟨hd, ?_⟩
      rcases hends with ⟨htail, _⟩ | ⟨rest, htail, hread'⟩
      · exact absurd (List.cons.inj htail).1 (by decide)
      · rw [(List.cons.inj htail).2, hread', Option.map_some, hothers]
    · rintro ⟨hd, h⟩
      obtain ⟨items, hread, hitems⟩ := Option.map_eq_some_iff.mp h
      rw [(readItems_contained _ hpad hd).1, hread]
      show some (SqlScanner.trim (pad ++ d) :: items.map SqlScanner.trim) = _
      rw [htrim, hitems]

theorem readList_iff {ds : List Str} (hds : ∀ d ∈ ds, Bare d) :
    readList ((lit ", ").intercalate ds ++ [cp ')']) = some ds ↔ ∀ d ∈ ds, contained d = true := by
  cases ds with
  | nil =>
    have hempty : readItems start [cp ')'] = some [[]] := by
      rw [readItems, step_close rfl]
      rfl
    constructor
    · intro _ d hd
      cases hd
    · intro _
      show (readItems start [cp ')']).map _ = _
      rw [hempty]
      rfl
  | cons d ds =>
    rw [← @readItems_iff _ [] d ds (by nofun) hds, List.nil_append, readList]
    have hne : ∀ items : List Str, (if items = [[]] then [] else items) = d :: ds ↔ items = d :: ds := by
      intro items
      by_cases hitems : items = [[]]
      · rw [if_pos hitems, hitems]
        constructor
        · nofun
        · intro h
          obtain ⟨c, s, hd, _⟩ := hds d List.mem_cons_self
          rw [hd] at h
          cases h
      · rw [if_neg hitems]
    rw [Option.map_eq_some_iff, Option.map_eq_some_iff]
    simp only [hne]

end Scanner

end Support.SqlScanner
