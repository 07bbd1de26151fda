import IsaCloud.Database.SqlText

/-!
# Statements as PostgreSQL reads them

A statement is a row of tokens: string literals, quoted identifiers, `$N`
placeholders, numbers, names and keywords, and single symbols, spaces among them.
Two tokens may only stand side by side where PostgreSQL reads them as two. From
the tokens one can tell what SQLite should be given for the statement.
-/

namespace IsaCloud.Database

set_option autoImplicit false

open Support Support.Text Support.Python

/-! ## Tokens -/

def apostrophe : CodePoint := 39

def doubleQuote : CodePoint := 34

def dollarSign : CodePoint := cp '$'

def period : CodePoint := cp '.'

/-- What PostgreSQL takes for part of a name: everything beyond ASCII, too. -/
def nameChar (c : CodePoint) : Bool := decide (0x80 ≤ c.val) || asciiWord c || decide (c = dollarSign)

def nameStart (c : CodePoint) : Bool := nameChar c && !isDigit c && decide (c ≠ dollarSign)

inductive Token where
  | literal (s : Str)
  | quoted (s : Str)
  | placeholder (digits : Str)
  | number (s : Str)
  | word (s : Str)
  | symbol (c : CodePoint)
  deriving DecidableEq

/-- A text in quotes; a quote in it is doubled. -/
def enclosed (q : CodePoint) (s : Str) : Str := q :: (s.flatMap fun c => if c = q then [q, q] else [c]) ++ [q]

namespace Token

def text : Token → Str
  | .literal s => enclosed apostrophe s
  | .quoted s => enclosed doubleQuote s
  | .placeholder digits => dollarSign :: digits
  | .number s => s
  | .word s => s
  | .symbol c => [c]

def valid : Token → Bool
  | .literal _ => true
  | .quoted _ => true
  | .placeholder digits => !digits.isEmpty && digits.all isDigit && decide (0 < digitsValue digits)
  | .number s => s.head?.any isDigit && s.all fun c => asciiWord c || decide (c = period)
  | .word s => s.head?.any nameStart && s.all nameChar
  | .symbol c => decide (c.val < 0x80) && !asciiWord c && decide (c ∉ [apostrophe, doubleQuote, dollarSign])

/-- Neither merges with the other, nor do the two begin a comment. -/
def apart : Token → Token → Bool
  | .literal _, .literal _ => false
  | .quoted _, .quoted _ => false
  | .word _, .word _ | .word _, .number _ | .word _, .placeholder _ => false
  | .number _, .word _ | .number _, .number _ => false
  | .placeholder _, .word _ | .placeholder _, .number _ => false
  | .symbol c, .symbol d => !(decide (c = cp '-' ∧ d = cp '-') || decide (c = cp '/' ∧ d = cp '*'))
  | _, _ => true

end Token

/-- A statement of PostgreSQL without comments. -/
structure PgStatement where
  tokens : List Token
  valid : tokens.all Token.valid = true
  apart : tokens.IsChain fun t t' => t.apart t' = true

def textOf (ts : List Token) : Str := ts.flatMap Token.text

/-! ## What SQLite should be given -/

/-- The keyword; PostgreSQL ignores the case of ASCII letters only. -/
def isIlike (s : Str) : Bool := decide (lower s = lit "ilike")

namespace Token

/-- The schema's own name. -/
def names (schema : Str) : Token → Bool
  | .word s => decide (s = schema) && !isIlike s
  | _ => false

/-- The token for SQLite, the schema aside. -/
def converted : Token → Str
  | .placeholder _ => [cp '?']
  | .word s => if isIlike s then lit "LIKE" else s
  | t => t.text

/-- Every token but a placeholder and the keyword ILIKE. -/
def kept : Token → Bool
  | .placeholder _ => false
  | .word s => !isIlike s
  | _ => true

end Token

def convertedText (ts : List Token) : Str := ts.flatMap Token.converted

/-- The point after the schema's name becomes an underscore; `named` tells that the name was just read. -/
def translatedFrom (schema : Str) (named : Bool) : List Token → Str
  | [] => []
  | t :: ts =>
    (if named ∧ t = .symbol period then [cp '_'] else t.converted) ++ translatedFrom schema (t.names schema) ts

def translated (schema : Str) (ts : List Token) : Str := translatedFrom schema false ts

/-! ## Binding -/

/-- What is bound by position: the placeholders, with their numbers, and any `?` of the statement itself. -/
def markers : List Token → List (Option Nat)
  | [] => []
  | .placeholder digits :: ts => some (digitsValue digits) :: markers ts
  | .symbol c :: ts => if c = cp '?' then none :: markers ts else markers ts
  | _ :: ts => markers ts

section Binding
variable {F : Type} [PyFloat F]

/-- What PostgreSQL binds to `$n`, as the value SQLite takes for it. -/
def pgParam (params : List (SqlValue F)) (n : Nat) : Option (SqlValue F) :=
  if n = 0 then none else params[n - 1]?.bind fun v => (serializeValue v).toOption

variable [RegexTables]

/-- The statement handed to SQLite is the translation, and at each placeholder SQLite binds what its number selects. -/
def Preserves (F : Type) [PyFloat F] (schema : Str) (s : PgStatement) : Prop :=
  ∀ (params : List (SqlValue F)) (st : Statement F), sqliteStatement schema (textOf s.tokens) params = .ok st →
    st.sql = translated schema s.tokens ∧
      ∀ k n : Nat, (markers s.tokens)[k]? = some (some n) → st.params[k]? = pgParam params n

end Binding

/-! ## The exact condition -/

section Conditions
variable [RegexTables]

/-- A dollar sign before a decimal digit. -/
def containsPlaceholder : Str → Bool
  | [] => false
  | c :: s => (decide (c = dollarSign) && s.head?.any RegexTables.isDecimal) || containsPlaceholder s

/-- The word ILIKE, whatever the case of its letters. -/
def containsIlikeFrom (afterWord : Bool) : Str → Bool
  | [] => false
  | c :: s => (!afterWord && matchesLetters ilikeLetters (c :: s)) || containsIlikeFrom (RegexTables.isWord c) s

def containsIlike (s : Str) : Bool := containsIlikeFrom false s

/-- No placeholder and no ILIKE is found within another token. -/
def Untouched (ts : List Token) : Prop :=
  ∀ t ∈ ts, t.kept = true → containsIlike t.text = false ∧ containsPlaceholder t.text = false

end Conditions

def qualifier (schema : Str) : Str := schema ++ [period]

/-- The text of the qualifier is found at the schema's own name only. -/
def OnlyQualifiers (schema : Str) : List Token → Prop
  | [] => True
  | t :: ts =>
    (∀ i < t.converted.length, qualifier schema <+: (convertedText (t :: ts)).drop i → i = 0 ∧ t.names schema = true) ∧
      OnlyQualifiers schema ts

/-- The schema's own name stands before a point somewhere. -/
def qualified (schema : Str) : List Token → Bool
  | t :: t' :: ts => (t.names schema && decide (t' = .symbol period)) || qualified schema (t' :: ts)
  | _ => false

def SchemaApart (schema : Str) (ts : List Token) : Prop :=
  if schema = publicSchema then qualified schema ts = false else OnlyQualifiers schema ts

/-- The placeholders are numbered as they come. -/
def InOrder (ts : List Token) : Prop := ∀ k n : Nat, (markers ts)[k]? = some (some n) → n = k + 1

end IsaCloud.Database
