import IsaCloud.Database.SqlTokens

/-!
# Types in a migration script

`execute_script` of the SQLite client rewrites a script for PostgreSQL: ILIKE
becomes LIKE, and then the names of eight types are replaced as plain text, one
after the other. What the script means is a matter of its lexemes: comments and all
kinds of literals, quoted names, and the words among which the types are.
-/

namespace IsaCloud.Database

set_option autoImplicit false

open Support Support.Text Support.Python

/-! ## The method -/

/-- The replacements, in their order. -/
def typeTable : List (Str × Str) :=
  [(lit "SERIAL", lit "INTEGER"), (lit "BIGSERIAL", lit "INTEGER"), (lit "JSONB", lit "TEXT"),
    (lit "TEXT[]", lit "TEXT"), (lit "TIMESTAMP WITH TIME ZONE", lit "TEXT"), (lit "TIMESTAMPTZ", lit "TEXT"),
    (lit "UUID", lit "TEXT"), (lit "BOOLEAN", lit "INTEGER")]

def replaceEach : List (Str × Str) → Str → Str
  | [], s => s
  | e :: table, s => replaceEach table (replaceText e.1 e.2 s)

/-- The text handed to `executescript`. -/
def sqliteScript [RegexTables] (script : Str) : Str := replaceEach typeTable (convertPgSyntax script)

/-! ## Lexemes -/

/-- The body of an escape literal: a quote is doubled or follows a backslash, and no backslash is the last character. -/
def escapedBody : Str → Bool
  | [] => true
  | [c] => decide (c ≠ apostrophe ∧ c ≠ cp '\\')
  | c :: d :: s =>
    if c = cp '\\' then escapedBody s
    else if c = apostrophe then decide (d = apostrophe) && escapedBody s
    else escapedBody (d :: s)

/-- The rest of a block comment, which closes with the last character; comments nest. -/
def closesComment (depth : Nat) : Str → Bool
  | [] => false
  | [_] => false
  | c :: d :: s =>
    if c = cp '*' ∧ d = cp '/' then
      match depth with
      | 0 => s.isEmpty
      | depth + 1 => closesComment depth s
    else if c = cp '/' ∧ d = cp '*' then closesComment (depth + 1) s
    else closesComment depth (d :: s)

def isLineEnd (c : CodePoint) : Bool := decide (c.val = 10 ∨ c.val = 13)

inductive Lexeme where
  | token (t : Token)
  /-- `E'...'`, in which a backslash escapes. -/
  | escapeLiteral (e : CodePoint) (s : Str)
  | dollarQuote (tag s : Str)
  | lineComment (s : Str)
  | blockComment (s : Str)
  deriving DecidableEq

namespace Lexeme

def word (s : Str) : Lexeme := .token (.word s)

def symbol (c : CodePoint) : Lexeme := .token (.symbol c)

def text : Lexeme → Str
  | .token t => t.text
  | .escapeLiteral e s => e :: apostrophe :: s ++ [apostrophe]
  | .dollarQuote tag s => dollarSign :: tag ++ [dollarSign] ++ s ++ (dollarSign :: tag ++ [dollarSign])
  | .lineComment s => lit "--" ++ s
  | .blockComment s => lit "/*" ++ s

def valid : Lexeme → Bool
  | .token t => t.valid
  | .escapeLiteral e s => decide (e = cp 'e' ∨ e = cp 'E') && escapedBody s
  | .dollarQuote tag s =>
    let delimiter := dollarSign :: tag ++ [dollarSign]
    tag.head?.all nameStart && tag.all (fun c => nameChar c && decide (c ≠ dollarSign)) &&
      (List.range s.length).all fun i => !decide (delimiter <+: (s ++ delimiter).drop i)
  | .lineComment s => s.all fun c => !isLineEnd c
  | .blockComment s => closesComment 0 s

/-- Neither merges with the other, nor do the two begin a comment. -/
def apart : Lexeme → Lexeme → Bool
  | .token (.word w), .token (.literal _) => decide (w ≠ lit "e" ∧ w ≠ lit "E")
  | .token t, .token t' => t.apart t'
  | .token (.word _), .escapeLiteral _ _ | .token (.number _), .escapeLiteral _ _ => false
  | .token (.placeholder _), .escapeLiteral _ _ | .token (.word _), .dollarQuote _ _ => false
  | .token (.symbol c), .lineComment _ => decide (c ≠ cp '-')
  | .escapeLiteral _ _, .token (.literal _) => false
  | .lineComment _, .token (.symbol c) => isLineEnd c
  | .lineComment _, _ => false
  | _, _ => true

/-- No literal comes after an escape literal and blanks: it would go on escaping. -/
def separated (escaping : Bool) : List Lexeme → Bool
  | [] => true
  | .escapeLiteral _ _ :: ls => separated true ls
  | .token (.literal _) :: ls => !escaping && separated false ls
  | .token (.symbol c) :: ls => separated (escaping && isSpace c) ls
  | .lineComment _ :: ls => separated escaping ls
  | _ :: ls => separated false ls

end Lexeme

/-- A script of PostgreSQL. -/
structure Script where
  lexemes : List Lexeme
  valid : lexemes.all Lexeme.valid = true
  apart : lexemes.IsChain fun l l' => l.apart l' = true
  separated : Lexeme.separated false lexemes = true

def lexemesText (ls : List Lexeme) : Str := ls.flatMap Lexeme.text

def Script.text (s : Script) : Str := lexemesText s.lexemes

/-! ## Types -/

inductive PgType where
  | serial
  | bigserial
  | jsonb
  | text
  | timestampWithTimeZone
  | timestamptz
  | uuid
  | boolean
  deriving DecidableEq

namespace PgType

def all : List PgType := [serial, bigserial, jsonb, text, timestampWithTimeZone, timestamptz, uuid, boolean]

def words : PgType → List Str
  | serial => [lit "SERIAL"]
  | bigserial => [lit "BIGSERIAL"]
  | jsonb => [lit "JSONB"]
  | text => [lit "TEXT"]
  | timestampWithTimeZone => [lit "TIMESTAMP", lit "WITH", lit "TIME", lit "ZONE"]
  | timestamptz => [lit "TIMESTAMPTZ"]
  | uuid => [lit "UUID"]
  | boolean => [lit "BOOLEAN"]

def lexemes (ty : PgType) : List Lexeme := (ty.words.map Lexeme.word).intersperse (Lexeme.symbol (cp ' '))

/-- The type SQLite gets. -/
def sqlite : PgType → Str
  | serial | bigserial | boolean => lit "INTEGER"
  | jsonb | text | timestampWithTimeZone | timestamptz | uuid => lit "TEXT"

end PgType

/-- What a script for SQLite spells otherwise: a type, with the dimensions of an array, and the keyword. -/
inductive Occurrence where
  | type (ty : PgType) (dims : Nat)
  | ilike (s : Str)
  deriving DecidableEq

namespace Occurrence

def brackets : Nat → List Lexeme
  | 0 => []
  | n + 1 => Lexeme.symbol (cp '[') :: Lexeme.symbol (cp ']') :: brackets n

def lexemes : Occurrence → List Lexeme
  | .type ty dims => ty.lexemes ++ brackets dims
  | .ilike s => [Lexeme.word s]

def text (o : Occurrence) : Str := lexemesText o.lexemes

/-- Arrays are stored as JSON. -/
def sqlite : Occurrence → Str
  | .type ty 0 => ty.sqlite
  | .type _ (_ + 1) => lit "TEXT"
  | .ilike _ => lit "LIKE"

end Occurrence

/-! ## Reading a script -/

def readBrackets : List Lexeme → Nat
  | .token (.symbol a) :: .token (.symbol b) :: ls => if a = cp '[' ∧ b = cp ']' then readBrackets ls + 1 else 0
  | _ => 0

/-- The occurrence a script begins with; TEXT alone is a type of SQLite, too. -/
def readOccurrence (ls : List Lexeme) : Option Occurrence :=
  match PgType.all.find? fun ty => decide (ty.lexemes <+: ls) with
  | some ty =>
    let dims := readBrackets (ls.drop ty.lexemes.length)
    if ty = .text ∧ dims = 0 then none else some (.type ty dims)
  | none =>
    match ls with
    | .token (.word s) :: _ => if isIlike s then some (.ilike s) else none
    | _ => none

/-- A script as occurrences, with the texts between them. -/
structure Reading where
  lead : Str
  units : List (Occurrence × Str)

/-- `skip` counts what is left of an occurrence. -/
def readFrom (skip : Nat) : List Lexeme → Reading
  | [] => ⟨[], []⟩
  | l :: ls =>
    if 0 < skip then readFrom (skip - 1) ls
    else
      match readOccurrence (l :: ls) with
      | some o =>
        let r := readFrom (o.lexemes.length - 1) ls
        ⟨[], (o, r.lead) :: r.units⟩
      | none =>
        let r := readFrom 0 ls
        ⟨l.text ++ r.lead, r.units⟩

namespace Reading

def render (f : Occurrence → Str) (r : Reading) : Str := r.lead ++ r.units.flatMap fun u => f u.1 ++ u.2

/-- The texts between the occurrences. -/
def others (r : Reading) : List Str := r.lead :: r.units.map Prod.snd

end Reading

def Script.reading (s : Script) : Reading := readFrom 0 s.lexemes

/-- Every occurrence is spelled as SQLite has it, and nothing else is changed. -/
def Script.translation (s : Script) : Str := s.reading.render Occurrence.sqlite

/-! ## The exact condition -/

/-- The types the replacements get right. -/
def Occurrence.supported : Occurrence → Bool
  | .type ty 0 => decide (ty ≠ .bigserial)
  | .type ty 1 => decide (ty = .text ∨ ty = .jsonb)
  | .type _ _ => false
  | .ilike _ => true

/-- What makes a name of the table out of a TEXT right before it. -/
def completions : List Str := [lit "IMESTAMP WITH TIME ZONE", lit "IMESTAMPTZ"]

/-- No name of the table and no ILIKE is found in other text, every type is one of the supported ones, and nothing
after an array completes the TEXT it becomes to another name. -/
structure Reading.Plain [RegexTables] (r : Reading) : Prop where
  others : ∀ s ∈ r.others, containsIlike s = false ∧ ∀ e ∈ typeTable, ¬ e.1 <:+: s
  supported : ∀ u ∈ r.units, u.1.supported = true
  completions : ∀ u ∈ r.units, ∀ ty, u.1 = .type ty 1 → ∀ tail ∈ completions, ¬ tail <+: u.2

end IsaCloud.Database
