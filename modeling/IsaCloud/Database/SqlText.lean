import IsaCloud.Support.PyDump
import IsaCloud.Support.Encoding

/-!
# SQL texts and parameters for SQLite

A statement written for PostgreSQL is rewritten before SQLite sees it: `$N`
becomes `?`, the word ILIKE becomes LIKE, a schema qualifier becomes a table
prefix, and parameters that are lists or dictionaries become JSON text. What
`re` takes for a digit and for a word character is a parameter.
-/

namespace IsaCloud.Database

set_option autoImplicit false

open Support Support.Text Support.Python Support.Encoding

def asciiWord (c : CodePoint) : Bool :=
  isDigit c || decide (65 ≤ c.val ∧ c.val ≤ 90) || decide (97 ≤ c.val ∧ c.val ≤ 122) || decide (c.val = 95)

/-- The character classes of `re`. -/
class RegexTables where
  isDecimal : CodePoint → Bool
  isWord : CodePoint → Bool
  isDecimal_ascii : ∀ c : CodePoint, c.val < 0x80 → isDecimal c = isDigit c
  isWord_ascii : ∀ c : CodePoint, c.val < 0x80 → isWord c = asciiWord c

/-- The classes of ASCII, and nothing else. -/
@[reducible] def asciiTables : RegexTables where
  isDecimal := isDigit
  isWord := asciiWord
  isDecimal_ascii _ _ := rfl
  isWord_ascii _ _ := rfl

section Rewriting
variable [RegexTables]

/-- `re.sub(r"\\$\\d+", "?", sql)`; inside a match the digits are dropped. -/
def placeholdersFrom (inside : Bool) : Str → Str
  | [] => []
  | c :: s =>
    if inside && RegexTables.isDecimal c then placeholdersFrom true s
    else if decide (c = cp '$') && s.head?.any RegexTables.isDecimal then cp '?' :: placeholdersFrom true s
    else c :: placeholdersFrom false s

def convertPgPlaceholders (sql : Str) : Str := placeholdersFrom false sql

/-- The characters that match each letter of ILIKE when case is ignored. -/
def ilikeLetters : List (List CodePoint) :=
  [[cp 'I', cp 'i', 0x130, 0x131], [cp 'L', cp 'l'], [cp 'I', cp 'i', 0x130, 0x131], [cp 'K', cp 'k', 0x212a],
    [cp 'E', cp 'e']]

def matchesLetters : List (List CodePoint) → Str → Bool
  | [], s => !s.head?.any RegexTables.isWord
  | _ :: _, [] => false
  | letters :: rest, c :: s => decide (c ∈ letters) && matchesLetters rest s

/-- `re.sub(r"\\bILIKE\\b", "LIKE", sql, flags=re.IGNORECASE)`; `skip` counts what is left of a match. -/
def ilikeFrom (skip : Nat) (afterWord : Bool) : Str → Str
  | [] => []
  | c :: s =>
    if 0 < skip then ilikeFrom (skip - 1) (RegexTables.isWord c) s
    else if !afterWord && matchesLetters ilikeLetters (c :: s) then lit "LIKE" ++ ilikeFrom 4 true s
    else c :: ilikeFrom 0 (RegexTables.isWord c) s

def convertPgSyntax (sql : Str) : Str := ilikeFrom 0 false sql

def replaceFrom (old new : Str) (skip : Nat) : Str → Str
  | [] => []
  | c :: s =>
    if 0 < skip then replaceFrom old new (skip - 1) s
    else if old <+: c :: s then new ++ replaceFrom old new (old.length - 1) s
    else c :: replaceFrom old new 0 s

/-- `s.replace(old, new)` for an `old` that is not empty. -/
def replaceText (old new s : Str) : Str := replaceFrom old new 0 s

def publicSchema : Str := lit "public"

/-- The text SQLite gets. -/
def sqliteText (schema sql : Str) : Str :=
  let sqliteSql := convertPgPlaceholders (convertPgSyntax sql)
  if schema ≠ publicSchema then replaceText (schema ++ lit ".") (schema ++ lit "_") sqliteSql else sqliteSql

end Rewriting

/-! ## Parameters -/

inductive SqlValue (F : Type) where
  | value (v : PyValue F)
  | bytes (b : Bytes)

section Parameters
variable {F : Type} [PyFloat F]

def serializeValue : SqlValue F → Except PyError (SqlValue F)
  | .value (.dict m) => (PyValue.dumps (.dict m)).map fun text => .value (.str text)
  | .value (.list xs) => (PyValue.dumps (.list xs)).map fun text => .value (.str text)
  | v => .ok v

def serializeAll : List (SqlValue F) → Except PyError (List (SqlValue F))
  | [] => .ok []
  | v :: vs =>
    match serializeValue v with
    | .error e => .error e
    | .ok v' => (serializeAll vs).map (v' :: ·)

end Parameters

/-- A statement as the database gets it. -/
structure Statement (F : Type) where
  sql : Str
  params : List (SqlValue F)

/-- A dictionary `{'sql': str, 'params': list}`; a key may be missing. -/
structure Operation (F : Type) where
  sql : Option Str
  params : Option (List (SqlValue F))

namespace Operation
variable {F : Type} [PyFloat F]

def text (op : Operation F) : Str := op.sql.getD []

def values (op : Operation F) : List (SqlValue F) := op.params.getD []

end Operation

section Prepare
variable [RegexTables] {F : Type} [PyFloat F]

/-- The statement SQLite is given, unless a parameter has no JSON text. -/
def sqliteStatement (schema sql : Str) (params : List (SqlValue F)) : Except PyError (Statement F) :=
  (serializeAll params).map fun values => ⟨sqliteText schema sql, values⟩

end Prepare

end IsaCloud.Database
