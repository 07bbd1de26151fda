import IsaCloud.Support.JsonText

/-!
# Built-in functions on decoded JSON

`str`, `int` and the truth value of what `json.loads` returns. The tables of the
Unicode database enter as `Unicode`; ASCII characters are decided here.
-/

namespace Support

set_option autoImplicit false

open Text Python

class Unicode where
  isPrintable : CodePoint → Bool
  isAlnum : CodePoint → Bool
  lower : CodePoint → Str
  /-- The value of a decimal digit of any script. -/
  decimal : CodePoint → Option Nat

/-- The tables for text that stays within ASCII. -/
@[reducible] def asciiUnicode : Unicode where
  isPrintable _ := false
  isAlnum _ := false
  lower c := [c]
  decimal _ := none

namespace Python
variable [Unicode]

def isPrintable (c : CodePoint) : Bool :=
  if c.val < 0x80 then decide (0x20 ≤ c.val ∧ c.val ≤ 0x7e) else Unicode.isPrintable c

def isAlnum (c : CodePoint) : Bool :=
  if c.val < 0x80 then
    isDigit c || decide ((65 ≤ c.val ∧ c.val ≤ 90) ∨ (97 ≤ c.val ∧ c.val ≤ 122))
  else Unicode.isAlnum c

/-- `c.lower()` of one character, which may be several. -/
def lowerChar (c : CodePoint) : Str := if c.val < 0x80 then [lowerPoint c] else Unicode.lower c

def decimalValue (c : CodePoint) : Option Nat :=
  if isDigit c then some (digitValue c) else if c.val < 0x80 then none else Unicode.decimal c

/-! ## `repr` of a string -/

def hexText : Nat → Nat → Str
  | 0, _ => []
  | w + 1, n => hexText w (n / 16) ++ [Json.hexDigit (n % 16)]

def singleQuote : CodePoint := 39

def reprQuote (s : Str) : CodePoint :=
  if singleQuote ∈ s ∧ Json.quote ∉ s then Json.quote else singleQuote

def reprPoint (quote c : CodePoint) : Str :=
  if c = quote ∨ c = Json.backslash then [Json.backslash, c]
  else if c = 9 then [Json.backslash, cp 't']
  else if c = 10 then [Json.backslash, cp 'n']
  else if c = 13 then [Json.backslash, cp 'r']
  else if isPrintable c then [c]
  else if c.val < 0x100 then Json.backslash :: cp 'x' :: hexText 2 c.val
  else if c.val < 0x10000 then Json.backslash :: cp 'u' :: hexText 4 c.val
  else Json.backslash :: cp 'U' :: hexText 8 c.val

def strRepr (s : Str) : Str :=
  reprQuote s :: (s.flatMap (reprPoint (reprQuote s)) ++ [reprQuote s])

/-! ## `int` of a string -/

/-- Digits with single underscores between them; `digit` after a digit. -/
def intDigits (digit : Bool) : Str → Option (List Nat)
  | [] => if digit then some [] else none
  | c :: rest =>
    if c = cp '_' then (if digit then intDigits false rest else none)
    else
      match decimalValue c with
      | none => none
      | some d => (intDigits true rest).map (d :: ·)

def invalidInt : PyError := ⟨.valueError, lit "invalid literal for int() with base 10"⟩

def intSign (s : Str) : Int × Str :=
  match s with
  | c :: rest => if c = cp '-' then (-1, rest) else if c = cp '+' then (1, rest) else (1, s)
  | [] => (1, [])

def intOfStr (s : Str) : Except PyError Int :=
  match intDigits false (intSign (strip s)).2 with
  | none => .error invalidInt
  | some ds =>
    if Json.intMaxStrDigits < ds.length then .error Json.tooManyDigits
    else .ok ((intSign (strip s)).1 * (ds.foldl (fun n d => 10 * n + d) 0 : Nat))

end Python

namespace Json
variable {F : Type} [PyFloat F] [Unicode]

/-- `bool(j)`. -/
def truthy : Json F → Bool
  | .null => false
  | .bool b => b
  | .int n => n != 0
  | .float x => !PyFloat.isZero x
  | .str s => !s.isEmpty
  | .arr xs => !xs.isEmpty
  | .obj m => !m.isEmpty

mutual
/-- `repr(j)`. -/
def pyRepr : Json F → Str
  | .null => lit "None"
  | .bool true => lit "True"
  | .bool false => lit "False"
  | .int n => intText n
  | .float x => PyFloat.repr x
  | .str s => strRepr s
  | .arr [] => lit "[]"
  | .arr (x :: xs) => openBracket :: (pyRepr x ++ reprElems xs)
  | .obj [] => [openBrace, closeBrace]
  | .obj ((k, v) :: m) => openBrace :: (strRepr k ++ (lit ": " ++ (pyRepr v ++ reprMembers m)))

def reprElems : List (Json F) → Str
  | [] => [closeBracket]
  | x :: xs => lit ", " ++ (pyRepr x ++ reprElems xs)

def reprMembers : List (Str × Json F) → Str
  | [] => [closeBrace]
  | (k, v) :: m => lit ", " ++ (strRepr k ++ (lit ": " ++ (pyRepr v ++ reprMembers m)))
end

/-- `str(j)`. -/
def pyStr : Json F → Str
  | .str s => s
  | j => pyRepr j

def typeName : Json F → Str
  | .null => lit "NoneType"
  | .bool _ => lit "bool"
  | .int _ => lit "int"
  | .float _ => lit "float"
  | .str _ => lit "str"
  | .arr _ => lit "list"
  | .obj _ => lit "dict"

/-- `int(j)`. -/
def pyInt : Json F → Except PyError Int
  | .bool b => .ok (if b then 1 else 0)
  | .int n => .ok n
  | .float x => PyFloat.trunc x
  | .str s => intOfStr s
  | j => .error ⟨.typeError, lit "int() argument must be a string, a bytes-like object or a real number, not '" ++
      typeName j ++ lit "'"⟩

/-- `[str(x) for x in j]`. -/
def strItems : Json F → Except PyError (List Str)
  | .str s => .ok (s.map fun c => [c])
  | .arr xs => .ok (xs.map pyStr)
  | .obj m => .ok (Members.keys m)
  | j => .error ⟨.typeError, lit "'" ++ typeName j ++ lit "' object is not iterable"⟩

end Json

end Support
