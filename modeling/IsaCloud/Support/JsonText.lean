import IsaCloud.Support.Json

/-!
# JSON text: `json.dumps` and `json.loads`

`compact` is `json.dumps` with separators `","` and `":"` and ASCII output,
`canonical` the same with `sort_keys`, `indented` the text with `indent=2`. `loads` follows the scanner of the
standard library: the language it accepts beyond JSON (`NaN`, `Infinity`), the
joining of escaped surrogate pairs, the last of several equal keys, the limits
on nesting and on the digits of an integer. Positions in error messages are
left out.
-/

namespace Support.Json

set_option autoImplicit false

open Text Python

variable {F : Type} [PyFloat F]

def quote : CodePoint := 34
def backslash : CodePoint := 92
def comma : CodePoint := 44
def colon : CodePoint := 58
def minus : CodePoint := 45
def openBracket : CodePoint := 91
def closeBracket : CodePoint := 93
def openBrace : CodePoint := 123
def closeBrace : CodePoint := 125
def letterU : CodePoint := 117

/-! ## Writing -/

def hexDigit (d : Nat) : CodePoint := Fin.ofNat 0x110000 (if d < 10 then 48 + d else 87 + d)

/-- The low sixteen bits, in four lower-case hexadecimal digits. -/
def hex4 (n : Nat) : Str :=
  [hexDigit (n / 4096 % 16), hexDigit (n / 256 % 16), hexDigit (n / 16 % 16), hexDigit (n % 16)]

def escapeUnit (u : Nat) : Str := backslash :: letterU :: hex4 u

/-- The escapes with a letter of their own: the code point and the letter. -/
def shortEscapes : List (CodePoint × CodePoint) :=
  [(quote, quote), (backslash, backslash), (10, cp 'n'), (13, cp 'r'), (9, cp 't'), (12, cp 'f'),
    (8, cp 'b')]

def highSurrogate (n : Nat) : Nat := 0xd800 + (n - 0x10000) / 0x400
def lowSurrogate (n : Nat) : Nat := 0xdc00 + (n - 0x10000) % 0x400

def escapePoint (c : CodePoint) : Str :=
  match shortEscapes.lookup c with
  | some letter => [backslash, letter]
  | none =>
    if 0x20 ≤ c.val ∧ c.val ≤ 0x7e then [c]
    else if c.val < 0x10000 then escapeUnit c.val
    else escapeUnit (highSurrogate c.val) ++ escapeUnit (lowSurrogate c.val)

def quoted (s : Str) : Str := quote :: (s.flatMap escapePoint ++ [quote])

mutual
def compact : Json F → Str
  | .null => lit "null"
  | .bool true => lit "true"
  | .bool false => lit "false"
  | .int n => intText n
  | .float x => PyFloat.dump x
  | .str s => quoted s
  | .arr [] => [openBracket, closeBracket]
  | .arr (x :: xs) => openBracket :: (compact x ++ compactElems xs)
  | .obj [] => [openBrace, closeBrace]
  | .obj ((k, v) :: m) => openBrace :: (quoted k ++ colon :: (compact v ++ compactMembers m))

/-- The elements after the first, up to the closing bracket. -/
def compactElems : List (Json F) → Str
  | [] => [closeBracket]
  | x :: xs => comma :: (compact x ++ compactElems xs)

def compactMembers : List (Str × Json F) → Str
  | [] => [closeBrace]
  | (k, v) :: m => comma :: (quoted k ++ colon :: (compact v ++ compactMembers m))
end

/-- A new line at a level of indentation. -/
def newline (level : Nat) : Str := 10 :: List.replicate (2 * level) 32

mutual
/-- The text with `indent=2`, inside this many levels. -/
def indented (level : Nat) : Json F → Str
  | .arr (x :: xs) =>
    openBracket :: (newline (level + 1) ++ (indented (level + 1) x ++ indentedElems level xs))
  | .obj ((k, v) :: m) =>
    openBrace :: (newline (level + 1) ++
      (quoted k ++ colon :: 32 :: (indented (level + 1) v ++ indentedMembers level m)))
  | j => compact j

def indentedElems (level : Nat) : List (Json F) → Str
  | [] => newline level ++ [closeBracket]
  | x :: xs =>
    comma :: (newline (level + 1) ++ (indented (level + 1) x ++ indentedElems level xs))

def indentedMembers (level : Nat) : List (Str × Json F) → Str
  | [] => newline level ++ [closeBrace]
  | (k, v) :: m =>
    comma :: (newline (level + 1) ++
      (quoted k ++ colon :: 32 :: (indented (level + 1) v ++ indentedMembers level m)))
end

/-- `json.dumps(j, sort_keys=True, separators=(",", ":"))`. -/
def canonical (j : Json F) : Str := compact (sorted j)

def intMaxStrDigits : Nat := 4300

def tooManyDigits : PyError :=
  ⟨.valueError, lit "Exceeds the limit (4300 digits) for integer string conversion"⟩

mutual
/-- No integer inside has more digits than the interpreter converts to text. -/
def intsFit : Json F → Bool
  | .int n => decide ((natText n.natAbs).length ≤ intMaxStrDigits)
  | .arr xs => intsFitElems xs
  | .obj m => intsFitMembers m
  | _ => true

def intsFitElems : List (Json F) → Bool
  | [] => true
  | x :: xs => intsFit x && intsFitElems xs

def intsFitMembers : List (Str × Json F) → Bool
  | [] => true
  | (_, v) :: m => intsFit v && intsFitMembers m
end

/-- `json.dumps` with the canonical options, which refuses integers that are too long. -/
def dumpsCanonical (j : Json F) : Except PyError Str :=
  if intsFit j then .ok (canonical j) else .error tooManyDigits

/-- `json.dumps(j, indent=2, sort_keys=True)`. -/
def dumpsIndented (j : Json F) : Except PyError Str :=
  if intsFit j then .ok (indented 0 (sorted j)) else .error tooManyDigits

/-- `json.dumps(j, indent=2)`. -/
def dumpsIndent (j : Json F) : Except PyError Str :=
  if intsFit j then .ok (indented 0 j) else .error tooManyDigits

/-! ## Reading -/

abbrev Scan (α : Type) := Except PyError (α × Str)

def decodeError (message : String) : PyError := ⟨.jsonDecodeError, lit message⟩

def isJsonSpace (c : CodePoint) : Bool :=
  c.val == 32 || c.val == 9 || c.val == 10 || c.val == 13

def skipSpace (s : Str) : Str := s.dropWhile isJsonSpace

def hexValue (c : CodePoint) : Option Nat :=
  if 48 ≤ c.val ∧ c.val ≤ 57 then some (c.val - 48)
  else if 97 ≤ c.val ∧ c.val ≤ 102 then some (c.val - 87)
  else if 65 ≤ c.val ∧ c.val ≤ 70 then some (c.val - 55)
  else none

def hex4Value (a b c d : CodePoint) : Option Nat :=
  match hexValue a, hexValue b, hexValue c, hexValue d with
  | some a, some b, some c, some d => some (((a * 16 + b) * 16 + c) * 16 + d)
  | _, _, _, _ => none

def isHigh (u : Nat) : Bool := decide (0xd800 ≤ u ∧ u ≤ 0xdbff)
def isLow (u : Nat) : Bool := decide (0xdc00 ≤ u ∧ u ≤ 0xdfff)

def joinSurrogates (hi lo : Nat) : Nat := 0x10000 + (hi - 0xd800) * 0x400 + (lo - 0xdc00)

/-- The letters `/` and those of `shortEscapes`. -/
def unescape (e : CodePoint) : Option CodePoint :=
  if e = cp '/' then some e
  else (shortEscapes.find? fun p => p.2 == e).map Prod.fst

def unterminated : PyError := decodeError "Unterminated string starting at"
def invalidUnicodeEscape : PyError := decodeError "Invalid \\uXXXX escape"

/-- Four hexadecimal digits. -/
def scanUnit (s : Str) : Option (Nat × Str) :=
  match s with
  | h₁ :: h₂ :: h₃ :: h₄ :: rest => (hex4Value h₁ h₂ h₃ h₄).map fun u => (u, rest)
  | _ => none

/-- The second half of an escaped surrogate pair, if there is one. A `\u` that
no four digits follow is an error wherever it stands. -/
def scanLowSurrogate (s : Str) : Except PyError (Option (Nat × Str)) :=
  match s with
  | b :: v :: rest =>
    if b = backslash ∧ v = letterU then
      match scanUnit rest with
      | none => .error invalidUnicodeEscape
      | some (lo, rest') => .ok (if isLow lo then some (lo, rest') else none)
    else .ok none
  | _ => .ok none

/-- After `\u`. -/
def scanUnicode (s : Str) : Scan CodePoint :=
  match scanUnit s with
  | none => .error invalidUnicodeEscape
  | some (u, rest) =>
    if isHigh u then
      match scanLowSurrogate rest with
      | .error e => .error e
      | .ok (some (lo, rest')) => .ok (Fin.ofNat 0x110000 (joinSurrogates u lo), rest')
      | .ok none => .ok (Fin.ofNat 0x110000 u, rest)
    else .ok (Fin.ofNat 0x110000 u, rest)

/-- After a backslash. -/
def scanEscape (s : Str) : Scan CodePoint :=
  match s with
  | [] => .error unterminated
  | e :: rest =>
    if e = letterU then scanUnicode rest
    else
      match unescape e with
      | some c => .ok (c, rest)
      | none => .error (decodeError "Invalid \\escape")

/-- One code point of a string, or `none` at its closing quote. -/
def scanPoint (s : Str) : Scan (Option CodePoint) :=
  match s with
  | [] => .error unterminated
  | c :: rest =>
    if c = quote then .ok (none, rest)
    else if c = backslash then
      match scanEscape rest with
      | .ok (c', rest') => .ok (some c', rest')
      | .error e => .error e
    else if c.val < 0x20 then .error (decodeError "Invalid control character at")
    else .ok (some c, rest)

def scanPoints : Nat → Str → Scan Str
  | 0, _ => .error unterminated
  | n + 1, s =>
    match scanPoint s with
    | .error e => .error e
    | .ok (none, rest) => .ok ([], rest)
    | .ok (some c, rest) =>
      match scanPoints n rest with
      | .ok (t, rest') => .ok (c :: t, rest')
      | .error e => .error e

/-- A string after its opening quote; every step consumes at least one character. -/
def scanString (s : Str) : Scan Str := scanPoints s.length s

/-! ### Numbers -/

def scanSign (s : Str) : Str × Str :=
  match s with
  | c :: rest => if c = minus then ([minus], rest) else ([], s)
  | [] => ([], [])

/-- `-?(0|[1-9][0-9]*)`. -/
def scanInt (s : Str) : Option (Str × Str) :=
  match (scanSign s).2 with
  | [] => none
  | c :: rest =>
    if c = digit 0 then some ((scanSign s).1 ++ [c], rest)
    else if isDigit c then
      some ((scanSign s).1 ++ c :: rest.takeWhile isDigit, rest.dropWhile isDigit)
    else none

/-- A part that is there only if a digit follows its mark: `\.[0-9]+`. -/
def scanFraction (s : Str) : Str × Str :=
  match s with
  | p :: d :: rest =>
    if p = cp '.' ∧ isDigit d = true then
      (p :: d :: rest.takeWhile isDigit, rest.dropWhile isDigit)
    else ([], s)
  | _ => ([], s)

/-- `[eE][-+]?[0-9]+`. -/
def scanExponent (s : Str) : Str × Str :=
  match s with
  | e :: rest =>
    if e = cp 'e' ∨ e = cp 'E' then
      match rest with
      | d :: rest₁ =>
        if isDigit d then (e :: d :: rest₁.takeWhile isDigit, rest₁.dropWhile isDigit)
        else if d = cp '+' ∨ d = minus then
          match rest₁ with
          | d' :: rest₂ =>
            if isDigit d' then
              (e :: d :: d' :: rest₂.takeWhile isDigit, rest₂.dropWhile isDigit)
            else ([], s)
          | [] => ([], s)
        else ([], s)
      | [] => ([], s)
    else ([], s)
  | [] => ([], [])

def intValue (s : Str) : Int :=
  match s with
  | c :: rest => if c = minus then -(digitsValue rest : Int) else digitsValue s
  | [] => 0

/-- An integer if neither a fraction nor an exponent is there, else a float. -/
def scanNumber (s : Str) : Scan (Json F) :=
  match scanInt s with
  | none => .error (decodeError "Expecting value")
  | some (i, s₁) =>
    let fraction := scanFraction s₁
    let exponent := scanExponent fraction.2
    if fraction.1 = [] ∧ exponent.1 = [] then
      if intMaxStrDigits < (i.filter isDigit).length then .error tooManyDigits
      else .ok (.int (intValue i), exponent.2)
    else .ok (.float (PyFloat.parse (i ++ fraction.1 ++ exponent.1)), exponent.2)

/-! ### Values -/

/-- The rest of `s` after the literal `w`, if `s` starts with it. -/
def afterLiteral (w s : Str) : Option Str := if w <+: s then some (s.drop w.length) else none

def constants : List (Str × Json F) :=
  [(lit "null", .null), (lit "true", .bool true), (lit "false", .bool false),
    (lit "NaN", .float PyFloat.nan), (lit "Infinity", .float PyFloat.inf),
    (lit "-Infinity", .float PyFloat.negInf)]

def scanConstant (s : Str) : List (Str × Json F) → Option (Json F × Str)
  | [] => none
  | (w, v) :: rest =>
    match afterLiteral w s with
    | some s' => some (v, s')
    | none => scanConstant s rest

section Containers
variable (value : Str → Scan (Json F))

/-- Elements up to the closing bracket; a step consumes at least one character. -/
def scanElems : Nat → Str → Scan (List (Json F))
  | 0, _ => .error (decodeError "Expecting value")
  | n + 1, s =>
    match value s with
    | .error e => .error e
    | .ok (v, s₁) =>
      match skipSpace s₁ with
      | [] => .error (decodeError "Expecting ',' delimiter")
      | c :: s₂ =>
        if c = closeBracket then .ok ([v], s₂)
        else if c = comma then
          match scanElems n (skipSpace s₂) with
          | .ok (vs, s₃) => .ok (v :: vs, s₃)
          | .error e => .error e
        else .error (decodeError "Expecting ',' delimiter")

def scanArray (s : Str) : Scan (Json F) :=
  match skipSpace s with
  | [] => .error (decodeError "Expecting value")
  | c :: rest =>
    if c = closeBracket then .ok (.arr [], rest)
    else
      match scanElems value (c :: rest).length (c :: rest) with
      | .ok (vs, s') => .ok (.arr vs, s')
      | .error e => .error e

def scanKey (s : Str) : Scan Str :=
  match s with
  | [] => .error (decodeError "Expecting property name enclosed in double quotes")
  | c :: rest =>
    if c = quote then scanString rest
    else .error (decodeError "Expecting property name enclosed in double quotes")

def scanColon (s : Str) : Except PyError Str :=
  match skipSpace s with
  | [] => .error (decodeError "Expecting ':' delimiter")
  | c :: rest => if c = colon then .ok (skipSpace rest) else .error (decodeError "Expecting ':' delimiter")

/-- One member: key, colon, value. -/
def scanMember (s : Str) : Scan (Str × Json F) :=
  match scanKey s with
  | .error e => .error e
  | .ok (k, s₁) =>
    match scanColon s₁ with
    | .error e => .error e
    | .ok s₂ =>
      match value s₂ with
      | .error e => .error e
      | .ok (v, s₃) => .ok ((k, v), s₃)

def scanMembers : Nat → Str → Members F → Scan (Members F)
  | 0, _, _ => .error (decodeError "Expecting value")
  | n + 1, s, acc =>
    match scanMember value s with
    | .error e => .error e
    | .ok ((k, v), s₁) =>
      match skipSpace s₁ with
      | [] => .error (decodeError "Expecting ',' delimiter")
      | c :: s₂ =>
        if c = closeBrace then .ok (acc.set k v, s₂)
        else if c = comma then scanMembers n (skipSpace s₂) (acc.set k v)
        else .error (decodeError "Expecting ',' delimiter")

def scanObject (s : Str) : Scan (Json F) :=
  match skipSpace s with
  | [] => .error (decodeError "Expecting property name enclosed in double quotes")
  | c :: rest =>
    if c = closeBrace then .ok (.obj [], rest)
    else
      match scanMembers value (c :: rest).length (c :: rest) [] with
      | .ok (m, s') => .ok (.obj m, s')
      | .error e => .error e

end Containers

def recursionError : PyError := ⟨.recursionError, lit "maximum recursion depth exceeded"⟩

/-- One value, with the scanner for the values inside it, if nesting may go on. -/
def scanValueWith (nested : Option (Str → Scan (Json F))) (s : Str) : Scan (Json F) :=
  match s with
  | [] => .error (decodeError "Expecting value")
  | c :: rest =>
    if c = quote then
      match scanString rest with
      | .ok (t, s') => .ok (.str t, s')
      | .error e => .error e
    else if c = openBrace then
      match nested with
      | some value => scanObject value rest
      | none => .error recursionError
    else if c = openBracket then
      match nested with
      | some value => scanArray value rest
      | none => .error recursionError
    else
      match scanConstant s constants with
      | some r => .ok r
      | none => scanNumber s

/-- One value with at most `limit` levels of nesting. -/
def scanValue : Nat → Str → Scan (Json F)
  | 0 => scanValueWith none
  | limit + 1 => scanValueWith (some (scanValue limit))

def loads (limit : Nat) (s : Str) : Except PyError (Json F) :=
  if s.head? = some 0xfeff then
    .error (decodeError "Unexpected UTF-8 BOM (decode using utf-8-sig)")
  else
    match scanValue limit (skipSpace s) with
    | .error e => .error e
    | .ok (v, rest) => if skipSpace rest = [] then .ok v else .error (decodeError "Extra data")

end Support.Json
