import IsaCloud.Support.Text

/-!
# Python exceptions and string methods

`lower` maps the ASCII letters only. Other cased code points never lower to an
ASCII letter that occurs in the constants such a string is compared with, so a
comparison with an ASCII constant has the same outcome.
-/

namespace Support.Python

set_option autoImplicit false

open Text

inductive ExcKind where
  | valueError
  | jsonDecodeError
  | unicodeDecodeError
  | unicodeEncodeError
  | keyError
  | indexError
  | typeError
  | attributeError
  | overflowError
  | recursionError
  | osError
  | integrityError
  | httpException (status : Nat)
  deriving DecidableEq, Repr

/-- The exceptions an `except ValueError` catches. -/
def ExcKind.isValueError : ExcKind → Bool
  | valueError => true
  | jsonDecodeError => true
  | unicodeDecodeError => true
  | unicodeEncodeError => true
  | _ => false

structure PyError where
  kind : ExcKind
  message : Str
  deriving DecidableEq, Repr

/-- The code points `str.isspace` accepts. -/
def isSpace (c : CodePoint) : Bool :=
  decide ((9 ≤ c.val ∧ c.val ≤ 13) ∨ (28 ≤ c.val ∧ c.val ≤ 32) ∨ c.val = 0x85 ∨ c.val = 0xa0 ∨
    c.val = 0x1680 ∨ (0x2000 ≤ c.val ∧ c.val ≤ 0x200a) ∨ c.val = 0x2028 ∨ c.val = 0x2029 ∨
    c.val = 0x202f ∨ c.val = 0x205f ∨ c.val = 0x3000)

def strip (s : Str) : Str := ((s.dropWhile isSpace).reverse.dropWhile isSpace).reverse

def lowerPoint (c : CodePoint) : CodePoint :=
  if 65 ≤ c.val ∧ c.val ≤ 90 then Fin.ofNat 0x110000 (c.val + 32) else c

def lower (s : Str) : Str := s.map lowerPoint

def joinComma : List Str → Str
  | [] => []
  | [s] => s
  | s :: rest => s ++ lit ", " ++ joinComma rest

end Support.Python
