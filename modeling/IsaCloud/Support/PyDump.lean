import IsaCloud.Support.JsonText
import IsaCloud.Support.IsoTime

/-!
# `json.dumps` of Python values

`json.dumps` with no options writes the JSON types and members of string
enumerations. `Decimal` and `datetime` have no JSON form: the first one met
raises a `TypeError` and no text is produced.
-/

namespace Support

set_option autoImplicit false

open Text Python IsoTime

/-- A finite `decimal.Decimal`. -/
structure PyDecimal where
  negative : Bool
  digits : Nat
  exponent : Int
  deriving DecidableEq, Repr

inductive PyValue (F : Type) where
  | none
  | bool (b : Bool)
  | int (n : Int)
  | float (x : F)
  | str (s : Str)
  /-- A member of a `str` enumeration. -/
  | member (value : Str)
  | decimal (d : PyDecimal)
  | datetime (t : PyDateTime)
  | list (xs : List (PyValue F))
  | dict (members : List (Str × PyValue F))

namespace PyValue
variable {F : Type}

/-! ## The values of a model field -/

def optional {α : Type} (f : α → PyValue F) : Option α → PyValue F
  | .none => .none
  | .some a => f a

mutual
def ofJson : Json F → PyValue F
  | .null => .none
  | .bool b => .bool b
  | .int n => .int n
  | .float x => .float x
  | .str s => .str s
  | .arr xs => .list (ofElems xs)
  | .obj m => .dict (ofMembers m)

def ofElems : List (Json F) → List (PyValue F)
  | [] => []
  | x :: xs => ofJson x :: ofElems xs

def ofMembers : List (Str × Json F) → List (Str × PyValue F)
  | [] => []
  | (k, v) :: m => (k, ofJson v) :: ofMembers m
end

/-! ## Writing -/

def notSerializable (type : String) : PyError :=
  ⟨.typeError, lit "Object of type " ++ lit type ++ lit " is not JSON serializable"⟩

variable [PyFloat F]

mutual
def dumps : PyValue F → Except PyError Str
  | .none => .ok (lit "null")
  | .bool b => .ok (lit (if b then "true" else "false"))
  | .int n =>
    if (natText n.natAbs).length ≤ Json.intMaxStrDigits then .ok (intText n)
    else .error Json.tooManyDigits
  | .float x => .ok (PyFloat.dump x)
  | .str s => .ok (Json.quoted s)
  | .member value => .ok (Json.quoted value)
  | .decimal _ => .error (notSerializable "Decimal")
  | .datetime _ => .error (notSerializable "datetime")
  | .list xs => (dumpsElems xs).map fun ts =>
    Json.openBracket :: ((lit ", ").intercalate ts ++ [Json.closeBracket])
  | .dict m => (dumpsMembers m).map fun ts =>
    Json.openBrace :: ((lit ", ").intercalate ts ++ [Json.closeBrace])

def dumpsElems : List (PyValue F) → Except PyError (List Str)
  | [] => .ok []
  | x :: xs =>
    match dumps x with
    | .error e => .error e
    | .ok t => (dumpsElems xs).map (t :: ·)

def dumpsMembers : List (Str × PyValue F) → Except PyError (List Str)
  | [] => .ok []
  | (k, v) :: m =>
    match dumps v with
    | .error e => .error e
    | .ok t => (dumpsMembers m).map ((Json.quoted k ++ Json.colon :: 32 :: t) :: ·)
end

/-- The value has no JSON text. -/
def Refused (v : PyValue F) : Prop := ∃ e, dumps v = .error e

theorem refused_datetime (t : PyDateTime) : Refused (.datetime t : PyValue F) :=
  ⟨notSerializable "datetime", by rw [dumps]⟩

theorem dumpsMembers_error {m : List (Str × PyValue F)} {kv : Str × PyValue F} (hkv : kv ∈ m)
    (h : Refused kv.2) : ∃ e, dumpsMembers m = .error e := by
  induction m with
  | nil => cases hkv
  | cons x m ih =>
    rw [dumpsMembers]
    cases hx : dumps x.2 with
    | error e => exact ⟨e, rfl⟩
    | ok t =>
      rcases List.mem_cons.mp hkv with rfl | hkv
      · obtain ⟨e, he⟩ := h
        rw [he] at hx
        cases hx
      · obtain ⟨e, he⟩ := ih hkv
        exact ⟨e, by simp only [he]; rfl⟩

/-- One value without a JSON form spoils the whole dict. -/
theorem refused_dict {m : List (Str × PyValue F)} {kv : Str × PyValue F} (hkv : kv ∈ m)
    (h : Refused kv.2) : Refused (.dict m) := by
  obtain ⟨e, he⟩ := dumpsMembers_error hkv h
  exact ⟨e, by rw [dumps, he]; rfl⟩

end PyValue

end Support
