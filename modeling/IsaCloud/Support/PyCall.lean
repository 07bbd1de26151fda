import IsaCloud.Support.Dict
import IsaCloud.Support.Python

/-!
# Calling a method by name

Python looks a method up when the call is made and matches the arguments with
its parameters then: an unknown name is an `AttributeError`, arguments that do
not fit are a `TypeError`, and neither reaches the method's body.
-/

namespace Support.Python

set_option autoImplicit false

open Text

structure Param where
  name : Str
  required : Bool
  deriving DecidableEq, Repr

/-- The parameters after `self`, and whether the last one is `*args`. -/
structure Signature where
  params : List Param
  varargs : Bool
  deriving DecidableEq, Repr

/-- A parameter without and with a default. -/
def req (name : String) : Param := ⟨lit name, true⟩
def opt (name : String) : Param := ⟨lit name, false⟩

/-- The arguments as the body sees them, `none` where the default stands. -/
structure Bound (A : Type) where
  values : List (Option A)
  rest : List A
  deriving DecidableEq

def noAttribute (name : Str) : PyError :=
  ⟨.attributeError, lit "object has no attribute '" ++ name ++ lit "'"⟩

def typeError (message : Str) : PyError := ⟨.typeError, message⟩

section Binding
variable {A : Type}

def bindRest (kwargs : List (Str × A)) : List Param → Except PyError (List (Option A))
  | [] => .ok []
  | p :: ps =>
    match Dict.find kwargs p.name with
    | some v => (bindRest kwargs ps).map (some v :: ·)
    | none =>
      if p.required then .error (typeError (lit "missing a required argument: " ++ p.name))
      else (bindRest kwargs ps).map (none :: ·)

def Signature.names (sig : Signature) : List Str := sig.params.map Param.name

def Signature.bind (sig : Signature) (args : List A) (kwargs : List (Str × A)) :
    Except PyError (Bound A) :=
  match kwargs.find? fun kw => decide (kw.1 ∉ sig.names) with
  | some kw => .error (typeError (lit "got an unexpected keyword argument '" ++ kw.1 ++ lit "'"))
  | none =>
    match kwargs.find? fun kw => decide (kw.1 ∈ sig.names.take args.length) with
    | some kw => .error (typeError (lit "got multiple values for argument '" ++ kw.1 ++ lit "'"))
    | none =>
      if sig.params.length < args.length ∧ sig.varargs = false then
        .error (typeError (lit "takes fewer positional arguments than were given"))
      else
        (bindRest kwargs (sig.params.drop args.length)).map fun vs =>
          ⟨(args.take sig.params.length).map some ++ vs, args.drop sig.params.length⟩

/-- The methods of a class, its base classes included. -/
abbrev Methods := List (Str × Signature)

/-- `obj.name(*args, **kwargs)` up to the entry into the method. -/
def Methods.call (methods : Methods) (name : Str) (args : List A) (kwargs : List (Str × A)) :
    Except PyError (Bound A) :=
  match Dict.find methods name with
  | none => .error (noAttribute name)
  | some sig => sig.bind args kwargs

end Binding

end Support.Python
