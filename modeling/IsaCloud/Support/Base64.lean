import IsaCloud.Support.Encoding

/-!
# Base64

`b64encode` and the lenient `b64decode` of the standard library: characters
outside the alphabet are skipped, and input after a complete padding is not
read. The decoder is the state machine of `binascii`.
-/

namespace Support.Base64

set_option autoImplicit false

open Text Python Encoding

def pad : CodePoint := cp '='

/-- The character of six bits. -/
def sextetChar (v : Nat) : CodePoint :=
  if v < 26 then point (65 + v)
  else if v < 52 then point (71 + v)
  else if v < 62 then point (v - 4)
  else if v = 62 then cp '+'
  else cp '/'

def sextet (c : CodePoint) : Option Nat :=
  if 65 ≤ c.val ∧ c.val ≤ 90 then some (c.val - 65)
  else if 97 ≤ c.val ∧ c.val ≤ 122 then some (c.val - 71)
  else if 48 ≤ c.val ∧ c.val ≤ 57 then some (c.val + 4)
  else if c = cp '+' then some 62
  else if c = cp '/' then some 63
  else none

def b64encode : Bytes → Str
  | [] => []
  | [a] => [sextetChar (a.val / 4), sextetChar (a.val % 4 * 16), pad, pad]
  | [a, b] =>
    [sextetChar (a.val / 4), sextetChar (a.val % 4 * 16 + b.val / 16),
      sextetChar (b.val % 16 * 4), pad]
  | a :: b :: c :: rest =>
    sextetChar (a.val / 4) :: sextetChar (a.val % 4 * 16 + b.val / 16) ::
      sextetChar (b.val % 16 * 4 + c.val / 64) :: sextetChar (c.val % 64) :: b64encode rest

/-- How many characters of a group of four were read, and the bits left over. -/
inductive Quad where
  | start
  | one (left : Nat)
  | two (left : Nat)
  | three (left : Nat)

def Quad.position : Quad → Nat
  | start => 0
  | one _ => 1
  | two _ => 2
  | three _ => 3

def binasciiError (message : String) : PyError := ⟨.valueError, lit message⟩

def emit (n : Nat) (out : Except PyError Bytes) : Except PyError Bytes :=
  match out with
  | .ok bs => .ok (byte n :: bs)
  | .error e => .error e

def a2bBase64 : Quad → Nat → Str → Except PyError Bytes
  | .start, _, [] => .ok []
  | .one _, _, [] => .error (binasciiError "Invalid base64-encoded string")
  | _, _, [] => .error (binasciiError "Incorrect padding")
  | q, pads, c :: rest =>
    if c = pad then
      if q.position < 2 then a2bBase64 q pads rest
      else if 4 ≤ q.position + (pads + 1) then .ok []
      else a2bBase64 q (pads + 1) rest
    else
      match sextet c with
      | none => a2bBase64 q pads rest
      | some v =>
        match q with
        | .start => a2bBase64 (.one v) 0 rest
        | .one left => emit (left * 4 + v / 16) (a2bBase64 (.two (v % 16)) 0 rest)
        | .two left => emit (left * 16 + v / 4) (a2bBase64 (.three (v % 4)) 0 rest)
        | .three left => emit (left * 64 + v) (a2bBase64 .start 0 rest)

/-- `base64.b64decode` of a string. -/
def b64decode (s : Str) : Except PyError Bytes :=
  if s.any fun c => decide (128 ≤ c.val) then
    .error ⟨.valueError, lit "string argument should contain only ASCII characters"⟩
  else a2bBase64 .start 0 s

theorem sextetChar_spec : ∀ v < 64, sextetChar v ≠ pad ∧ sextet (sextetChar v) = some v ∧
    (sextetChar v).val < 128 := by
  decide

section Steps
variable {v : Nat} (hv : v < 64) (n : Nat) (rest : Str)
include hv

theorem a2b_start : a2bBase64 .start n (sextetChar v :: rest) = a2bBase64 (.one v) 0 rest := by
  obtain ⟨hp, hs, -⟩ := sextetChar_spec v hv
  simp only [a2bBase64, hp, if_false, hs]

theorem a2b_one (left : Nat) : a2bBase64 (.one left) n (sextetChar v :: rest) =
    emit (left * 4 + v / 16) (a2bBase64 (.two (v % 16)) 0 rest) := by
  obtain ⟨hp, hs, -⟩ := sextetChar_spec v hv
  simp only [a2bBase64, hp, if_false, hs]

theorem a2b_two (left : Nat) : a2bBase64 (.two left) n (sextetChar v :: rest) =
    emit (left * 16 + v / 4) (a2bBase64 (.three (v % 4)) 0 rest) := by
  obtain ⟨hp, hs, -⟩ := sextetChar_spec v hv
  simp only [a2bBase64, hp, if_false, hs]

theorem a2b_three (left : Nat) : a2bBase64 (.three left) n (sextetChar v :: rest) =
    emit (left * 64 + v) (a2bBase64 .start 0 rest) := by
  obtain ⟨hp, hs, -⟩ := sextetChar_spec v hv
  simp only [a2bBase64, hp, if_false, hs]

end Steps

theorem byte_eq {n : Nat} {b : Byte} (h : n = b.val) : byte n = b := by
  apply Fin.ext
  rw [byte_val (h ▸ b.isLt), h]

theorem a2bBase64_b64encode (bs : Bytes) (n : Nat) : a2bBase64 .start n (b64encode bs) = .ok bs := by
  induction bs using b64encode.induct generalizing n with
  | case1 => rfl
  | case2 a =>
    have h0 : byte (a.val / 4 * 4 + a.val % 4 * 16 / 16) = a := byte_eq (by omega)
    have hend : ∀ k, a2bBase64 (.two k) 0 [pad, pad] = .ok [] := fun k => rfl
    rw [b64encode, a2b_start (by omega), a2b_one (by omega), hend]
    simp only [emit, h0]
  | case3 a b =>
    have h0 : byte (a.val / 4 * 4 + (a.val % 4 * 16 + b.val / 16) / 16) = a := byte_eq (by omega)
    have h1 : byte ((a.val % 4 * 16 + b.val / 16) % 16 * 16 + b.val % 16 * 4 / 4) = b :=
      byte_eq (by omega)
    have hend : ∀ k, a2bBase64 (.three k) 0 [pad] = .ok [] := fun k => rfl
    rw [b64encode, a2b_start (by omega), a2b_one (by omega), a2b_two (by omega), hend]
    simp only [emit, h0, h1]
  | case4 a b c rest ih =>
    have h0 : byte (a.val / 4 * 4 + (a.val % 4 * 16 + b.val / 16) / 16) = a := byte_eq (by omega)
    have h1 : byte ((a.val % 4 * 16 + b.val / 16) % 16 * 16 + (b.val % 16 * 4 + c.val / 64) / 4) =
        b := byte_eq (by omega)
    have h2 : byte ((b.val % 16 * 4 + c.val / 64) % 4 * 64 + c.val % 64) = c := byte_eq (by omega)
    rw [b64encode, a2b_start (by omega), a2b_one (by omega), a2b_two (by omega),
      a2b_three (by omega), ih]
    simp only [emit, h0, h1, h2]

theorem b64encode_ascii (bs : Bytes) : ∀ c ∈ b64encode bs, c.val < 128 := by
  have char : ∀ v < 64, (sextetChar v).val < 128 := fun v hv => (sextetChar_spec v hv).2.2
  have hpad : pad.val < 128 := by decide
  induction bs using b64encode.induct with
  | case1 => simp [b64encode]
  | case2 a =>
    intro c hc
    simp only [b64encode, List.mem_cons, List.not_mem_nil, or_false] at hc
    rcases hc with rfl | rfl | rfl | rfl
    · exact char _ (by omega)
    · exact char _ (by omega)
    · exact hpad
    · exact hpad
  | case3 a b =>
    intro c hc
    simp only [b64encode, List.mem_cons, List.not_mem_nil, or_false] at hc
    rcases hc with rfl | rfl | rfl | rfl
    · exact char _ (by omega)
    · exact char _ (by omega)
    · exact char _ (by omega)
    · exact hpad
  | case4 a b c rest ih =>
    intro d hd
    simp only [b64encode, List.mem_cons] at hd
    rcases hd with rfl | rfl | rfl | rfl | hd
    · exact char _ (by omega)
    · exact char _ (by omega)
    · exact char _ (by omega)
    · exact char _ (by omega)
    · exact ih d hd

theorem b64decode_b64encode (bs : Bytes) : b64decode (b64encode bs) = .ok bs := by
  have hascii : (b64encode bs).any (fun c => decide (128 ≤ c.val)) = false := by
    rw [List.any_eq_false]
    intro c hc
    have := b64encode_ascii bs c hc
    simpa using this
  rw [b64decode, hascii]
  exact a2bBase64_b64encode bs 0

theorem b64encode_plain (bs : Bytes) : Json.Plain (b64encode bs) := by
  intro c hc
  have := b64encode_ascii bs c hc
  exact ⟨decide_eq_false (by omega), decide_eq_false (by omega)⟩

theorem b64encode_ne_nil {bs : Bytes} (h : bs ≠ []) : b64encode bs ≠ [] := by
  intro he
  have := b64decode_b64encode bs
  rw [he] at this
  exact h (Except.ok.inj this).symm

end Support.Base64
