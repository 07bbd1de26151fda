import IsaCloud.Support.JsonWellFormed

/-!
# Bytes and text

`utf8Encode` and `utf8Decode` are Python's strict codec; the decoder can also be
asked to pass surrogates through, which is how `json.loads` reads a request
body after guessing its encoding. `readText` is what a text file opened with
`encoding="utf-8"` yields.
-/

namespace Support.Encoding

set_option autoImplicit false

open Text Python Json

abbrev Byte := Fin 256

abbrev Bytes := List Byte

instance bytesNonzero : NeZero 256 := ⟨by decide⟩

def byte (n : Nat) : Byte := Fin.ofNat 256 n

def point (n : Nat) : CodePoint := Fin.ofNat 0x110000 n

def isSurrogate (n : Nat) : Bool := decide (0xd800 ≤ n ∧ n ≤ 0xdfff)

/-! ## UTF-8 -/

def encodePoint (c : CodePoint) : Bytes :=
  if c.val < 0x80 then [byte c.val]
  else if c.val < 0x800 then [byte (0xc0 + c.val / 64), byte (0x80 + c.val % 64)]
  else if c.val < 0x10000 then
    [byte (0xe0 + c.val / 4096), byte (0x80 + c.val / 64 % 64), byte (0x80 + c.val % 64)]
  else
    [byte (0xf0 + c.val / 262144), byte (0x80 + c.val / 4096 % 64), byte (0x80 + c.val / 64 % 64),
      byte (0x80 + c.val % 64)]

def encodeError : PyError := ⟨.unicodeEncodeError, lit "surrogates not allowed"⟩

/-- `s.encode("utf-8")`. -/
def utf8Encode (s : Str) : Except PyError Bytes :=
  if s.any fun c => isSurrogate c.val then .error encodeError else .ok (s.flatMap encodePoint)

def isContinuation (b : Byte) : Bool := decide (0x80 ≤ b.val ∧ b.val ≤ 0xbf)

/-- The first character of some bytes, if they start with one. -/
def decodePoint (surrogatepass : Bool) (bs : Bytes) : Option (CodePoint × Bytes) :=
  match bs with
  | [] => none
  | b₀ :: rest =>
    if b₀.val < 0x80 then some (point b₀.val, rest)
    else if 0xc2 ≤ b₀.val ∧ b₀.val ≤ 0xdf then
      match rest with
      | b₁ :: rest =>
        if isContinuation b₁ then
          some (point ((b₀.val - 0xc0) * 64 + (b₁.val - 0x80)), rest)
        else none
      | _ => none
    else if 0xe0 ≤ b₀.val ∧ b₀.val ≤ 0xef then
      match rest with
      | b₁ :: b₂ :: rest =>
        let n := (b₀.val - 0xe0) * 4096 + (b₁.val - 0x80) * 64 + (b₂.val - 0x80)
        if isContinuation b₁ ∧ isContinuation b₂ ∧ 0x800 ≤ n ∧
            (surrogatepass = true ∨ isSurrogate n = false) then
          some (point n, rest)
        else none
      | _ => none
    else if 0xf0 ≤ b₀.val ∧ b₀.val ≤ 0xf4 then
      match rest with
      | b₁ :: b₂ :: b₃ :: rest =>
        let n := (b₀.val - 0xf0) * 262144 + (b₁.val - 0x80) * 4096 + (b₂.val - 0x80) * 64 +
          (b₃.val - 0x80)
        if isContinuation b₁ ∧ isContinuation b₂ ∧ isContinuation b₃ ∧
            0x10000 ≤ n ∧ n < 0x110000 then
          some (point n, rest)
        else none
      | _ => none
    else none

/-- Every character takes at least one byte. -/
def decodePoints (surrogatepass : Bool) : Nat → Bytes → Option Str
  | _, [] => some []
  | 0, _ :: _ => none
  | n + 1, bs =>
    match decodePoint surrogatepass bs with
    | none => none
    | some (c, rest) => (decodePoints surrogatepass n rest).map (c :: ·)

def decodeFailed : PyError := ⟨.unicodeDecodeError, lit "codec can't decode bytes"⟩

def utf8Decode (surrogatepass : Bool) (bs : Bytes) : Except PyError Str :=
  match decodePoints surrogatepass bs.length bs with
  | some s => .ok s
  | none => .error decodeFailed

/-- Universal newlines: `\r\n` and `\r` read as `\n`; `cr` after a `\r`. -/
def newlinesFrom (cr : Bool) : Str → Str
  | [] => []
  | c :: rest =>
    if c = 13 then 10 :: newlinesFrom true rest
    else if c = 10 ∧ cr = true then newlinesFrom false rest
    else c :: newlinesFrom false rest

def universalNewlines (s : Str) : Str := newlinesFrom false s

/-- A text file opened for reading with `encoding="utf-8"`. -/
def readText (bs : Bytes) : Except PyError Str :=
  match utf8Decode false bs with
  | .ok s => .ok (universalNewlines s)
  | .error e => .error e

/-! ## UTF-16, UTF-32 and the encoding of a JSON body -/

def units16 (bigEndian : Bool) : Bytes → Option (List Nat)
  | [] => some []
  | [_] => none
  | a :: b :: rest =>
    (units16 bigEndian rest).map
      ((if bigEndian then a.val * 256 + b.val else b.val * 256 + a.val) :: ·)

def joinUnits : List Nat → Str
  | [] => []
  | [u] => [point u]
  | u :: v :: rest =>
    if isHigh u = true ∧ isLow v = true then point (joinSurrogates u v) :: joinUnits rest
    else point u :: joinUnits (v :: rest)

def points32 (bigEndian : Bool) : Bytes → Option Str
  | [] => some []
  | a :: b :: c :: d :: rest =>
    let n := if bigEndian then ((a.val * 256 + b.val) * 256 + c.val) * 256 + d.val
      else ((d.val * 256 + c.val) * 256 + b.val) * 256 + a.val
    if n < 0x110000 then (points32 bigEndian rest).map (point n :: ·) else none
  | _ => none

inductive JsonEncoding where
  | utf8
  | utf8Sig
  | utf16 (bigEndian : Bool)
  | utf32 (bigEndian : Bool)
  deriving DecidableEq, Repr

/-- `json.detect_encoding`, with how many bytes of a byte-order mark to skip. -/
def detectEncoding (bs : Bytes) : JsonEncoding × Nat :=
  match bs with
  | 0x00 :: 0x00 :: 0xfe :: 0xff :: _ => (.utf32 true, 4)
  | 0xff :: 0xfe :: 0x00 :: 0x00 :: _ => (.utf32 false, 4)
  | 0xfe :: 0xff :: _ => (.utf16 true, 2)
  | 0xff :: 0xfe :: _ => (.utf16 false, 2)
  | 0xef :: 0xbb :: 0xbf :: _ => (.utf8Sig, 3)
  | a :: b :: c :: d :: _ =>
    if a = 0 then (if b = 0 then .utf32 true else .utf16 true, 0)
    else if b = 0 then (if c = 0 ∧ d = 0 then .utf32 false else .utf16 false, 0)
    else (.utf8, 0)
  | [a, b] => if a = 0 then (.utf16 true, 0) else if b = 0 then (.utf16 false, 0) else (.utf8, 0)
  | _ => (.utf8, 0)

def decodeBody (bs : Bytes) : Except PyError Str :=
  let content := bs.drop (detectEncoding bs).2
  match (detectEncoding bs).1 with
  | .utf8 => utf8Decode true content
  | .utf8Sig => utf8Decode true content
  | .utf16 bigEndian =>
    match units16 bigEndian content with
    | some us => .ok (joinUnits us)
    | none => .error decodeFailed
  | .utf32 bigEndian =>
    match points32 bigEndian content with
    | some s => .ok s
    | none => .error decodeFailed

/-! ## Laws of the strict codec -/

theorem byte_val {n : Nat} (h : n < 256) : (byte n).val = n := by
  simp only [byte, Fin.ofNat]
  exact Nat.mod_eq_of_lt h

theorem point_val {n : Nat} (h : n < 0x110000) : (point n).val = n := by
  simp only [point, Fin.ofNat]
  exact Nat.mod_eq_of_lt h

theorem point_eq {n : Nat} {c : CodePoint} (h : n = c.val) : point n = c := by
  apply Fin.ext
  rw [point_val (h ▸ c.isLt), h]

theorem isContinuation_byte {n : Nat} (h : n < 64) : isContinuation (byte (0x80 + n)) = true := by
  rw [isContinuation, byte_val (by omega)]
  exact decide_eq_true ⟨by omega, by omega⟩

/-- One character reads back, whatever follows. -/
theorem decodePoint_encodePoint {c : CodePoint} (h : isSurrogate c.val = false) (pass : Bool)
    (rest : Bytes) : decodePoint pass (encodePoint c ++ rest) = some (c, rest) := by
  obtain ⟨n, hn⟩ := c
  have hs : ¬ (0xd800 ≤ n ∧ n ≤ 0xdfff) := of_decide_eq_false h
  have hp : point n = ⟨n, hn⟩ := point_eq rfl
  unfold encodePoint
  dsimp only
  split
  · have hv : (byte n).val = n := byte_val (by omega)
    simp only [List.cons_append, List.nil_append, decodePoint, hv]
    rw [if_pos (by omega), hp]
  · split
    · have h0 : (byte (0xc0 + n / 64)).val = 0xc0 + n / 64 := byte_val (by omega)
      have h1 : (byte (0x80 + n % 64)).val = 0x80 + n % 64 := byte_val (by omega)
      have c1 := isContinuation_byte (n := n % 64) (by omega)
      have hsum : (0xc0 + n / 64 - 0xc0) * 64 + (0x80 + n % 64 - 0x80) = n := by omega
      simp only [List.cons_append, List.nil_append, decodePoint, h0, h1, c1, hsum]
      rw [if_neg (by omega), if_pos (by omega), if_pos trivial, hp]
    · split
      · have h0 : (byte (0xe0 + n / 4096)).val = 0xe0 + n / 4096 := byte_val (by omega)
        have h1 : (byte (0x80 + n / 64 % 64)).val = 0x80 + n / 64 % 64 := byte_val (by omega)
        have h2 : (byte (0x80 + n % 64)).val = 0x80 + n % 64 := byte_val (by omega)
        have c1 := isContinuation_byte (n := n / 64 % 64) (by omega)
        have c2 := isContinuation_byte (n := n % 64) (by omega)
        have hsum : (0xe0 + n / 4096 - 0xe0) * 4096 + (0x80 + n / 64 % 64 - 0x80) * 64 +
            (0x80 + n % 64 - 0x80) = n := by omega
        simp only [List.cons_append, List.nil_append, decodePoint, h0, h1, h2, c1, c2, hsum]
        rw [if_neg (by omega), if_neg (by omega), if_pos (by omega),
          if_pos ⟨trivial, trivial, by omega, .inr h⟩, hp]
      · have h0 : (byte (0xf0 + n / 262144)).val = 0xf0 + n / 262144 := byte_val (by omega)
        have h1 : (byte (0x80 + n / 4096 % 64)).val = 0x80 + n / 4096 % 64 := byte_val (by omega)
        have h2 : (byte (0x80 + n / 64 % 64)).val = 0x80 + n / 64 % 64 := byte_val (by omega)
        have h3 : (byte (0x80 + n % 64)).val = 0x80 + n % 64 := byte_val (by omega)
        have c1 := isContinuation_byte (n := n / 4096 % 64) (by omega)
        have c2 := isContinuation_byte (n := n / 64 % 64) (by omega)
        have c3 := isContinuation_byte (n := n % 64) (by omega)
        have hsum : (0xf0 + n / 262144 - 0xf0) * 262144 + (0x80 + n / 4096 % 64 - 0x80) * 4096 +
            (0x80 + n / 64 % 64 - 0x80) * 64 + (0x80 + n % 64 - 0x80) = n := by omega
        simp only [List.cons_append, List.nil_append, decodePoint, h0, h1, h2, h3, c1, c2, c3, hsum]
        rw [if_neg (by omega), if_neg (by omega), if_neg (by omega), if_pos (by omega),
          if_pos ⟨trivial, trivial, trivial, by omega, hn⟩, hp]

theorem encodePoint_ne_nil (c : CodePoint) : encodePoint c ≠ [] := by
  unfold encodePoint
  repeat' split
  all_goals simp

theorem decodePoints_flatMap {s : Str} (h : ∀ c ∈ s, isSurrogate c.val = false) (pass : Bool)
    {n : Nat} (hn : s.length ≤ n) :
    decodePoints pass n (s.flatMap encodePoint) = some s := by
  induction s generalizing n with
  | nil => cases n <;> rfl
  | cons c s ih =>
    obtain ⟨n, rfl⟩ : ∃ m, n = m + 1 := ⟨n - 1, by simp at hn; omega⟩
    have hc := decodePoint_encodePoint (h c List.mem_cons_self) pass (s.flatMap encodePoint)
    have hs := ih (fun d hd => h d (List.mem_cons_of_mem c hd)) (by simpa using hn)
    rw [List.flatMap_cons]
    cases hb : encodePoint c ++ s.flatMap encodePoint with
    | nil => exact absurd (List.append_eq_nil_iff.mp hb).1 (encodePoint_ne_nil c)
    | cons b bs =>
      rw [hb] at hc
      simp [decodePoints, hc, hs]

theorem length_le_flatMap_encodePoint (s : Str) : s.length ≤ (s.flatMap encodePoint).length := by
  induction s with
  | nil => simp
  | cons c s ih =>
    have := List.length_pos_of_ne_nil (encodePoint_ne_nil c)
    simp only [List.flatMap_cons, List.length_append, List.length_cons]
    omega

/-- Decoding inverts the strict encoder. -/
theorem utf8Decode_of_encode {s : Str} {bs : Bytes} (h : utf8Encode s = .ok bs) (pass : Bool) :
    utf8Decode pass bs = .ok s := by
  unfold utf8Encode at h
  split at h
  · exact absurd h (by simp)
  · rename_i hs
    have hs' : ∀ c ∈ s, isSurrogate c.val = false := by
      intro c hc
      by_contra hne
      exact hs (List.any_eq_true.mpr ⟨c, hc, by simpa using hne⟩)
    simp only [Except.ok.injEq] at h
    subst h
    rw [utf8Decode, decodePoints_flatMap hs' pass (length_le_flatMap_encodePoint s)]

theorem utf8Encode_injective {s t : Str} {bs : Bytes} (hs : utf8Encode s = .ok bs)
    (ht : utf8Encode t = .ok bs) : s = t := by
  have h := utf8Decode_of_encode hs false
  rw [utf8Decode_of_encode ht false] at h
  exact (Except.ok.inj h).symm

/-- The strict decoder yields no surrogates. -/
theorem decodePoint_scalar {bs rest : Bytes} {c : CodePoint}
    (h : decodePoint false bs = some (c, rest)) : isSurrogate c.val = false := by
  unfold decodePoint at h
  have low : ∀ n, n < 0x800 → isSurrogate (point n).val = false := by
    intro n hn
    rw [point_val (by omega)]
    exact decide_eq_false (by omega)
  split at h
  · exact absurd h (by simp)
  · rename_i b₀ tail
    split at h
    · simp only [Option.some.injEq, Prod.mk.injEq] at h
      rw [← h.1]
      exact low _ (by omega)
    · split at h
      · split at h
        · rename_i b₁ _
          split at h
          · rename_i hc
            simp only [Option.some.injEq, Prod.mk.injEq] at h
            have hb := of_decide_eq_true hc
            rw [← h.1]
            exact low _ (by omega)
          · exact absurd h (by simp)
        · exact absurd h (by simp)
      · split at h
        · split at h
          · rename_i b₁ b₂ _
            dsimp only at h
            split at h
            · rename_i hc
              obtain ⟨h1, h2, -, hs⟩ := hc
              have hb1 := of_decide_eq_true h1
              have hb2 := of_decide_eq_true h2
              simp only [Option.some.injEq, Prod.mk.injEq] at h
              rw [← h.1, point_val (by omega)]
              rcases hs with hs | hs
              · exact absurd hs (by simp)
              · exact hs
            · exact absurd h (by simp)
          · exact absurd h (by simp)
        · split at h
          · split at h
            · dsimp only at h
              split at h
              · rename_i hc
                obtain ⟨-, -, -, hlo, hhi⟩ := hc
                simp only [Option.some.injEq, Prod.mk.injEq] at h
                rw [← h.1, point_val hhi]
                exact decide_eq_false (by omega)
              · exact absurd h (by simp)
            · exact absurd h (by simp)
          · exact absurd h (by simp)

theorem decodePoints_scalar {n : Nat} {bs : Bytes} {s : Str}
    (h : decodePoints false n bs = some s) : ∀ c ∈ s, isSurrogate c.val = false := by
  induction n generalizing bs s with
  | zero =>
    cases bs with
    | nil =>
      simp only [decodePoints, Option.some.injEq] at h
      simp [← h]
    | cons b bs => simp [decodePoints] at h
  | succ n ih =>
    cases bs with
    | nil =>
      simp only [decodePoints, Option.some.injEq] at h
      simp [← h]
    | cons b bs =>
      simp only [decodePoints] at h
      cases hp : decodePoint false (b :: bs) with
      | none => simp [hp] at h
      | some r =>
        obtain ⟨c, rest⟩ := r
        simp only [hp, Option.map_eq_some_iff] at h
        obtain ⟨t, ht, rfl⟩ := h
        intro d hd
        rcases List.mem_cons.mp hd with rfl | hd
        · exact decodePoint_scalar hp
        · exact ih ht d hd

theorem plain_of_scalar {s : Str} (h : ∀ c ∈ s, isSurrogate c.val = false) : Plain s := by
  intro c hc
  have hs : ¬ (0xd800 ≤ c.val ∧ c.val ≤ 0xdfff) := of_decide_eq_false (h c hc)
  exact ⟨decide_eq_false (by omega), decide_eq_false (by omega)⟩

theorem mem_newlinesFrom {cr : Bool} {s : Str} {c : CodePoint} (h : c ∈ newlinesFrom cr s) :
    c ∈ s ∨ c = 10 := by
  induction s generalizing cr with
  | nil => simp [newlinesFrom] at h
  | cons d s ih =>
    unfold newlinesFrom at h
    split at h
    · rcases List.mem_cons.mp h with h | h
      · exact .inr h
      · exact (ih h).imp_left (List.mem_cons_of_mem d)
    · split at h
      · exact (ih h).imp_left (List.mem_cons_of_mem d)
      · rcases List.mem_cons.mp h with h | h
        · exact .inl (h ▸ List.mem_cons_self)
        · exact (ih h).imp_left (List.mem_cons_of_mem d)

theorem universalNewlines_of_not_mem {s : Str} (h : (13 : CodePoint) ∉ s) :
    universalNewlines s = s := by
  unfold universalNewlines
  induction s with
  | nil => rfl
  | cons c s ih =>
    have hc : c ≠ 13 := fun he => h (he ▸ List.mem_cons_self)
    have hs : (13 : CodePoint) ∉ s := fun hm => h (List.mem_cons_of_mem c hm)
    rw [newlinesFrom, if_neg hc, if_neg (by simp), ih hs]

/-- The text of a file never holds a surrogate. -/
theorem readText_plain {bs : Bytes} {s : Str} (h : readText bs = .ok s) : Plain s := by
  unfold readText utf8Decode at h
  cases hd : decodePoints false bs.length bs with
  | none => simp [hd] at h
  | some t =>
    simp only [hd, Except.ok.injEq] at h
    subst h
    apply plain_of_scalar
    intro c hc
    rcases mem_newlinesFrom hc with hc | rfl
    · exact decodePoints_scalar hd c hc
    · decide

/-- A file written with the strict encoder reads back, if it has no carriage returns. -/
theorem readText_of_encode {s : Str} {bs : Bytes} (h : utf8Encode s = .ok bs)
    (hcr : (13 : CodePoint) ∉ s) : readText bs = .ok s := by
  rw [readText, utf8Decode_of_encode h]
  simp only [universalNewlines_of_not_mem hcr]

theorem utf8Encode_ascii {s : Str} (h : Ascii s) : utf8Encode s = .ok (s.flatMap encodePoint) := by
  have hany : (s.any fun c => isSurrogate c.val) = false := by
    rw [List.any_eq_false]
    intro c hc
    have hr := h c hc
    have : isSurrogate c.val = false := decide_eq_false (by omega)
    rw [this]
    exact Bool.false_ne_true
  rw [utf8Encode, hany]
  rfl

end Support.Encoding
