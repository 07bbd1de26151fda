import IsaCloud.Support.Encoding
import IsaCloud.Support.FileTree

/-!
# Absolute paths of `pathlib` and the names behind them

A path is the list of its segments below the root, empty and `.` segments left
out and `..` kept. The operating system sees file names as bytes: UTF-8, where
the surrogates U+DC80 to U+DCFF stand for single undecodable bytes. A path with
another surrogate or a NUL cannot be passed to it at all.
-/

namespace Support.PosixPath

set_option autoImplicit false

open Text Python Encoding FileTree

/-! ## File names -/

def nameOk (bs : Bytes) : Bool :=
  decide (bs ≠ [] ∧ byte 0 ∉ bs ∧ byte 47 ∉ bs ∧ bs ≠ [byte 46] ∧ bs ≠ [byte 46, byte 46])

/-- What an entry of a directory may be called. -/
structure Name where
  bytes : Bytes
  ok : nameOk bytes = true
  deriving DecidableEq

def fsencodePoint (c : CodePoint) : Option Bytes :=
  if 0xdc80 ≤ c.val ∧ c.val ≤ 0xdcff then some [byte (c.val - 0xdc00)]
  else if isSurrogate c.val then none
  else some (encodePoint c)

/-- `os.fsencode`. -/
def fsencode : Str → Option Bytes
  | [] => some []
  | c :: s => (fsencodePoint c).bind fun b => (fsencode s).map (b ++ ·)

def fsdecodeFrom : Nat → Bytes → Str
  | 0, _ => []
  | _ + 1, [] => []
  | n + 1, b :: bs =>
    match decodePoint false (b :: bs) with
    | some (c, rest) => c :: fsdecodeFrom n rest
    | none => point (0xdc00 + b.val) :: fsdecodeFrom n bs

/-- `os.fsdecode`. -/
def fsdecode (bs : Bytes) : Str := fsdecodeFrom bs.length bs

/-- A byte is read as an ASCII character only if it is that character. -/
theorem decodePoint_ascii {b : Byte} {bs rest : Bytes} {c : CodePoint}
    (h : decodePoint false (b :: bs) = some (c, rest)) (hc : c.val < 0x80) : c.val = b.val ∧ rest = bs := by
  unfold decodePoint at h
  dsimp only at h
  split at h
  · rename_i hb
    obtain ⟨rfl, rfl⟩ := Prod.mk.inj (Option.some.inj h)
    exact ⟨point_val (by omega), rfl⟩
  · have large : ∀ n, 0x80 ≤ n → n < 0x110000 → ¬ (point n).val < 0x80 := by
      intro n hn hlt
      rw [point_val hlt]
      omega
    have hb : b.val < 256 := b.isLt
    split at h
    · split at h
      · rename_i b₁ _
        split at h
        · obtain ⟨rfl, rfl⟩ := Prod.mk.inj (Option.some.inj h)
          have hb₁ : b₁.val < 256 := b₁.isLt
          exact absurd hc (large _ (by omega) (by omega))
        · cases h
      · cases h
    · split at h
      · split at h
        · rename_i b₁ b₂ _
          have hb₁ : b₁.val < 256 := b₁.isLt
          have hb₂ : b₂.val < 256 := b₂.isLt
          split at h
          · rename_i hn
            obtain ⟨rfl, rfl⟩ := Prod.mk.inj (Option.some.inj h)
            exact absurd hc (large _ (by omega) (by omega))
          · cases h
        · cases h
      · split at h
        · split at h
          · split at h
            · rename_i hn
              obtain ⟨rfl, rfl⟩ := Prod.mk.inj (Option.some.inj h)
              exact absurd hc (large _ (by omega) hn.2.2.2.2)
            · cases h
          · cases h
        · cases h

theorem decodePoint_suffix {b : Byte} {bs rest : Bytes} {c : CodePoint}
    (h : decodePoint false (b :: bs) = some (c, rest)) : rest <:+ bs := by
  unfold decodePoint at h
  dsimp only at h
  split at h
  · obtain ⟨-, rfl⟩ := Prod.mk.inj (Option.some.inj h)
    exact List.suffix_rfl
  · split at h
    · split at h
      · rename_i b₁ tail
        split at h
        · obtain ⟨-, rfl⟩ := Prod.mk.inj (Option.some.inj h)
          exact ⟨[b₁], rfl⟩
        · cases h
      · cases h
    · split at h
      · split at h
        · rename_i b₁ b₂ tail
          split at h
          · obtain ⟨-, rfl⟩ := Prod.mk.inj (Option.some.inj h)
            exact ⟨[b₁, b₂], rfl⟩
          · cases h
        · cases h
      · split at h
        · split at h
          · rename_i b₁ b₂ b₃ tail
            split at h
            · obtain ⟨-, rfl⟩ := Prod.mk.inj (Option.some.inj h)
              exact ⟨[b₁, b₂, b₃], rfl⟩
            · cases h
          · cases h
        · cases h

theorem escaped_large (b : Byte) : ¬ (point (0xdc00 + b.val)).val < 0x80 := by
  have hb : b.val < 256 := b.isLt
  rw [point_val (by omega)]
  omega

theorem ascii_of_mem_fsdecodeFrom {n : Nat} {bs : Bytes} {c : CodePoint} (h : c ∈ fsdecodeFrom n bs)
    (hc : c.val < 0x80) : byte c.val ∈ bs := by
  induction n generalizing bs with
  | zero => cases h
  | succ n ih =>
    cases bs with
    | nil => cases h
    | cons b bs =>
      rw [fsdecodeFrom] at h
      cases hd : decodePoint false (b :: bs) with
      | none =>
        rw [hd] at h
        rcases List.mem_cons.mp h with rfl | h
        · exact absurd hc (escaped_large b)
        · exact List.mem_cons_of_mem b (ih h)
      | some r =>
        obtain ⟨d, rest⟩ := r
        rw [hd] at h
        rcases List.mem_cons.mp h with rfl | h
        · rw [(decodePoint_ascii hd hc).1, byte, Fin.ofNat_val_eq_self]
          exact List.mem_cons_self ..
        · exact List.mem_cons_of_mem b ((decodePoint_suffix hd).subset (ih h))

/-- Bytes that read as ASCII text are that text. -/
theorem eq_of_ascii_fsdecodeFrom {n : Nat} {bs : Bytes} (hn : bs.length ≤ n)
    (h : ∀ c ∈ fsdecodeFrom n bs, c.val < 0x80) : bs = (fsdecodeFrom n bs).map fun c => byte c.val := by
  induction n generalizing bs with
  | zero =>
    rw [List.eq_nil_of_length_eq_zero (Nat.le_zero.mp hn)]
    rfl
  | succ n ih =>
    cases bs with
    | nil => rfl
    | cons b bs =>
      rw [List.length_cons] at hn
      rw [fsdecodeFrom] at h ⊢
      cases hd : decodePoint false (b :: bs) with
      | none =>
        rw [hd] at h
        exact absurd (h _ (List.mem_cons_self ..)) (escaped_large b)
      | some r =>
        obtain ⟨c, rest⟩ := r
        rw [hd] at h
        obtain ⟨hc, rfl⟩ := decodePoint_ascii hd (h c (List.mem_cons_self ..))
        have hrest := ih (Nat.le_of_succ_le_succ hn) fun d hd => h d (List.mem_cons_of_mem c hd)
        have hb : byte c.val = b := by
          rw [hc, byte, Fin.ofNat_val_eq_self]
        dsimp only
        rw [List.map_cons, hb, ← hrest]

theorem ascii_mem_fsencode {s : Str} {bs : Bytes} {c : CodePoint} (h : fsencode s = some bs) (hc : c ∈ s)
    (hascii : c.val < 0x80) : byte c.val ∈ bs := by
  induction s generalizing bs with
  | nil => cases hc
  | cons d s ih =>
    rw [fsencode] at h
    obtain ⟨b, hb, hs⟩ := Option.bind_eq_some_iff.mp h
    obtain ⟨bs', hbs, rfl⟩ := Option.map_eq_some_iff.mp hs
    rcases List.mem_cons.mp hc with rfl | hc
    · have henc : b = [byte c.val] := by
        have hsur : isSurrogate c.val = false := decide_eq_false (by omega)
        rw [fsencodePoint, if_neg (by omega), hsur, if_neg Bool.false_ne_true, encodePoint, if_pos hascii] at hb
        exact (Option.some.inj hb).symm
      rw [henc]
      exact List.mem_append_left _ (List.mem_singleton_self _)
    · exact List.mem_append_right _ (ih hbs hc)

/-! ## Segments -/

def slash : CodePoint := cp '/'

def dot : Str := lit "."

def dotdot : Str := lit ".."

def Segment (seg : Str) : Prop := seg ≠ [] ∧ seg ≠ dot ∧ slash ∉ seg

abbrev Path := List Str

/-- The segments of a text. -/
def segments (s : Str) : List Str := (s.splitOn slash).filter fun seg => !(seg == [] || seg == dot)

/-- `str` of a relative path. -/
def text (segs : List Str) : Str := [slash].intercalate segs

theorem segments_text {segs : List Str} (h : ∀ seg ∈ segs, Segment seg) (hne : segs ≠ []) :
    segments (text segs) = segs := by
  rw [segments, text, List.splitOn_intercalate slash (fun seg hs => (h seg hs).2.2) hne, List.filter_eq_self]
  intro seg hs
  have hseg := h seg hs
  simp [hseg.1, hseg.2.1]

theorem segments_singleton {seg : Str} (h : Segment seg) : segments seg = [seg] := by
  have hs : segments (text [seg]) = [seg] := segments_text (by simpa using h) (by simp)
  simpa [text] using hs

theorem fsdecode_segment (n : Name) : Segment (fsdecode n.bytes) ∧ fsdecode n.bytes ≠ dotdot := by
  obtain ⟨hne, _, hslash, hdot, hdots⟩ := of_decide_eq_true n.ok
  have hread : ∀ s : Str, (∀ c ∈ s, c.val < 0x80) → fsdecode n.bytes = s →
      n.bytes = s.map fun c => byte c.val := by
    intro s hs heq
    rw [fsdecode] at heq
    rw [← heq]
    exact eq_of_ascii_fsdecodeFrom (Nat.le_refl _) (heq ▸ hs)
  refine ⟨⟨?_, ?_, ?_⟩, ?_⟩
  · intro h
    exact hne (hread [] (by simp) h)
  · intro h
    exact hdot (hread dot (by simp [dot, lit, cp]) h)
  · intro h
    exact hslash (ascii_of_mem_fsdecodeFrom h (by decide))
  · intro h
    exact hdots (hread dotdot (by simp [dotdot, lit, cp]) h)

/-! ## Paths -/

def isAbsolute (s : Str) : Bool := s.head? == some slash

/-- `path / s`. -/
def join (p : Path) (s : Str) : Path := if isAbsolute s then segments s else p ++ segments s

def parent (p : Path) : Path := p.dropLast

def name (p : Path) : Str := p.getLastD []

/-- `path.resolve()` where there are no links. -/
def resolve (p : Path) : Path := p.foldl (fun q seg => if seg = dotdot then q.dropLast else q ++ [seg]) []

def component (seg : Str) : Option (Comp Name) :=
  if seg = dotdot then some .up
  else (fsencode seg).bind fun bs => if h : nameOk bs = true then some (.name ⟨bs, h⟩) else none

/-- What the operating system is given for a path. -/
def fspath : Path → Option (List (Comp Name))
  | [] => some []
  | seg :: p => (component seg).bind fun c => (fspath p).map (c :: ·)

theorem fspath_append (p q : Path) :
    fspath (p ++ q) = (fspath p).bind fun cs => (fspath q).map (cs ++ ·) := by
  induction p with
  | nil => simp [fspath]
  | cons seg p ih =>
    rw [List.cons_append, fspath, fspath, ih]
    cases component seg with
    | none => rfl
    | some c =>
      cases fspath p with
      | none => rfl
      | some cs => cases fspath q <;> rfl

theorem fspath_append_some {p q : Path} {cs : List (Comp Name)} (h : fspath (p ++ q) = some cs) :
    ∃ ds es, fspath p = some ds ∧ fspath q = some es ∧ cs = ds ++ es := by
  rw [fspath_append] at h
  cases hp : fspath p with
  | none => simp [hp] at h
  | some ds =>
    cases hq : fspath q with
    | none => simp [hp, hq] at h
    | some es =>
      simp only [hp, hq, Option.bind_some, Option.map_some, Option.some.injEq] at h
      exact ⟨ds, es, rfl, rfl, h.symm⟩

theorem fspath_concat_some {p : Path} {seg : Str} {cs : List (Comp Name)} (h : fspath (p ++ [seg]) = some cs) :
    ∃ ds c, fspath p = some ds ∧ component seg = some c ∧ cs = ds ++ [c] := by
  obtain ⟨ds, es, hp, hq, rfl⟩ := fspath_append_some h
  rw [fspath, fspath] at hq
  cases hc : component seg with
  | none => simp [hc] at hq
  | some c =>
    rw [hc] at hq
    obtain rfl := Option.some.inj hq
    exact ⟨ds, c, hp, rfl, rfl⟩

theorem component_up {seg : Str} : component seg = some .up ↔ seg = dotdot := by
  rw [component]
  by_cases h : seg = dotdot
  · simp [h]
  · rw [if_neg h]
    cases fsencode seg with
    | none => simp [h]
    | some bs =>
      by_cases hb : nameOk bs = true <;> simp [hb, h]

theorem slash_not_mem_of_component {seg : Str} {c : Comp Name} (h : component seg = some c) : slash ∉ seg := by
  rw [component] at h
  split at h
  · rename_i hseg
    rw [hseg]
    simp [dotdot, slash, lit, cp]
  · intro hs
    obtain ⟨bs, hbs, hn⟩ := Option.bind_eq_some_iff.mp h
    split at hn
    · rename_i hok
      exact (of_decide_eq_true hok).2.2.1 (ascii_mem_fsencode hbs hs (by decide))
    · cases hn

theorem slash_not_mem_of_fspath {p : Path} {cs : List (Comp Name)} (h : fspath p = some cs) {seg : Str}
    (hs : seg ∈ p) : slash ∉ seg := by
  induction p generalizing cs with
  | nil => cases hs
  | cons s p ih =>
    rw [fspath] at h
    obtain ⟨c, hc, hr⟩ := Option.bind_eq_some_iff.mp h
    obtain ⟨ds, hd, _⟩ := Option.map_eq_some_iff.mp hr
    rcases List.mem_cons.mp hs with rfl | hs
    · exact slash_not_mem_of_component hc
    · exact ih hd hs

/-- Resolving the text of a path and following its components agree. -/
theorem fspath_resolve {p : Path} {cs : List (Comp Name)} (h : fspath p = some cs) :
    fspath (resolve p) = some ((norm cs).map .name) := by
  induction p using List.reverseRecOn generalizing cs with
  | nil =>
    obtain rfl := Option.some.inj h
    rfl
  | append_singleton p seg ih =>
    obtain ⟨ds, c, hp, hc, rfl⟩ := fspath_concat_some h
    have hds := ih hp
    have hres : resolve (p ++ [seg]) = if seg = dotdot then (resolve p).dropLast else resolve p ++ [seg] := by
      simp [resolve, List.foldl_append]
    rw [hres, norm_concat]
    by_cases hseg : seg = dotdot
    · rw [component_up.mpr hseg] at hc
      obtain rfl := Option.some.inj hc
      rw [if_pos hseg, enter]
      rcases List.eq_nil_or_concat (resolve p) with hr | ⟨q, last, hr⟩
      · rw [hr] at hds ⊢
        have hnil : norm ds = [] := by simpa [fspath] using hds
        rw [hnil]
        rfl
      · rw [hr, List.concat_eq_append] at hds
        rw [hr, List.concat_eq_append]
        obtain ⟨es, e, hq, he, hes⟩ := fspath_concat_some hds
        rw [List.dropLast_concat, hq, List.map_dropLast, hes, List.dropLast_concat]
    · rw [if_neg hseg, fspath_append, hds]
      cases c with
      | up => exact absurd (component_up.mp hc) hseg
      | name n => simp [fspath, hc, enter]

theorem norm_above {p q : Path} {cs ds : List (Comp Name)} (hp : fspath p = some cs) (hq : fspath q = some ds)
    (h : resolve p <+: resolve q) : norm cs <+: norm ds := by
  obtain ⟨r, hr⟩ := h
  have hd := fspath_resolve hq
  rw [← hr] at hd
  obtain ⟨as, bs, ha, hb, hab⟩ := fspath_append_some hd
  rw [fspath_resolve hp] at ha
  obtain rfl := Option.some.inj ha
  have hmap : (norm cs).map Comp.name <+: (norm ds).map Comp.name := ⟨bs, hab.symm⟩
  obtain ⟨l, hl, hl'⟩ := List.prefix_map_iff.mp hmap
  have hinj : Function.Injective (Comp.name : Name → Comp Name) := by
    intro a b hab
    exact Comp.name.inj hab
  rw [List.map_injective_iff.mpr hinj hl']
  exact hl

theorem fspath_parent {p : Path} {cs : List (Comp Name)} (h : fspath p = some cs) :
    fspath (parent p) = some cs.dropLast := by
  rcases List.eq_nil_or_concat p with rfl | ⟨q, seg, rfl⟩
  · cases h
    rfl
  · rw [List.concat_eq_append] at h ⊢
    obtain ⟨ds, d, hq, _, rfl⟩ := fspath_concat_some h
    rw [parent, List.dropLast_concat, List.dropLast_concat]
    exact hq

theorem fspath_decoded {ns : List Name} {cs : List (Comp Name)}
    (h : fspath (ns.map fun n => fsdecode n.bytes) = some cs) : ∃ ms : List Name, cs = ms.map .name := by
  induction ns generalizing cs with
  | nil =>
    cases h
    exact ⟨[], rfl⟩
  | cons n ns ih =>
    rw [List.map_cons, fspath] at h
    obtain ⟨d, hd, hr⟩ := Option.bind_eq_some_iff.mp h
    obtain ⟨ds, hds, rfl⟩ := Option.map_eq_some_iff.mp hr
    obtain ⟨ms, rfl⟩ := ih hds
    cases d with
    | up => exact absurd (component_up.mp hd) (fsdecode_segment n).2
    | name m => exact ⟨m :: ms, rfl⟩

theorem join_text {p : Path} {segs : List Str} (h : ∀ seg ∈ segs, Segment seg) (hne : segs ≠ []) :
    join p (text segs) = p ++ segs := by
  have habs : isAbsolute (text segs) = false := by
    cases segs with
    | nil => exact absurd rfl hne
    | cons seg rest =>
      obtain ⟨hseg, _, hslash⟩ := h seg (List.mem_cons_self ..)
      cases seg with
      | nil => exact absurd rfl hseg
      | cons x xs =>
        have hx : x ≠ slash := fun hx => hslash (hx ▸ List.mem_cons_self ..)
        cases rest <;> simp [isAbsolute, text, List.intercalate_cons_cons, hx]
  rw [join, habs, if_neg Bool.false_ne_true, segments_text h hne]

/-! ## Ordinary segments

Text without surrogates and NUL names one file, and is what the file's name
reads as. -/

structure Ordinary (seg : Str) : Prop where
  segment : Segment seg
  not_up : seg ≠ dotdot
  no_nul : (0 : CodePoint) ∉ seg
  scalar : ∀ c ∈ seg, isSurrogate c.val = false

instance (seg : Str) : Decidable (Ordinary seg) :=
  decidable_of_iff ((seg ≠ [] ∧ seg ≠ dot ∧ slash ∉ seg) ∧ seg ≠ dotdot ∧ (0 : CodePoint) ∉ seg ∧
      (seg.all fun c => !isSurrogate c.val) = true)
    ⟨fun h => ⟨h.1, h.2.1, h.2.2.1, fun c hc => by simpa using List.all_eq_true.mp h.2.2.2 c hc⟩,
      fun h => ⟨h.segment, h.not_up, h.no_nul, List.all_eq_true.mpr fun c hc => by simp [h.scalar c hc]⟩⟩

theorem fsencode_scalar {s : Str} (h : ∀ c ∈ s, isSurrogate c.val = false) :
    fsencode s = some (s.flatMap encodePoint) := by
  induction s with
  | nil => rfl
  | cons c s ih =>
    have hc := h c (List.mem_cons_self ..)
    have hn : ¬ (0xdc80 ≤ c.val ∧ c.val ≤ 0xdcff) := by
      have := of_decide_eq_false hc
      omega
    have hp : fsencodePoint c = some (encodePoint c) := by
      rw [fsencodePoint, if_neg hn, hc, if_neg Bool.false_ne_true]
    rw [fsencode, hp, ih fun d hd => h d (List.mem_cons_of_mem c hd)]
    rfl

theorem fsdecodeFrom_scalar {s : Str} (h : ∀ c ∈ s, isSurrogate c.val = false) {n : Nat} (hn : s.length ≤ n) :
    fsdecodeFrom n (s.flatMap encodePoint) = s := by
  induction s generalizing n with
  | nil => cases n <;> rfl
  | cons c s ih =>
    obtain ⟨n, rfl⟩ : ∃ m, n = m + 1 := by
      rw [List.length_cons] at hn
      exact ⟨n - 1, by omega⟩
    have hc := decodePoint_encodePoint (h c (List.mem_cons_self ..)) false (s.flatMap encodePoint)
    have hs := ih (fun d hd => h d (List.mem_cons_of_mem c hd)) (by simpa using hn)
    rw [List.flatMap_cons]
    cases hb : encodePoint c ++ s.flatMap encodePoint with
    | nil => exact absurd (List.append_eq_nil_iff.mp hb).1 (encodePoint_ne_nil c)
    | cons b bs =>
      rw [hb] at hc
      rw [fsdecodeFrom, hc]
      dsimp only
      rw [hs]

theorem fsdecode_scalar {s : Str} (h : ∀ c ∈ s, isSurrogate c.val = false) :
    fsdecode (s.flatMap encodePoint) = s := fsdecodeFrom_scalar h (length_le_flatMap_encodePoint s)

theorem ascii_of_mem_encodePoint {c : CodePoint} {b : Byte} (h : b ∈ encodePoint c) (hb : b.val < 0x80) :
    c.val = b.val := by
  have hc : c.val < 0x110000 := c.isLt
  rw [encodePoint] at h
  have large : ∀ n, 0x80 ≤ n → n < 256 → b ≠ byte n := by
    intro n hn hlt heq
    rw [heq, byte_val hlt] at hb
    omega
  split at h
  · rename_i hlt
    rw [List.mem_singleton.mp h, byte_val (by omega)]
  · exfalso
    split at h
    · simp only [List.mem_cons, List.not_mem_nil, or_false] at h
      rcases h with h | h <;> exact large _ (by omega) (by omega) h
    · split at h
      · simp only [List.mem_cons, List.not_mem_nil, or_false] at h
        rcases h with h | h | h <;> exact large _ (by omega) (by omega) h
      · simp only [List.mem_cons, List.not_mem_nil, or_false] at h
        rcases h with h | h | h | h <;> exact large _ (by omega) (by omega) h

theorem Ordinary.nameOk {seg : Str} (h : Ordinary seg) : nameOk (seg.flatMap encodePoint) = true := by
  have hmem : ∀ (n : Nat) (hn : n < 0x80), byte n ∈ seg.flatMap encodePoint → point n ∈ seg := by
    intro n hn hm
    obtain ⟨c, hc, hb⟩ := List.mem_flatMap.mp hm
    have hv : (byte n).val = n := byte_val (by omega)
    have heq := ascii_of_mem_encodePoint hb (by omega)
    rw [hv] at heq
    rwa [point_eq heq.symm]
  have hread := fsdecode_scalar h.scalar
  refine decide_eq_true ⟨?_, ?_, ?_, ?_, ?_⟩
  · intro he
    rw [he] at hread
    exact h.segment.1 hread.symm
  · intro hm
    exact h.no_nul (hmem 0 (by decide) hm)
  · intro hm
    exact h.segment.2.2 (hmem 47 (by decide) hm)
  · intro he
    rw [he] at hread
    exact h.segment.2.1 (hread.symm.trans (by decide))
  · intro he
    rw [he] at hread
    exact h.not_up (hread.symm.trans (by decide))

/-- The file name of an ordinary segment. -/
def Ordinary.name {seg : Str} (h : Ordinary seg) : Name := ⟨seg.flatMap encodePoint, h.nameOk⟩

theorem Ordinary.decode {seg : Str} (h : Ordinary seg) : fsdecode h.name.bytes = seg := fsdecode_scalar h.scalar

theorem Ordinary.component {seg : Str} (h : Ordinary seg) : component seg = some (.name h.name) := by
  rw [PosixPath.component, if_neg h.not_up, fsencode_scalar h.scalar, Option.bind_some, dif_pos h.nameOk]
  rfl

theorem resolve_append {p q : Path} (h : ∀ seg ∈ q, seg ≠ dotdot) : resolve (p ++ q) = resolve p ++ q := by
  induction q using List.reverseRecOn with
  | nil => simp
  | append_singleton q seg ih =>
    have hq := ih fun s hs => h s (List.mem_append_left _ hs)
    have hseg := h seg (by simp)
    have hstep : resolve ((p ++ q) ++ [seg]) = resolve (p ++ q) ++ [seg] := by
      simp [resolve, List.foldl_append, hseg]
    rw [← List.append_assoc, hstep, hq, List.append_assoc]

theorem join_segment {p : Path} {seg : Str} (h : Segment seg) : join p seg = p ++ [seg] := by
  have hj : join p (text [seg]) = p ++ [seg] := join_text (by simpa using h) (by simp)
  rwa [text, List.intercalate_singleton] at hj

end Support.PosixPath
