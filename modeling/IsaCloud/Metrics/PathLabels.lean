import IsaCloud.Metrics.HttpMiddleware
import IsaCloud.Support.ListParts
import IsaCloud.Support.Substitution
import Mathlib.Data.List.Dedup

/-!
# The path labels

`_normalize_path` puts `{id}` in the place of UUIDs and of segments that are
numbers. What comes out has neither, and a path that has neither stays as it is.
The requests of one route get one label, whatever identifiers they carry, so the
routes bound the number of series however many requests are served.
-/

namespace IsaCloud.Metrics

set_option autoImplicit false

open Support Support.Text Support.Python Support.Substitution

def slash : CodePoint := cp '/'

def newline : CodePoint := 10

def idText : Str := lit "\x7bid\x7d"

/-! ## The two patterns -/

/-- `[0-9a-f]`. -/
def isHex (c : CodePoint) : Bool := isDigit c || decide (97 ≤ c.val ∧ c.val ≤ 102)

def isDash (c : CodePoint) : Bool := c == cp '-'

/-- `[0-9a-f]{8}-[0-9a-f]{4}-[0-9a-f]{4}-[0-9a-f]{4}-[0-9a-f]{12}`. -/
def uuidPattern : List (CodePoint → Bool) :=
  List.replicate 8 isHex ++ isDash :: (List.replicate 4 isHex ++ isDash :: (List.replicate 4 isHex ++
    isDash :: (List.replicate 4 isHex ++ isDash :: List.replicate 12 isHex)))

section Patterns
variable [Unicode]

/-- `\d`. -/
def isDecimal (c : CodePoint) : Bool := if c.val < 0x80 then isDigit c else (Unicode.decimal c).isSome

/-- `(?=/|$)`; the dollar sign also matches before a line end that ends the text. -/
def endsSegment (rest : Str) : Bool := rest == [] || rest == [newline] || rest.head? == some slash

/-- `/\d+(?=/|$)`. Fewer digits than there are would be followed by a digit. -/
def findNumber : Str → Option Nat
  | [] => none
  | c :: rest =>
    let digits := rest.takeWhile isDecimal
    if c = slash ∧ digits ≠ [] ∧ endsSegment (rest.drop digits.length) = true then some (digits.length + 1) else none

def normalizePath (path : Str) : Str :=
  let path := sub (findFixed uuidPattern) idText 0 path
  sub findNumber (slash :: idText) 0 path

/-! ## Segments -/

/-- The segments of a path after its first slash. -/
def segmentsText (segs : List Str) : Str := segs.flatMap fun seg => slash :: seg

/-- A segment that the second pattern matches. -/
def IsNumber (seg : Str) : Prop := seg ≠ [] ∧ ∀ c ∈ seg, isDecimal c = true

/-- Nothing in the path is replaced. -/
structure Clean (path : Str) : Prop where
  free : Free uuidPattern path
  segments : ∀ seg ∈ (path.splitOn slash).tail, ¬ IsNumber seg
  last : ∀ digits, IsNumber digits → (path.splitOn slash).tail.getLast? ≠ some (digits ++ [newline])

omit [Unicode] in
theorem segments_of (path : Str) : ∃ head segs, path = head ++ segmentsText segs ∧ slash ∉ head ∧
    (∀ seg ∈ segs, slash ∉ seg) ∧ path.splitOn slash = head :: segs := by
  induction path using Levels.levels_induction slash with
  | one l hl => exact ⟨l, [], by simp [segmentsText], hl, by simp, List.splitOn_eq_singleton hl⟩
  | more l t hl ih =>
    obtain ⟨head, segs, rfl, hhead, hsegs, hsplit⟩ := ih
    refine ⟨l, head :: segs, rfl, hl, ?_, ?_⟩
    · exact List.forall_mem_cons.mpr ⟨hhead, hsegs⟩
    · rw [List.splitOn_append_cons_self_of_not_mem hl, hsplit]

omit [Unicode] in
theorem splitOn_segments {head : Str} {segs : List Str} (hhead : slash ∉ head) (hsegs : ∀ seg ∈ segs, slash ∉ seg) :
    (head ++ segmentsText segs).splitOn slash = head :: segs := by
  induction segs generalizing head with
  | nil => rw [segmentsText, List.flatMap_nil, List.append_nil, List.splitOn_eq_singleton hhead]
  | cons seg segs ih =>
    have hrest := ih (hsegs seg List.mem_cons_self) fun s hs => hsegs s (List.mem_cons_of_mem seg hs)
    rw [segmentsText, List.flatMap_cons, List.cons_append, List.splitOn_append_cons_self_of_not_mem hhead]
    exact congrArg (head :: ·) hrest

/-! ## UUIDs -/

omit [Unicode] in
theorem uuidPattern_ne_nil : uuidPattern ≠ [] := by decide

omit [Unicode] in
theorem foreign_uuid {g : CodePoint} (hhex : isHex g = false) (hdash : isDash g = false) : Foreign uuidPattern g := by
  intro p hp
  have hclass : p = isHex ∨ p = isDash := by
    simp only [uuidPattern, List.mem_append, List.mem_cons, List.mem_replicate] at hp
    tauto
  rcases hclass with rfl | rfl
  · exact hhex
  · exact hdash

omit [Unicode] in
theorem foreign_slash : Foreign uuidPattern slash := foreign_uuid rfl rfl

omit [Unicode] in
theorem fenced_id : Fenced uuidPattern idText where
  first := ⟨cp '\x7b', lit "id\x7d", rfl, foreign_uuid rfl rfl⟩
  last := ⟨lit "\x7bid", cp '\x7d', rfl, foreign_uuid rfl rfl⟩
  short := by decide

omit [Unicode] in
theorem fenced_slash_id : Fenced uuidPattern (slash :: idText) where
  first := ⟨slash, idText, rfl, foreign_slash⟩
  last := ⟨lit "/\x7bid", cp '\x7d', rfl, foreign_uuid rfl rfl⟩
  short := by decide

def subUuid (path : Str) : Str := sub (findFixed uuidPattern) idText 0 path

omit [Unicode] in
theorem slash_not_mem_subUuid {seg : Str} (h : slash ∉ seg) : slash ∉ subUuid seg :=
  fun hmem => (mem_sub hmem).elim h (by decide)

omit [Unicode] in
theorem slash_not_mem_map_subUuid {segs : List Str} (h : ∀ seg ∈ segs, slash ∉ seg) :
    ∀ seg ∈ segs.map subUuid, slash ∉ seg :=
  List.forall_mem_map.mpr fun seg hseg => slash_not_mem_subUuid (h seg hseg)

omit [Unicode] in
/-- UUIDs are replaced segment by segment. -/
theorem subUuid_segments {head : Str} {segs : List Str} (hhead : slash ∉ head) (hsegs : ∀ seg ∈ segs, slash ∉ seg) :
    subUuid (head ++ segmentsText segs) = subUuid head ++ segmentsText (segs.map subUuid) := by
  induction segs generalizing head with
  | nil => simp [segmentsText]
  | cons seg segs ih =>
    have hrest := ih (hsegs seg List.mem_cons_self) fun s hs => hsegs s (List.mem_cons_of_mem seg hs)
    have hcut : subUuid (head ++ slash :: (seg ++ segmentsText segs)) =
        subUuid head ++ slash :: subUuid (seg ++ segmentsText segs) :=
      sub_fixed_sep uuidPattern_ne_nil foreign_slash hhead _
    rw [hrest] at hcut
    exact hcut

/-! ## Numbers -/

theorem isDecimal_slash : isDecimal slash = false := rfl

theorem sound_findNumber : Sound findNumber := by
  intro s n h
  cases s with
  | nil => cases h
  | cons c rest =>
    simp only [findNumber] at h
    split at h
    · obtain rfl := Option.some.inj h
      have hle := (List.takeWhile_prefix isDecimal (l := rest)).length_le
      rw [List.length_cons]
      omega
    · cases h

/-- The pattern matches the segment; `last` says that no other follows. -/
def Collapses (last : Bool) (seg : Str) : Prop :=
  seg.takeWhile isDecimal ≠ [] ∧ (seg.dropWhile isDecimal = [] ∨ last = true ∧ seg.dropWhile isDecimal = [newline])

instance decidableCollapses (last : Bool) (seg : Str) : Decidable (Collapses last seg) :=
  inferInstanceAs (Decidable (_ ∧ _))

def collapse (last : Bool) (seg : Str) : Str :=
  if Collapses last seg then idText ++ seg.dropWhile isDecimal else seg

def collapseAll : List Str → List Str
  | [] => []
  | seg :: segs => collapse segs.isEmpty seg :: collapseAll segs

theorem findNumber_passed {c : CodePoint} (hc : c ≠ slash) (r : Str) : findNumber (c :: r) = none := by
  rw [findNumber, if_neg]
  exact fun h => hc h.1

/-- A beginning without a slash stays as it is. -/
theorem subNumbers_append {a : Str} (ha : slash ∉ a) (b : Str) :
    sub findNumber (slash :: idText) 0 (a ++ b) = a ++ sub findNumber (slash :: idText) 0 b :=
  sub_append_passed (fun _ hc => findNumber_passed fun h => ha (h ▸ hc)) b

/-- The digits end with the segment. -/
theorem takeWhile_segment {seg : Str} (segs : List Str) :
    (seg ++ segmentsText segs).takeWhile isDecimal = seg.takeWhile isDecimal := by
  induction seg with
  | nil =>
    cases segs with
    | nil => rfl
    | cons next segs =>
      change (slash :: (next ++ segmentsText segs)).takeWhile isDecimal = []
      rw [List.takeWhile_cons, isDecimal_slash]
      rfl
  | cons c seg ih => rw [List.cons_append, List.takeWhile_cons, ih, List.takeWhile_cons]

omit [Unicode] in
theorem endsSegment_segment {rest : Str} (hrest : slash ∉ rest) (segs : List Str) :
    endsSegment (rest ++ segmentsText segs) = true ↔ rest = [] ∨ segs.isEmpty = true ∧ rest = [newline] := by
  cases rest with
  | nil =>
    cases segs with
    | nil => exact iff_of_true rfl (.inl rfl)
    | cons next segs => exact iff_of_true rfl (.inl rfl)
  | cons c rest =>
    have hc : c ≠ slash := fun h => hrest (h ▸ List.mem_cons_self)
    cases segs with
    | nil => simp [endsSegment, segmentsText, hc]
    | cons next segs => simp [endsSegment, segmentsText, hc]

theorem drop_segment (seg : Str) (segs : List Str) :
    (seg ++ segmentsText segs).drop (seg.takeWhile isDecimal).length = seg.dropWhile isDecimal ++ segmentsText segs := by
  have hparts : seg ++ segmentsText segs =
      seg.takeWhile isDecimal ++ (seg.dropWhile isDecimal ++ segmentsText segs) := by
    rw [← List.append_assoc, List.takeWhile_append_dropWhile]
  nth_rewrite 1 [hparts]
  exact List.drop_left

theorem findNumber_segment {seg : Str} (hseg : slash ∉ seg) (segs : List Str) :
    findNumber (slash :: (seg ++ segmentsText segs)) =
      if Collapses segs.isEmpty seg then some ((seg.takeWhile isDecimal).length + 1) else none := by
  have hrest : slash ∉ seg.dropWhile isDecimal := fun hmem => hseg ((List.dropWhile_suffix isDecimal).mem hmem)
  simp only [findNumber, takeWhile_segment, drop_segment, endsSegment_segment hrest, true_and]
  exact if_congr Iff.rfl rfl rfl

/-- Numbers are replaced segment by segment. -/
theorem subNumbers_segments {segs : List Str} (hsegs : ∀ seg ∈ segs, slash ∉ seg) :
    sub findNumber (slash :: idText) 0 (segmentsText segs) = segmentsText (collapseAll segs) := by
  induction segs with
  | nil => rfl
  | cons seg segs ih =>
    have hseg := hsegs seg List.mem_cons_self
    have hrest := ih fun s hs => hsegs s (List.mem_cons_of_mem seg hs)
    have hfind := findNumber_segment hseg segs
    change sub findNumber (slash :: idText) 0 (slash :: (seg ++ segmentsText segs)) =
      slash :: (collapse segs.isEmpty seg ++ segmentsText (collapseAll segs))
    rw [collapse]
    by_cases hnumber : Collapses segs.isEmpty seg
    · rw [if_pos hnumber] at hfind ⊢
      have hbehind : slash ∉ seg.dropWhile isDecimal := fun hmem => hseg ((List.dropWhile_suffix isDecimal).mem hmem)
      rw [sub_found sound_findNumber hfind, List.drop_succ_cons, drop_segment, subNumbers_append hbehind, hrest,
        List.append_assoc]
      rfl
    · rw [if_neg hnumber] at hfind ⊢
      rw [sub_passed hfind, subNumbers_append hseg, hrest]

theorem normalizePath_segments {head : Str} {segs : List Str} (hhead : slash ∉ head) (hsegs : ∀ seg ∈ segs, slash ∉ seg) :
    normalizePath (head ++ segmentsText segs) =
      subUuid head ++ segmentsText (collapseAll (segs.map subUuid)) := by
  change sub findNumber (slash :: idText) 0 (subUuid (head ++ segmentsText segs)) = _
  rw [subUuid_segments hhead hsegs, subNumbers_append (slash_not_mem_subUuid hhead),
    subNumbers_segments (slash_not_mem_map_subUuid hsegs)]

/-! ## What is left -/

theorem takeWhile_number {digits : Str} (h : IsNumber digits) : digits.takeWhile isDecimal = digits :=
  List.takeWhile_eq_self_iff.mpr h.2

theorem collapses_iff {last : Bool} {seg : Str} :
    Collapses last seg ↔ IsNumber seg ∨ last = true ∧ ∃ digits, IsNumber digits ∧ seg = digits ++ [newline] := by
  have hparts := List.takeWhile_append_dropWhile (p := isDecimal) (l := seg)
  constructor
  · rintro ⟨hdigits, hrest⟩
    have hnumber : IsNumber (seg.takeWhile isDecimal) := ⟨hdigits, fun c hc => List.mem_takeWhile_imp hc⟩
    rcases hrest with hrest | ⟨hlast, hrest⟩
    · rw [hrest, List.append_nil] at hparts
      exact .inl (hparts ▸ hnumber)
    · rw [hrest] at hparts
      exact .inr ⟨hlast, _, hnumber, hparts.symm⟩
  · rintro (hnumber | ⟨hlast, digits, hnumber, rfl⟩)
    · refine ⟨(takeWhile_number hnumber).symm ▸ hnumber.1, .inl ?_⟩
      exact List.dropWhile_eq_nil_iff.mpr hnumber.2
    · have hspan : (digits ++ [newline]).takeWhile isDecimal = digits := by
        rw [List.takeWhile_append_of_pos hnumber.2]
        exact List.append_nil digits
      have hbehind : (digits ++ [newline]).dropWhile isDecimal = [newline] := by
        rw [hspan] at hparts
        exact List.append_cancel_left hparts
      exact ⟨hspan.symm ▸ hnumber.1, .inr ⟨hlast, hbehind⟩⟩

/-- What comes out of a segment is matched no more. -/
theorem not_collapses_collapse (last : Bool) (seg : Str) : ¬ Collapses last (collapse last seg) := by
  rw [collapse]
  by_cases h : Collapses last seg
  · rw [if_pos h]
    intro hagain
    exact hagain.1 rfl
  · rw [if_neg h]
    exact h

theorem collapseAll_getLast? (segs : List Str) : (collapseAll segs).getLast? = segs.getLast?.map (collapse true) := by
  induction segs with
  | nil => rfl
  | cons seg segs ih =>
    cases segs with
    | nil => rfl
    | cons next segs =>
      rw [collapseAll, collapseAll, List.getLast?_cons_cons, List.getLast?_cons_cons]
      exact ih

theorem exists_of_mem_collapseAll {segs : List Str} {seg : Str} (h : seg ∈ collapseAll segs) :
    ∃ last, ∃ before ∈ segs, seg = collapse last before := by
  induction segs with
  | nil => cases h
  | cons first segs ih =>
    rcases List.mem_cons.mp h with rfl | h
    · exact ⟨_, first, List.mem_cons_self, rfl⟩
    · obtain ⟨last, before, hmem, rfl⟩ := ih h
      exact ⟨last, before, List.mem_cons_of_mem first hmem, rfl⟩

theorem collapseAll_of_clean {segs : List Str} (hnumber : ∀ seg ∈ segs, ¬ IsNumber seg)
    (hlast : ∀ digits, IsNumber digits → segs.getLast? ≠ some (digits ++ [newline])) : collapseAll segs = segs := by
  induction segs with
  | nil => rfl
  | cons seg segs ih =>
    have hkeep : ¬ Collapses segs.isEmpty seg := by
      rw [collapses_iff]
      rintro (h | ⟨hempty, digits, hdigits, rfl⟩)
      · exact hnumber seg List.mem_cons_self h
      · rw [List.isEmpty_iff.mp hempty] at hlast
        exact hlast digits hdigits rfl
    have hrest : collapseAll segs = segs := by
      refine ih (fun s hs => hnumber s (List.mem_cons_of_mem seg hs)) fun digits hdigits h => hlast digits hdigits ?_
      cases segs with
      | nil => cases h
      | cons next segs => exact h
    rw [collapseAll, collapse, if_neg hkeep, hrest]

theorem slash_not_mem_collapseAll {segs : List Str} (h : ∀ seg ∈ segs, slash ∉ seg) :
    ∀ seg ∈ collapseAll segs, slash ∉ seg := by
  intro seg hseg
  obtain ⟨last, before, hmem, rfl⟩ := exists_of_mem_collapseAll hseg
  rw [collapse]
  split
  · rw [List.mem_append]
    rintro (hid | hrest)
    · exact absurd hid (by decide)
    · exact h before hmem ((List.dropWhile_suffix isDecimal).mem hrest)
  · exact h before hmem

theorem free_normalizePath (path : Str) : Free uuidPattern (normalizePath path) :=
  free_sub sound_findNumber uuidPattern_ne_nil fenced_slash_id fun t ht _ =>
    free_sub_fixed uuidPattern_ne_nil fenced_id path t ht

theorem clean_normalizePath (path : Str) : Clean (normalizePath path) := by
  obtain ⟨head, segs, rfl, hhead, hsegs, -⟩ := segments_of path
  have hsplit : ((normalizePath (head ++ segmentsText segs)).splitOn slash).tail = collapseAll (segs.map subUuid) := by
    rw [normalizePath_segments hhead hsegs,
      splitOn_segments (slash_not_mem_subUuid hhead) (slash_not_mem_collapseAll (slash_not_mem_map_subUuid hsegs)),
      List.tail_cons]
  refine ⟨free_normalizePath _, ?_, ?_⟩
  · rw [hsplit]
    intro seg hseg hnumber
    obtain ⟨last, before, -, rfl⟩ := exists_of_mem_collapseAll hseg
    exact not_collapses_collapse last before (collapses_iff.mpr (.inl hnumber))
  · rw [hsplit, collapseAll_getLast?]
    intro digits hdigits h
    obtain ⟨before, -, hbefore⟩ := Option.map_eq_some_iff.mp h
    exact not_collapses_collapse true before (collapses_iff.mpr (.inr ⟨rfl, digits, hdigits, hbefore⟩))

/-- No identifier is left in a label, and nothing else is replaced: a path stays as it is exactly if it has none. -/
theorem normalize_clean (path : Str) :
    Clean (normalizePath path) ∧ (normalizePath path = path ↔ Clean path) := by
  refine ⟨clean_normalizePath path, fun h => h ▸ clean_normalizePath path, fun h => ?_⟩
  obtain ⟨head, segs, rfl, hhead, hsegs, hsplit⟩ := segments_of path
  have hnumber := h.segments
  have hlast := h.last
  rw [hsplit, List.tail_cons] at hnumber hlast
  have huuid : subUuid (head ++ segmentsText segs) = head ++ segmentsText segs := sub_fixed_of_free h.free
  change sub findNumber (slash :: idText) 0 (subUuid (head ++ segmentsText segs)) = _
  rw [huuid, subNumbers_append hhead, subNumbers_segments hsegs, collapseAll_of_clean hnumber hlast]

end Patterns

/-! ## Routes -/

/-- A segment of a route, which is a text of its own or the place of an identifier. -/
inductive RoutePart where
  | literal (text : Str)
  | id

def IsUuid (seg : Str) : Prop := fits uuidPattern seg = true ∧ seg.length = uuidPattern.length

namespace RoutePart

def label : RoutePart → Str
  | literal text => text
  | id => idText

section
variable [Unicode]

/-- The segments of a request in this place. -/
def Fills : RoutePart → Str → Prop
  | literal text, seg => seg = text
  | id, seg => IsNumber seg ∨ IsUuid seg

/-- The patterns match nothing in a text of the route. -/
def Plain : RoutePart → Prop
  | literal text => slash ∉ text ∧ Free uuidPattern text ∧ ¬ Collapses true text
  | id => True

end

end RoutePart

structure Route [Unicode] where
  parts : List RoutePart
  plain : ∀ part ∈ parts, part.Plain

namespace Route
variable [Unicode]

def label (r : Route) : Str := segmentsText (r.parts.map RoutePart.label)

def Serves (r : Route) (path : Str) : Prop := ∃ segs, path = segmentsText segs ∧ List.Forall₂ RoutePart.Fills r.parts segs

end Route

section Routes
variable [Unicode]

/-- A number has no dash, so no UUID is in it. -/
theorem IsNumber.free {seg : Str} (h : IsNumber seg) : Free uuidPattern seg := by
  intro t ht
  refine Bool.eq_false_iff.mpr fun hfits => ?_
  obtain ⟨c, hc, hdash⟩ := mem_of_fits hfits (p := isDash) (by simp [uuidPattern])
  obtain rfl : c = cp '-' := eq_of_beq hdash
  exact absurd (h.2 _ (ht.mem hc)) (show isDecimal (cp '-') ≠ true from Bool.false_ne_true)

theorem IsNumber.slash_not_mem {seg : Str} (h : IsNumber seg) : slash ∉ seg :=
  fun hmem => Bool.false_ne_true (isDecimal_slash.symm.trans (h.2 slash hmem))

theorem IsNumber.collapse {seg : Str} (h : IsNumber seg) (last : Bool) : collapse last seg = idText := by
  rw [Metrics.collapse, if_pos (collapses_iff.mpr (.inl h)), List.dropWhile_eq_nil_iff.mpr h.2, List.append_nil]

theorem collapse_of_plain {text : Str} (h : ¬ Collapses true text) (last : Bool) : collapse last text = text :=
  if_neg fun hcollapses => h ⟨hcollapses.1, hcollapses.2.imp_right fun hrest => ⟨rfl, hrest.2⟩⟩

namespace RoutePart
variable {part : RoutePart} {seg : Str}

theorem Fills.slash_not_mem (h : part.Fills seg) (hplain : part.Plain) : slash ∉ seg := by
  cases part with
  | literal text => exact h ▸ hplain.1
  | id => exact h.elim IsNumber.slash_not_mem fun huuid => not_mem_of_fits huuid.1 huuid.2 foreign_slash

/-- A segment of a request comes out as that of the route. -/
theorem Fills.normalized (h : part.Fills seg) (hplain : part.Plain) (last : Bool) :
    collapse last (subUuid seg) = part.label := by
  cases part with
  | literal text =>
    obtain rfl : seg = text := h
    rw [subUuid, sub_fixed_of_free hplain.2.1, collapse_of_plain hplain.2.2]
    rfl
  | id =>
    rcases h with hnumber | ⟨hfits, hlen⟩
    · rw [subUuid, sub_fixed_of_free hnumber.free, hnumber.collapse]
      rfl
    · rw [subUuid, sub_fixed_whole uuidPattern_ne_nil hfits hlen]
      exact if_neg fun hcollapses => hcollapses.1 rfl

end RoutePart

theorem collapseAll_fills {parts : List RoutePart} {segs : List Str} (hplain : ∀ part ∈ parts, part.Plain)
    (h : List.Forall₂ RoutePart.Fills parts segs) : collapseAll (segs.map subUuid) = parts.map RoutePart.label := by
  induction h with
  | nil => rfl
  | cons hfills _ ih =>
    rw [List.map_cons, collapseAll, hfills.normalized (hplain _ List.mem_cons_self),
      ih fun part hpart => hplain part (List.mem_cons_of_mem _ hpart), List.map_cons]

theorem slash_not_mem_fills {parts : List RoutePart} {segs : List Str} (hplain : ∀ part ∈ parts, part.Plain)
    (h : List.Forall₂ RoutePart.Fills parts segs) : ∀ seg ∈ segs, slash ∉ seg := by
  induction h with
  | nil => exact List.forall_mem_nil _
  | cons hfills _ ih =>
    exact List.forall_mem_cons.mpr ⟨hfills.slash_not_mem (hplain _ List.mem_cons_self),
      ih fun part hpart => hplain part (List.mem_cons_of_mem _ hpart)⟩

/-- The requests of a route have one label. -/
theorem Route.Serves.normalized {r : Route} {path : Str} (h : r.Serves path) : normalizePath path = r.label := by
  obtain ⟨segs, rfl, hfills⟩ := h
  have hsegs := normalizePath_segments List.not_mem_nil (slash_not_mem_fills r.plain hfills)
  rw [collapseAll_fills r.plain hfills] at hsegs
  exact hsegs

end Routes

/-! ## Runs -/

def MetricOp.pathLabel : MetricOp → Option Str
  | .inProgressInc _ => none
  | .inProgressDec _ => none
  | .requestsTotal _ path _ => some path
  | .requestDuration _ path => some path
  | .responseSize _ path _ => some path

/-- The path labels of all series written so far. -/
def pathLabels (metrics : List MetricOp) : List Str := metrics.filterMap MetricOp.pathLabel

section Runs
variable [Unicode]

omit [Unicode] in
theorem pathLabels_append (ops ops' : List MetricOp) : pathLabels (ops ++ ops') = pathLabels ops ++ pathLabels ops' :=
  List.filterMap_append

omit [Unicode] in
theorem pathLabels_beforeNext (q : HttpRequest) : pathLabels (beforeNext q) = [] := by
  rw [beforeNext]
  split
  · rfl
  · rfl

theorem mem_pathLabels_recordSize {method normalized label : Str} {r : HttpResponse}
    (h : label ∈ pathLabels (recordSize method normalized r).1) : label = normalized := by
  unfold recordSize at h
  split at h
  · cases h
  · split at h
    · cases h
    · split at h
      · exact List.mem_singleton.mp h
      · cases h

/-- A request is recorded under its own path. -/
theorem mem_pathLabels_afterNext {q : HttpRequest} {o : Outcome} {label : Str}
    (h : label ∈ pathLabels (afterNext normalizePath q o).1) : q.measured = true ∧ label = normalizePath q.path := by
  unfold afterNext at h
  cases hmeasured : q.measured with
  | false =>
    rw [hmeasured] at h
    cases o <;> cases h
  | true =>
    refine ⟨rfl, ?_⟩
    rw [hmeasured] at h
    cases o with
    | response r =>
      rcases List.mem_cons.mp h with rfl | h
      · rfl
      · rcases List.mem_cons.mp h with rfl | h
        · rfl
        · exact mem_pathLabels_recordSize h
    | exception => exact List.mem_singleton.mp h
    | cancelled => cases h

/-- A measured request that enters is served by one of the routes. -/
def Served (routes : List Route) (q : HttpRequest) : Prop := q.measured = true → ∃ r ∈ routes, r.Serves q.path

/-- The waiting requests are served, and all labels are those of the routes. -/
structure Server.Bounded (routes : List Route) (s : Server) : Prop where
  running : ∀ q ∈ s.running, Served routes q
  labels : ∀ label ∈ pathLabels s.metrics, label ∈ routes.map Route.label

theorem Server.Bounded.step {routes : List Route} {s : Server} (hs : s.Bounded routes) {e : ServerEvent}
    (he : ∀ q, e = .enter q → Served routes q) : (s.step normalizePath e).Bounded routes := by
  cases e with
  | enter q =>
    refine ⟨List.forall_mem_append.mpr ⟨hs.running, List.forall_mem_singleton.mpr (he q rfl)⟩, ?_⟩
    change ∀ label ∈ pathLabels (s.metrics ++ beforeNext q), label ∈ routes.map Route.label
    rw [pathLabels_append, pathLabels_beforeNext, List.append_nil]
    exact hs.labels
  | leave i o =>
    cases hq : s.running[i]? with
    | none => rwa [Server.step, hq]
    | some q =>
      rw [Server.step, hq]
      refine ⟨fun q' hq' => hs.running q' (List.mem_of_mem_eraseIdx hq'), ?_⟩
      change ∀ label ∈ pathLabels (s.metrics ++ (afterNext normalizePath q o).1), label ∈ routes.map Route.label
      rw [pathLabels_append]
      refine List.forall_mem_append.mpr ⟨hs.labels, fun label hlabel => ?_⟩
      obtain ⟨hmeasured, rfl⟩ := mem_pathLabels_afterNext hlabel
      obtain ⟨r, hr, hserves⟩ := hs.running q (List.mem_of_getElem? hq) hmeasured
      exact List.mem_map.mpr ⟨r, hr, hserves.normalized.symm⟩

theorem Server.Bounded.run {routes : List Route} {events : List ServerEvent}
    (h : ∀ q, .enter q ∈ events → Served routes q) {s : Server} (hs : s.Bounded routes) :
    (run (Server.step normalizePath) s events).Bounded routes := by
  induction events generalizing s with
  | nil => exact hs
  | cons e events ih =>
    refine ih (fun q hq => h q (List.mem_cons_of_mem e hq)) (hs.step fun q he => h q ?_)
    exact he ▸ List.mem_cons_self

/-- However many requests come in, in whatever order they end, the path labels are those of the routes. -/
theorem labels_bounded (routes : List Route) (events : List ServerEvent)
    (h : ∀ q, .enter q ∈ events → q.measured = true → ∃ r ∈ routes, r.Serves q.path) :
    (∀ label ∈ pathLabels (run (Server.step normalizePath) Server.start events).metrics,
      label ∈ routes.map Route.label) ∧
    (pathLabels (run (Server.step normalizePath) Server.start events).metrics).dedup.length ≤ routes.length := by
  have hstart : Server.start.Bounded routes := ⟨List.forall_mem_nil _, List.forall_mem_nil _⟩
  have hlabels := (Server.Bounded.run h hstart).labels
  refine ⟨hlabels, ?_⟩
  have hsub := List.subperm_of_subset (List.nodup_dedup _) fun label hlabel => hlabels label (List.mem_dedup.mp hlabel)
  exact hsub.length_le.trans_eq (List.length_map _)

end Runs

section Example

attribute [local instance] asciiUnicode

theorem plain_of_letter {c : CodePoint} {text : Str} (hslash : slash ∉ c :: text) (hlen : text.length < 35)
    (hc : isDecimal c = false) : (RoutePart.literal (c :: text)).Plain := by
  refine ⟨hslash, free_of_short (Nat.succ_lt_succ hlen), fun h => h.1 ?_⟩
  rw [List.takeWhile_cons, hc]
  rfl

/-- The route of `/api/orders/12345`. -/
def ordersRoute : Route where
  parts := [.literal (lit "api"), .literal (lit "orders"), .id]
  plain := by
    refine List.forall_mem_cons.mpr ⟨?_, List.forall_mem_cons.mpr ⟨?_, List.forall_mem_singleton.mpr trivial⟩⟩
    · exact plain_of_letter (by decide) (by decide) rfl
    · exact plain_of_letter (by decide) (by decide) rfl

theorem ordersRoute_serves (number : Str) (h : IsNumber number) :
    ordersRoute.Serves (segmentsText [lit "api", lit "orders", number]) :=
  ⟨_, rfl, .cons rfl (.cons rfl (.cons (.inl h) .nil))⟩

theorem orders_bounded :
    (∀ label ∈ pathLabels (run (Server.step normalizePath) Server.start
        [.enter ⟨lit "GET", lit "/api/orders/12345"⟩, .enter ⟨lit "GET", lit "/api/orders/7"⟩,
          .leave 1 (.response ⟨200, none⟩), .leave 0 .exception]).metrics, label ∈ [ordersRoute].map Route.label) ∧
    (pathLabels (run (Server.step normalizePath) Server.start
        [.enter ⟨lit "GET", lit "/api/orders/12345"⟩, .enter ⟨lit "GET", lit "/api/orders/7"⟩,
          .leave 1 (.response ⟨200, none⟩), .leave 0 .exception]).metrics).dedup.length ≤ [ordersRoute].length := by
  refine labels_bounded [ordersRoute] _ fun q hq _ => ⟨ordersRoute, List.mem_singleton_self _, ?_⟩
  simp only [List.mem_cons, List.not_mem_nil, ServerEvent.enter.injEq, reduceCtorEq, or_false] at hq
  rcases hq with rfl | rfl
  · exact ordersRoute_serves (lit "12345") ⟨by decide, List.all_eq_true.mp rfl⟩
  · exact ordersRoute_serves (lit "7") ⟨by decide, List.all_eq_true.mp rfl⟩

end Example

end IsaCloud.Metrics
