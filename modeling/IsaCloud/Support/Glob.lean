import IsaCloud.Support.Text

/-!
# Shell patterns

`fnmatch` on a system whose file names are case sensitive. A pattern is read
left to right: `*`, `?`, a bracketed set, or a literal code point; a bracket
that is never closed is a literal. Inside a set the text is cut at the hyphens
that make a range, ranges that run backwards are dropped with both their ends,
and only then a leading `!` negates what is left.
-/

namespace Support.Glob

set_option autoImplicit false

open Text

/-- Code points by closed intervals, or everything outside them. -/
structure CharSet where
  negated : Bool
  ranges : List (CodePoint × CodePoint)
  deriving DecidableEq, Repr

def CharSet.has (cs : CharSet) (c : CodePoint) : Bool :=
  (cs.ranges.any fun r => decide (r.1 ≤ c ∧ c ≤ r.2)) != cs.negated

def anyPoint : CharSet := ⟨true, []⟩

def justPoint (c : CodePoint) : CharSet := ⟨false, [(c, c)]⟩

inductive Token where
  | star
  | one (cs : CharSet)
  deriving DecidableEq, Repr

/-! ## Bracketed sets -/

/-- How far the text after `[` goes to the bracket that closes it. -/
def setLength (body : Str) : Option Nat :=
  let bang := if body.head? = some (cp '!') then 1 else 0
  let lead := if (body.drop bang).head? = some (cp ']') then bang + 1 else bang
  ((body.drop lead).findIdx? fun c => decide (c = cp ']')).map (lead + ·)

/-- The text cut at hyphens that have `skip` code points before them; later cuts need two. -/
def chunksFrom : Nat → Str → List Str
  | _, [] => [[]]
  | 0, c :: rest =>
    if c = cp '-' then [] :: chunksFrom 2 rest
    else
      match chunksFrom 0 rest with
      | [] => [[c]]
      | chunk :: more => (c :: chunk) :: more
  | skip + 1, c :: rest =>
    match chunksFrom skip rest with
    | [] => [[c]]
    | chunk :: more => (c :: chunk) :: more

/-- A last cut with nothing behind it was a plain hyphen. -/
def closeChunks : List Str → List Str
  | [] => []
  | [chunk] => [chunk]
  | [chunk, []] => [chunk ++ [cp '-']]
  | chunk :: rest => chunk :: closeChunks rest

/-- From the right, a range whose ends are in the wrong order loses both of them. -/
def dropBackward : List Str → List Str
  | [] => []
  | chunk :: rest =>
    match dropBackward rest with
    | [] => [chunk]
    | next :: more =>
      match chunk.getLast?, next with
      | some lo, hi :: tail =>
        if hi < lo then (chunk.dropLast ++ tail) :: more else chunk :: next :: more
      | _, _ => chunk :: next :: more

/-- A cut between two chunks is a range; at the very start it is a hyphen. -/
def rangesOf : Str → List Str → List (CodePoint × CodePoint)
  | chunk, [] => chunk.map fun c => (c, c)
  | chunk, next :: more =>
    match chunk.getLast?, next with
    | some lo, hi :: tail => chunk.dropLast.map (fun c => (c, c)) ++ (lo, hi) :: rangesOf tail more
    | _, _ => (cp '-', cp '-') :: rangesOf next more

def charSet (stuff : Str) : CharSet :=
  let skip := if stuff.head? = some (cp '!') then 2 else 1
  let chunks := dropBackward (closeChunks (chunksFrom skip stuff))
  match chunks with
  | (c :: chunk) :: more =>
    if c = cp '!' then ⟨true, rangesOf chunk more⟩
    else ⟨false, rangesOf (c :: chunk) more⟩
  | _ => ⟨false, []⟩

/-! ## Patterns -/

/-- `skip` code points belong to a set that was already read. -/
def tokensFrom : Nat → Str → List Token
  | _, [] => []
  | skip + 1, _ :: rest => tokensFrom skip rest
  | 0, c :: rest =>
    if c = cp '*' then .star :: tokensFrom 0 rest
    else if c = cp '?' then .one anyPoint :: tokensFrom 0 rest
    else if c = cp '[' then
      match setLength rest with
      | none => .one (justPoint c) :: tokensFrom 0 rest
      | some n => .one (charSet (rest.take n)) :: tokensFrom (n + 1) rest
    else .one (justPoint c) :: tokensFrom 0 rest

def tokens (pattern : Str) : List Token := tokensFrom 0 pattern

def matchTokens : List Token → Str → Bool
  | [], s => s.isEmpty
  | .star :: ts, s => s.tails.any (matchTokens ts)
  | .one _ :: _, [] => false
  | .one cs :: ts, c :: s => cs.has c && matchTokens ts s

/-- `fnmatch.fnmatch(name, pattern)`. -/
def fnmatch (name pattern : Str) : Bool := matchTokens (tokens pattern) name

/-! ## Literal beginnings -/

/-- A text without the code points that mean something in a pattern. -/
def Plain (s : Str) : Prop := ∀ c ∈ s, c ≠ cp '*' ∧ c ≠ cp '?' ∧ c ≠ cp '['

instance (s : Str) : Decidable (Plain s) :=
  decidable_of_iff ((s.all fun c => decide (c ≠ cp '*' ∧ c ≠ cp '?' ∧ c ≠ cp '[')) = true) (by
    simp only [Plain, List.all_eq_true, decide_eq_true_eq])

theorem tokens_append_plain {s : Str} (h : Plain s) (pattern : Str) :
    tokens (s ++ pattern) = s.map (fun c => .one (justPoint c)) ++ tokens pattern := by
  induction s with
  | nil => rfl
  | cons c s ih =>
    obtain ⟨h1, h2, h3⟩ := h c List.mem_cons_self
    have hrest := ih fun d hd => h d (List.mem_cons_of_mem c hd)
    rw [tokens] at hrest
    rw [tokens, List.cons_append, tokensFrom, if_neg h1, if_neg h2, if_neg h3, hrest]
    rfl

theorem justPoint_has (c d : CodePoint) : (justPoint c).has d = decide (d = c) := by
  have : (c ≤ d ∧ d ≤ c) ↔ d = c := by
    constructor
    · exact fun h => le_antisymm h.2 h.1
    · intro h
      exact ⟨h.ge, h.le⟩
  rw [Bool.eq_iff_iff, decide_eq_true_eq, ← this]
  simp [CharSet.has, justPoint]

theorem matchTokens_append_plain (s : Str) (ts : List Token) (name : Str) :
    matchTokens (s.map (fun c => .one (justPoint c)) ++ ts) name = true ↔
      ∃ rest, name = s ++ rest ∧ matchTokens ts rest = true := by
  induction s generalizing name with
  | nil => simp
  | cons c s ih =>
    cases name with
    | nil => simp [matchTokens]
    | cons d name =>
      simp only [List.map_cons, List.cons_append, matchTokens, justPoint_has, Bool.and_eq_true,
        decide_eq_true_eq, ih]
      constructor
      · rintro ⟨rfl, rest, rfl, hm⟩
        exact ⟨rest, rfl, hm⟩
      · rintro ⟨rest, he, hm⟩
        rw [List.cons.injEq] at he
        exact ⟨he.1, rest, he.2, hm⟩

/-- A literal beginning of a pattern is a literal beginning of what it matches. -/
theorem fnmatch_append_plain {s : Str} (h : Plain s) (pattern name : Str) :
    fnmatch name (s ++ pattern) = true ↔ ∃ rest, name = s ++ rest ∧ fnmatch rest pattern = true := by
  rw [fnmatch, tokens_append_plain h, matchTokens_append_plain]
  rfl

end Support.Glob
