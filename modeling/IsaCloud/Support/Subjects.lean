import IsaCloud.Support.Text

/-!
# Dotted subjects and wildcard filters

A subject is a sequence of tokens between dots. In a filter the token `*` stands
for one token and a last token `>` for one or more.
-/

namespace Support.Subjects

set_option autoImplicit false

open Text

def dotPoint : CodePoint := cp '.'

def star : Str := lit "*"

def rest : Str := lit ">"

def isWildcard (t : Str) : Bool := decide (t = star ∨ t = rest)

def isBlank (c : CodePoint) : Bool := decide (c.val ∈ [9, 10, 12, 13, 32])

/-- A text that may stand between two dots. -/
def isToken (t : Str) : Bool := !t.isEmpty && t.all fun c => !isBlank c && decide (c ≠ dotPoint)

def splitDots (s : Str) : List Str := s.splitOn dotPoint

/-- A subject that a message can be published to. -/
structure Subject where
  tokens : List Str
  ne_nil : tokens ≠ []
  literal : ∀ t ∈ tokens, isToken t = true ∧ isWildcard t = false

/-- What can be subscribed to. -/
structure Filter where
  tokens : List Str
  ne_nil : tokens ≠ []
  token : ∀ t ∈ tokens, isToken t = true
  rest_last : rest ∉ tokens.dropLast

def Filter.text (f : Filter) : Str := [dotPoint].intercalate f.tokens

def matchTokens : List Str → List Str → Bool
  | [], ss => ss.isEmpty
  | _ :: _, [] => false
  | t :: ts, s :: ss => decide (t = rest ∧ ts = []) || (decide (t = star ∨ t = s) && matchTokens ts ss)

def Filter.Matches (f : Filter) (s : Subject) : Prop := matchTokens f.tokens s.tokens = true

/-- The subject is one that the text of a filter describes. -/
def Captures (pattern : Str) (s : Subject) : Prop := matchTokens (splitDots pattern) s.tokens = true

/-! ## Cutting at dots -/

theorem dotPoint_not_mem {t : Str} (h : isToken t = true) : dotPoint ∉ t := by
  intro hm
  rw [isToken, Bool.and_eq_true, List.all_eq_true] at h
  simpa using h.2 dotPoint hm

theorem splitDots_cons {t : Str} (h : dotPoint ∉ t) (s : Str) : splitDots (t ++ dotPoint :: s) = t :: splitDots s :=
  List.splitOn_append_cons_self_of_not_mem h s

theorem splitDots_single {t : Str} (h : dotPoint ∉ t) : splitDots t = [t] := List.splitOn_eq_singleton h

theorem Filter.splitDots_text (f : Filter) : splitDots f.text = f.tokens :=
  List.splitOn_intercalate dotPoint (fun t ht => dotPoint_not_mem (f.token t ht)) f.ne_nil

/-! ## Matching -/

theorem matchTokens_rest {ss : List Str} : matchTokens [rest] ss = true ↔ ss ≠ [] := by
  cases ss with
  | nil => simp [matchTokens]
  | cons s ss => simp [matchTokens]

theorem matchTokens_star {ts ss : List Str} :
    matchTokens (star :: ts) ss = true ↔ ∃ s ss', ss = s :: ss' ∧ matchTokens ts ss' = true := by
  cases ss with
  | nil => simp [matchTokens]
  | cons s ss =>
    have hne : star ≠ rest := by decide
    simp [matchTokens, hne]

theorem matchTokens_literal {t : Str} (ht : isWildcard t = false) {ts ss : List Str} :
    matchTokens (t :: ts) ss = true ↔ ∃ ss', ss = t :: ss' ∧ matchTokens ts ss' = true := by
  obtain ⟨hs, hr⟩ := not_or.mp (of_decide_eq_false ht)
  cases ss with
  | nil => simp [matchTokens]
  | cons s ss =>
    simp only [matchTokens, hr, hs, false_and, decide_false, false_or, Bool.false_or, Bool.and_eq_true,
      decide_eq_true_eq, List.cons.injEq]
    constructor
    · rintro ⟨rfl, hm⟩
      exact ⟨ss, ⟨rfl, rfl⟩, hm⟩
    · rintro ⟨ss', ⟨rfl, rfl⟩, hm⟩
      exact ⟨rfl, hm⟩

/-- A filter takes at least as many tokens as it has. -/
theorem length_le_of_matchTokens {ts ss : List Str} (h : matchTokens ts ss = true) : ts.length ≤ ss.length := by
  induction ts generalizing ss with
  | nil => exact Nat.zero_le _
  | cons t ts ih =>
    cases ss with
    | nil => simp [matchTokens] at h
    | cons s ss =>
      simp only [matchTokens, Bool.or_eq_true, Bool.and_eq_true, decide_eq_true_eq] at h
      rcases h with ⟨_, rfl⟩ | ⟨_, hm⟩
      · simp
      · have := ih hm
        simp only [List.length_cons]
        omega

/-- A literal token of a filter is a token of whatever the filter matches. -/
theorem getElem?_of_matches {t : Str} {ts ss : List Str} {n : Nat} (ht : isWildcard t = false) (hn : ts[n]? = some t)
    (hm : matchTokens ts ss = true) : ss[n]? = some t := by
  induction ts generalizing ss n with
  | nil => simp at hn
  | cons u ts ih =>
    cases ss with
    | nil => simp [matchTokens] at hm
    | cons s ss =>
      simp only [matchTokens, Bool.or_eq_true, Bool.and_eq_true, decide_eq_true_eq] at hm
      cases n with
      | zero =>
        obtain rfl : u = t := by simpa using hn
        obtain ⟨hstar, hrest⟩ := not_or.mp (of_decide_eq_false ht)
        rcases hm with ⟨hr, _⟩ | ⟨hs | rfl, _⟩
        · exact absurd hr hrest
        · exact absurd hs hstar
        · rfl
      | succ n =>
        rcases hm with ⟨_, rfl⟩ | ⟨_, hm⟩
        · simp at hn
        · simpa using ih (by simpa using hn) hm

/-- The subjects with a given first token and more behind it. -/
theorem matchTokens_first {t : Str} (ht : isWildcard t = false) {ss : List Str} :
    matchTokens [t, rest] ss = true ↔ ss[0]? = some t ∧ 2 ≤ ss.length := by
  rw [matchTokens_literal ht]
  constructor
  · rintro ⟨ss', rfl, hm⟩
    have := List.length_pos_of_ne_nil (matchTokens_rest.mp hm)
    exact ⟨rfl, by simpa [Nat.succ_le_iff] using this⟩
  · rintro ⟨hfirst, hlen⟩
    obtain _ | ⟨s, ss'⟩ := ss
    · simp at hlen
    · obtain rfl : s = t := by simpa using hfirst
      exact ⟨ss', rfl, matchTokens_rest.mpr (List.ne_nil_of_length_pos (by simpa [Nat.succ_le_iff] using hlen))⟩

/-- The subjects with a given second token and more behind it. -/
theorem matchTokens_second {t : Str} (ht : isWildcard t = false) {ss : List Str} :
    matchTokens [star, t, rest] ss = true ↔ ss[1]? = some t ∧ 3 ≤ ss.length := by
  rw [matchTokens_star]
  constructor
  · rintro ⟨s, ss', rfl, hm⟩
    obtain ⟨hsecond, hlen⟩ := (matchTokens_first ht).mp hm
    exact ⟨by simpa using hsecond, by simpa using hlen⟩
  · rintro ⟨hsecond, hlen⟩
    obtain _ | ⟨s, ss'⟩ := ss
    · simp at hlen
    · exact ⟨s, ss', rfl, (matchTokens_first ht).mpr ⟨by simpa using hsecond, by simpa using hlen⟩⟩

/-! ## Subjects that a filter matches -/

/-- The wildcards of a filter replaced by a token. -/
def fillToken (x t : Str) : Str := if isWildcard t then x else t

def Filter.fill (f : Filter) (x : Str) (hx : isToken x = true ∧ isWildcard x = false) : Subject where
  tokens := f.tokens.map (fillToken x)
  ne_nil := by simpa using f.ne_nil
  literal := by
    intro t ht
    obtain ⟨u, hu, rfl⟩ := List.mem_map.mp ht
    rw [fillToken]
    split
    · exact hx
    · rename_i hw
      exact ⟨f.token u hu, by simpa using hw⟩

theorem matchTokens_fill {x : Str} {ts : List Str} (h : rest ∉ ts.dropLast) :
    matchTokens ts (ts.map (fillToken x)) = true := by
  induction ts with
  | nil => rfl
  | cons t ts ih =>
    cases ts with
    | nil =>
      simp only [List.map_cons, List.map_nil, matchTokens, fillToken, isWildcard, List.isEmpty_nil, Bool.and_true,
        and_true, Bool.or_eq_true, decide_eq_true_eq]
      by_cases hr : t = rest
      · exact Or.inl hr
      · by_cases hs : t = star
        · exact Or.inr (Or.inl hs)
        · simp [hr, hs]
    | cons u us =>
      rw [List.dropLast_cons_of_ne_nil (by simp), List.mem_cons, not_or] at h
      have hrest := ih h.2
      have ht : t ≠ rest := fun he => h.1 he.symm
      rw [List.map_cons, matchTokens, hrest, Bool.and_true, Bool.or_eq_true]
      by_cases hs : t = star
      · exact Or.inr (decide_eq_true (Or.inl hs))
      · refine Or.inr (decide_eq_true (Or.inr ?_))
        simp [fillToken, isWildcard, hs, ht]

theorem Filter.matches_fill (f : Filter) {x : Str} (hx : isToken x = true ∧ isWildcard x = false) :
    f.Matches (f.fill x hx) := matchTokens_fill f.rest_last

/-- A token that is filled in only where a wildcard was. -/
theorem getElem?_of_fill {x t : Str} {ts : List Str} {n : Nat} (hne : x ≠ t)
    (h : (ts.map (fillToken x))[n]? = some t) : ts[n]? = some t := by
  rw [List.getElem?_map, Option.map_eq_some_iff] at h
  obtain ⟨u, hu, he⟩ := h
  rw [fillToken] at he
  split at he
  · exact absurd he hne
  · rw [hu, he]

theorem exists_literal_ne (t : Str) : ∃ x, (isToken x = true ∧ isWildcard x = false) ∧ x ≠ t := by
  by_cases h : lit "a" = t
  · refine ⟨lit "b", by decide, ?_⟩
    rw [← h]
    decide
  · exact ⟨lit "a", by decide, h⟩

end Support.Subjects
