import IsaCloud.Support.ListParts
import IsaCloud.Support.Text

/-!
# Validating topics

`validate_topic` looks at a topic as a whole. The grammar of MQTT goes by the levels
between slashes: a wildcard is a level of its own, and `#` is the last one. No topic
contains NUL.
-/

namespace IsaCloud.Mqtt

set_option autoImplicit false

open Support Support.Text

def slash : CodePoint := cp '/'

def plus : CodePoint := cp '+'

def hash : CodePoint := cp '#'

def nul : CodePoint := 0

structure TopicReport where
  valid : Bool
  message : Str
  deriving DecidableEq, Repr

/-- `validate_topic`. -/
def validateTopic (topic : Str) (allowWildcards : Bool) : TopicReport :=
  if topic = [] then ⟨false, lit "Topic cannot be empty"⟩
  else if [slash] <+: topic then ⟨false, lit "Topic should not start with /"⟩
  else if allowWildcards = false ∧ (plus ∈ topic ∨ hash ∈ topic) then ⟨false, lit "Wildcards not allowed"⟩
  else if hash ∈ topic ∧ ¬ [hash] <:+ topic then ⟨false, lit "# wildcard must be at the end"⟩
  else ⟨true, lit "Valid topic"⟩

/-! ## The grammar -/

def levels (topic : Str) : List Str := topic.splitOn slash

structure TopicName (topic : Str) : Prop where
  nonempty : topic ≠ []
  no_nul : nul ∉ topic
  no_plus : plus ∉ topic
  no_hash : hash ∉ topic

structure TopicFilter (topic : Str) : Prop where
  nonempty : topic ≠ []
  no_nul : nul ∉ topic
  plus_alone : ∀ l ∈ levels topic, plus ∈ l → l = [plus]
  hash_alone : ∀ l ∈ levels topic, hash ∈ l → l = [hash]
  hash_last : ∀ l ∈ (levels topic).dropLast, hash ∉ l

def Legal (allowWildcards : Bool) (topic : Str) : Prop := if allowWildcards then TopicFilter topic else TopicName topic

/-- The verdict is that of the grammar, but for topics that start with a slash. -/
def Agrees (allowWildcards : Bool) (topic : Str) : Prop :=
  (validateTopic topic allowWildcards).valid = true ↔ Legal allowWildcards topic ∧ ¬ [slash] <+: topic

/-! ## What the checks miss -/

/-- No check finds fault. -/
structure Unchecked (allowWildcards : Bool) (topic : Str) : Prop where
  nonempty : topic ≠ []
  start : ¬ [slash] <+: topic
  wildcards : allowWildcards = false → plus ∉ topic ∧ hash ∉ topic
  hash_end : hash ∈ topic → [hash] <:+ topic

/-- A NUL; among the wildcards a plus or a hash that has a neighbour other than a slash, or a hash before the last
character. -/
structure Overlooked (allowWildcards : Bool) (topic : Str) : Prop extends Unchecked allowWildcards topic where
  fault : nul ∈ topic ∨ allowWildcards = true ∧
    (Levels.crowded slash plus topic = true ∨ Levels.crowded slash hash topic = true ∨ hash ∈ topic.dropLast)

theorem valid_iff (topic : Str) (allowWildcards : Bool) :
    (validateTopic topic allowWildcards).valid = true ↔ Unchecked allowWildcards topic := by
  rw [validateTopic]
  split
  · rename_i hempty
    constructor
    · intro h
      cases h
    · intro h
      exact absurd hempty h.nonempty
  · rename_i hne
    split
    · rename_i hslash
      constructor
      · intro h
        cases h
      · intro h
        exact absurd hslash h.start
    · rename_i hstart
      split
      · rename_i hwild
        constructor
        · intro h
          cases h
        · intro h
          have hnone := h.wildcards hwild.1
          exact absurd hwild.2 (not_or.mpr hnone)
      · rename_i hallowed
        split
        · rename_i hmiddle
          constructor
          · intro h
            cases h
          · intro h
            exact absurd (h.hash_end hmiddle.1) hmiddle.2
        · rename_i hlast
          constructor
          · intro _
            refine ⟨hne, hstart, ?_, ?_⟩
            · intro hno
              exact not_or.mp fun h => hallowed ⟨hno, h⟩
            · intro hhash
              exact Classical.not_not.mp fun h => hlast ⟨hhash, h⟩
          · intro _
            rfl

/-! ## Legal topics -/

/-- A hash ends a filter. -/
theorem TopicFilter.hash_end {topic : Str} (h : TopicFilter topic) (hmem : hash ∈ topic) : [hash] <:+ topic := by
  obtain ⟨l, hl, hin⟩ := (@Levels.mem_splitOn _ _ slash hash (by decide) topic).mp hmem
  obtain ⟨ls, l', hlevels⟩ : ∃ ls l', levels topic = ls ++ [l'] := by
    rcases List.eq_nil_or_concat' (levels topic) with hnil | ⟨ls, l', hls⟩
    · exact absurd hnil (List.splitOn_ne_nil slash topic)
    · exact ⟨ls, l', hls⟩
  have hlast : l = l' := by
    have hl' : l ∈ ls ++ [l'] := hlevels ▸ hl
    rcases List.mem_append.mp hl' with hl' | hl'
    · have hno := h.hash_last l (by rw [hlevels, List.dropLast_concat]; exact hl')
      exact absurd hin hno
    · exact List.mem_singleton.mp hl'
  rw [← h.hash_alone l hl hin, hlast]
  exact Levels.last_level_suffix hlevels

/-- A legal topic passes every check but the one of the slash. -/
theorem Legal.unchecked {topic : Str} {allowWildcards : Bool} (h : Legal allowWildcards topic)
    (hstart : ¬ [slash] <+: topic) : Unchecked allowWildcards topic := by
  cases allowWildcards with
  | false =>
    have hname : TopicName topic := h
    exact ⟨hname.nonempty, hstart, fun _ => ⟨hname.no_plus, hname.no_hash⟩, fun hmem => absurd hmem hname.no_hash⟩
  | true =>
    have hfilter : TopicFilter topic := h
    exact ⟨hfilter.nonempty, hstart, nofun, hfilter.hash_end⟩

/-- Where a hash ends the topic and stands alone, it is the only one exactly when no level before has one. -/
theorem hash_last_iff {topic : Str} (hend : hash ∈ topic → [hash] <:+ topic)
    (halone : Levels.crowded slash hash topic = false) :
    (∀ l ∈ (levels topic).dropLast, hash ∉ l) ↔ hash ∉ topic.dropLast := by
  by_cases hmem : hash ∈ topic
  · obtain ⟨s, rfl⟩ := hend hmem
    obtain ⟨ls, l, hs, hlevels⟩ := @Levels.splitOn_concat _ _ slash hash (by decide) s
    have hl : l = [] := by
      have hone := (Levels.crowded_iff (by decide) (s ++ [hash])).mp halone (l ++ [hash])
        (by rw [hlevels]; exact List.mem_append_right ls List.mem_cons_self)
        (List.mem_append_right l List.mem_cons_self)
      exact List.append_eq_singleton_iff.mp hone |>.elim (fun h => h.1) fun h => absurd h.2 (List.cons_ne_nil _ _)
    rw [levels, hlevels, List.dropLast_concat, List.dropLast_concat, @Levels.mem_splitOn _ _ slash hash (by decide) s, hs, hl]
    simp
  · constructor
    · intro _ hin
      exact hmem (List.dropLast_subset topic hin)
    · intro _ l hl hin
      exact hmem ((@Levels.mem_splitOn _ _ slash hash (by decide) topic).mpr ⟨l, List.dropLast_subset _ hl, hin⟩)

theorem legal_of_unchecked {topic : Str} {allowWildcards : Bool} (h : Unchecked allowWildcards topic)
    (hno : ¬ Overlooked allowWildcards topic) : Legal allowWildcards topic := by
  have hfault := fun hfault => hno ⟨h, hfault⟩
  have hnul : nul ∉ topic := fun hmem => hfault (.inl hmem)
  cases allowWildcards with
  | false => exact ⟨h.nonempty, hnul, (h.wildcards rfl).1, (h.wildcards rfl).2⟩
  | true =>
    have hplus : Levels.crowded slash plus topic = false := by
      apply eq_false_of_ne_true
      intro hc
      exact hfault (.inr ⟨rfl, .inl hc⟩)
    have hhash : Levels.crowded slash hash topic = false := by
      apply eq_false_of_ne_true
      intro hc
      exact hfault (.inr ⟨rfl, .inr (.inl hc)⟩)
    have hlast : hash ∉ topic.dropLast := fun hmem => hfault (.inr ⟨rfl, .inr (.inr hmem)⟩)
    exact ⟨h.nonempty, hnul, (Levels.crowded_iff (by decide) topic).mp hplus,
      (Levels.crowded_iff (by decide) topic).mp hhash, (hash_last_iff h.hash_end hhash).mpr hlast⟩

theorem Overlooked.not_legal {topic : Str} {allowWildcards : Bool} (h : Overlooked allowWildcards topic) :
    ¬ Legal allowWildcards topic := by
  intro hlegal
  cases allowWildcards with
  | false =>
    have hname : TopicName topic := hlegal
    rcases h.fault with hnul | ⟨hallowed, _⟩
    · exact hname.no_nul hnul
    · cases hallowed
  | true =>
    have hfilter : TopicFilter topic := hlegal
    have hhash := (Levels.crowded_iff (by decide) topic).mpr hfilter.hash_alone
    rcases h.fault with hnul | ⟨_, hplus | hcrowded | hmem⟩
    · exact hfilter.no_nul hnul
    · rw [(Levels.crowded_iff (by decide) topic).mpr hfilter.plus_alone] at hplus
      cases hplus
    · rw [hhash] at hcrowded
      cases hcrowded
    · exact (hash_last_iff h.hash_end hhash).mp hfilter.hash_last hmem

/-- The verdict is that of the grammar exactly when the checks overlook nothing. -/
theorem topic_grammar_iff (topic : Str) (allowWildcards : Bool) :
    Agrees allowWildcards topic ↔ ¬ Overlooked allowWildcards topic := by
  rw [Agrees, valid_iff]
  constructor
  · intro h hover
    exact hover.not_legal (h.mp hover.toUnchecked).1
  · intro hno
    constructor
    · intro h
      exact ⟨legal_of_unchecked h hno, h.start⟩
    · rintro ⟨hlegal, hstart⟩
      exact hlegal.unchecked hstart

theorem hash_within_level_accepted :
    (validateTopic (lit "sensors#") true).valid = true ∧ ¬ TopicFilter (lit "sensors#") ∧ ¬ Agrees true (lit "sensors#") := by
  have hover : Overlooked true (lit "sensors#") :=
    ⟨⟨by decide, by decide, nofun, fun _ => by decide⟩, .inr ⟨rfl, .inr (.inl (by decide))⟩⟩
  have hvalid : (validateTopic (lit "sensors#") true).valid = true := by decide
  refine ⟨hvalid, hover.not_legal, ?_⟩
  intro h
  exact hover.not_legal (h.mp hvalid).1

end IsaCloud.Mqtt
