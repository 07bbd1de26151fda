import IsaCloud.Events.Subscriber
import IsaCloud.Support.Recent
import IsaCloud.Support.Runs

/-!
# What the memory of processed events holds

`mark_processed` on the memory backend makes room before it looks whether the id is
new. Over any sequence of calls the cache keeps to its size, and `is_processed`
tells which ids are the last to be marked for the first time, as long as no call
makes room for an id that needs none.
-/

namespace IsaCloud.Events

set_option autoImplicit false

open Support Support.Text Support.Python Support.DateTime Support.Recent

/-! ## The cache as a queue -/

section Keys
variable {cache : Dict Str Instant} {id : Str}

theorem keys_set_eq_see (cache : Dict Str Instant) (id : Str) (now : Instant) :
    (cache.set id now).keys = see cache.keys id := by
  rw [see]
  split
  · rename_i hmem
    exact Dict.keys_set_of_mem now hmem
  · rename_i hmem
    exact Dict.keys_set_of_not_mem now hmem

theorem keys_pop_oldest {oldest : Str} {rest : List Str} (h : cache.keys = oldest :: rest) :
    (cache.pop oldest).keys = rest := by
  have hnodup := cache.keys_nodup
  rw [h, List.nodup_cons] at hnodup
  rw [Dict.pop, Dict.keys_restrict, h, List.filter_cons_of_neg (by simp)]
  apply List.filter_eq_self.mpr
  intro key hkey
  have hne : key ≠ oldest := fun heq => hnodup.1 (heq ▸ hkey)
  simp [hne]

theorem keys_markCached (cache : Dict Str Instant) (maxCacheSize : Nat) (id : Str) (now : Instant) :
    (markCached cache maxCacheSize id now).keys = push maxCacheSize cache.keys id := by
  rw [markCached, keys_set_eq_see, push, Dict.keys_length]
  congr 1
  split
  · rename_i oldest rest hkeys
    rw [apply_ite Dict.keys, keys_pop_oldest hkeys, hkeys, List.tail_cons]
  · rename_i hkeys
    rw [hkeys, List.tail_nil, ite_self]

end Keys

/-! ## Runs of `mark_processed` -/

/-- A call of `mark_processed`, and the time since the one before. -/
structure Mark where
  eventId : Str
  elapsed : Nat

/-- The process, and the ids that were marked in it, first to last. -/
structure Marked (F H : Type) where
  world : World F H
  ids : List Str

section Calls
variable {F H Hd : Type} [PyFloat F] (handle : Hd → Event F → H → H × Outcome) (checker : IdempotencyChecker)

def Marked.start (now : Instant) (outside : H) : Marked F H := ⟨World.start now outside, []⟩

def Marked.mark (s : Marked F H) (c : Mark) : Marked F H where
  world := ((checker.markProcessed c.eventId .ret).exec (serve handle)
    { s.world with redis := s.world.redis.advance c.elapsed }).1
  ids := s.ids ++ [c.eventId]

/-- `is_processed(id)`. -/
def Marked.isProcessed (s : Marked F H) (id : Str) : Except PyError Bool :=
  ((checker.isProcessed id .ret).exec (serve handle) s.world).2

/-- What is promised of the cache: its size, and which ids it tells to be processed. -/
structure Marked.Exact (s : Marked F H) : Prop where
  bounded : s.world.cache.size ≤ checker.maxCacheSize
  processed_iff : ∀ id, s.isProcessed handle checker id = .ok true ↔ id ∈ recent checker.maxCacheSize s.ids

/-- A call that makes no room for nothing: with the cache full, an id in the cache is its oldest entry, an id that is
not was never marked, and the oldest entry is the one that was marked first. -/
def Marked.MakesRoom (s : Marked F H) (c : Mark) : Prop :=
  Harmless checker.maxCacheSize s.world.cache.keys s.ids c.eventId

variable {checker} (hmem : checker.storage = .memory)
include hmem

theorem Marked.mark_keys (s : Marked F H) (c : Mark) :
    (s.mark handle checker c).world.cache.keys = push checker.maxCacheSize s.world.cache.keys c.eventId := by
  simp only [Marked.mark, IdempotencyChecker.markProcessed, hmem]
  exact keys_markCached _ _ _ _

theorem Marked.isProcessed_iff (s : Marked F H) (id : Str) :
    s.isProcessed handle checker id = .ok true ↔ id ∈ s.world.cache.keys := by
  simp only [Marked.isProcessed, IdempotencyChecker.isProcessed, hmem]
  rw [← Dict.contains_iff]
  exact ⟨Except.ok.inj, congrArg Except.ok⟩

theorem Marked.exact_iff (s : Marked F H) :
    s.Exact handle checker ↔ Holds checker.maxCacheSize s.world.cache.keys s.ids := by
  constructor
  · intro h
    refine ⟨s.world.cache.keys_nodup, Dict.keys_length _ ▸ h.bounded, ?_⟩
    intro id
    rw [← s.isProcessed_iff handle hmem id, h.processed_iff]
  · intro h
    refine ⟨Dict.keys_length s.world.cache ▸ h.bounded, ?_⟩
    intro id
    rw [s.isProcessed_iff handle hmem id, h.mem_iff]

theorem Marked.exact_mark_iff (hm : 1 ≤ checker.maxCacheSize) (s : Marked F H) (c : Mark) (h : s.Exact handle checker) :
    (s.mark handle checker c).Exact handle checker ↔ s.MakesRoom checker c := by
  rw [Marked.exact_iff handle hmem, Marked.mark_keys handle hmem]
  exact ((s.exact_iff handle hmem).mp h).push_iff hm

/-- All along a sequence of calls the cache keeps to its size and tells the ids that were last marked for the first
time, exactly when no call makes room without need. -/
theorem processed_iff_recent (hm : 1 ≤ checker.maxCacheSize) (now : Instant) (outside : H) (calls : List Mark) :
    (∀ pre, pre <+: calls → (run (Marked.mark handle checker) (.start now outside) pre).Exact handle checker) ↔
      Guarded (Marked.mark handle checker) (Marked.MakesRoom checker) (.start now outside) calls := by
  apply invariant_along_iff
  · exact Marked.exact_mark_iff handle hmem hm
  · rw [Marked.exact_iff handle hmem]
    exact Holds.nil checker.maxCacheSize

end Calls

/-! ## A cache of two -/

def smallChecker : IdempotencyChecker := ⟨.memory, 2, 86400, ⟨lit "default", lit "default"⟩⟩

def succeed (_ : Unit) (_ : Event Unit) (outside : Unit) : Unit × Outcome := (outside, .success)

/-- Two ids, the second one marked again. -/
def markedTwice : List Mark := [⟨lit "a", 0⟩, ⟨lit "b", 1⟩, ⟨lit "b", 1⟩]

theorem processed_iff_recent_markedTwice :
    1 ≤ smallChecker.maxCacheSize ∧ smallChecker.storage = .memory ∧
      ((∀ pre, pre <+: markedTwice →
          (run (Marked.mark succeed smallChecker) (.start 0 ()) pre).Exact succeed smallChecker) ↔
        Guarded (Marked.mark succeed smallChecker) (Marked.MakesRoom smallChecker) (.start 0 ()) markedTwice) :=
  ⟨by decide, rfl, processed_iff_recent succeed rfl (by decide) 0 () markedTwice⟩

theorem marked_again_forgets_other :
    ¬ (run (Marked.mark succeed smallChecker) (.start 0 ()) markedTwice).Exact succeed smallChecker := by
  intro h
  have hkept : lit "a" ∈ recent 2 (run (Marked.mark succeed smallChecker) (.start 0 ()) markedTwice).ids := by decide
  exact absurd ((h.processed_iff (lit "a")).mpr hkept) (by decide)

end IsaCloud.Events
