import IsaCloud.Cache.Cells
import IsaCloud.Support.ListOrder

/-!
# Iterating with `scan`

The cursor of `scan` is an offset into the list of matching keys as it is at the
time of the call, so what the iteration has passed must stay where it is. An
`Iteration` feeds every cursor back while other coroutines work on the store;
`passed` remembers which stored keys lie before the cursor.
-/

namespace IsaCloud.Cache

set_option autoImplicit false

open Support Support.Text Support.Python Support.Glob

/-! ## The order of the keys -/

namespace Memory
section Keys
variable {T : Type}

theorem keys_foldl (ks : List Str) (m : Memory T) :
    KeepsOrder m.store.keys (ks.foldl drop m).store.keys := by
  rw [keys_foldl_drop]
  exact .shrink _ _

theorem keys_assign (d : Dict Str Value) (k : Str) (v : Value) : ∃ added, (d.set k v).keys = d.keys ++ added := by
  by_cases h : k ∈ d.keys
  · exact ⟨[], by rw [Dict.keys_set_of_mem v h, List.append_nil]⟩
  · exact ⟨[k], Dict.keys_set_of_not_mem v h⟩

theorem keepsOrder_set (d : Dict Str Value) (k : Str) (v : Value) : KeepsOrder d.keys (d.set k v).keys := by
  obtain ⟨added, h⟩ := keys_assign d k v
  rw [h]
  exact .grow _ _

theorem deleteLoop_drops (t : Tenant) (ks : List Str) (count : Nat) (m : Memory T) :
    ∃ gone : List Str, (deleteLoop t ks count m).2 = gone.foldl drop m := by
  induction ks generalizing count m with
  | nil => exact ⟨[], rfl⟩
  | cons key ks ih =>
    rw [deleteLoop]
    split
    · obtain ⟨gone, h⟩ := ih (count + 1) (m.drop (t.prefixKey key))
      exact ⟨t.prefixKey key :: gone, h⟩
    · exact ih count m

theorem keepsOrder_incr [Unicode] (m : Memory T) (k : Str) (amount : Int) :
    KeepsOrder m.store.keys (m.incr k amount).2.store.keys := by
  rw [incr]
  split
  · exact .refl _
  · split
    · exact .refl _
    · exact keepsOrder_set _ _ _

variable [Clock T]

theorem mgetLoop_drops (t : Tenant) (now : T) (ks : List Str) (m : Memory T) :
    ∃ gone : List Str, (mgetLoop t now ks m).2 = gone.foldl drop m := by
  induction ks generalizing m with
  | nil => exact ⟨[], rfl⟩
  | cons key ks ih =>
    rw [mgetLoop]
    split
    · obtain ⟨gone, h⟩ := ih (m.drop (t.prefixKey key))
      exact ⟨t.prefixKey key :: gone, h⟩
    · exact ih m

theorem keys_mset (t : Tenant) (mapping : Dict Str Str) (m : Memory T) :
    ∃ added, (m.mset t mapping).2.store.keys = m.store.keys ++ added := by
  simp only [mset]
  generalize mapping.entries = es
  induction es generalizing m with
  | nil => exact ⟨[], by simp⟩
  | cons e es ih =>
    obtain ⟨added, h⟩ := ih ⟨m.store.set (t.prefixKey e.1) (.text e.2), m.expiry.set (t.prefixKey e.1) 0⟩
    obtain ⟨first, hf⟩ := keys_assign m.store (t.prefixKey e.1) (.text e.2)
    exact ⟨first ++ added, by rw [List.foldl_cons, h, hf, List.append_assoc]⟩

theorem keys_create (m : Memory T) (k : Str) (v : Value) :
    ∃ added, (m.create k v).store.keys = m.store.keys ++ added := by
  rw [create]
  split
  · exact ⟨[], by simp⟩
  · exact keys_assign m.store k v

theorem keepsOrder_create_set (m : Memory T) (k : Str) (v v' : Value) :
    KeepsOrder m.store.keys ((m.create k v).store.set k v').keys := by
  obtain ⟨first, hf⟩ := keys_create m k v
  obtain ⟨added, h⟩ := keys_assign (m.create k v).store k v'
  rw [h, hf, List.append_assoc]
  exact .grow _ _

/-- The reads drop at most the key they were asked for. -/
theorem keepsOrder_read (m : Memory T) (now : T) (k : Str) (gone found : Reply) :
    KeepsOrder m.store.keys
      (if m.isExpired now k then (gone, m.drop k) else (found, m)).2.store.keys := by
  split
  · exact keys_foldl [k] m
  · exact .refl _

theorem keepsOrder_perform [Unicode] (t : Tenant) (now : T) (m : Memory T) (op : Op) :
    KeepsOrder m.store.keys (op.perform t now m).2.store.keys := by
  cases op with
  | set key value ttlSeconds =>
    have hset := keepsOrder_set m.store (t.prefixKey key) (.text value)
    simp only [Op.perform, set]
    split
    · split <;> exact hset
    · exact hset
  | get key => exact keepsOrder_read m now _ _ _
  | delete key => exact keys_foldl [t.prefixKey key] m
  | existsKey key => exact keepsOrder_read m now _ _ _
  | ttl key => exact .refl _
  | expire key ttlSeconds =>
    simp only [Op.perform, expire]
    split
    · split <;> exact .refl _
    · exact .refl _
  | incr key amount => exact keepsOrder_incr m _ amount
  | decr key amount => exact keepsOrder_incr m _ (-amount)
  | mset mapping =>
    obtain ⟨added, h⟩ := keys_mset t mapping m
    simp only [Op.perform, h]
    exact .grow _ _
  | mget ks =>
    obtain ⟨gone, h⟩ := mgetLoop_drops t now ks m
    simp only [Op.perform, mget, h]
    exact keys_foldl gone m
  | deleteMany ks =>
    obtain ⟨gone, h⟩ := deleteLoop_drops t ks 0 m
    simp only [Op.perform, deleteMany, h]
    exact keys_foldl gone m
  | keys pattern => exact .refl _
  | scan cursor pattern count => exact .refl _
  | flush => exact keys_foldl _ m
  | flushAll =>
    have h := KeepsOrder.shrink m.store.keys fun _ => false
    rw [List.filter_false] at h
    exact h
  | hset name key value => exact keepsOrder_create_set m _ _ _
  | hget name key => exact keepsOrder_read m now _ _ _
  | hgetall name => exact keepsOrder_read m now _ _ _
  | hdel name key =>
    simp only [Op.perform, hdel]
    split
    · split
      · exact keepsOrder_set _ _ _
      · exact .refl _
    · exact .refl _
  | lpush key values => exact keepsOrder_create_set m _ _ _
  | rpush key values => exact keepsOrder_create_set m _ _ _
  | lrange key start stop => exact keepsOrder_read m now _ _ _
  | llen key => exact .refl _

theorem keepsOrder_apply [Unicode] (m : Memory T) (e : Event T) :
    KeepsOrder m.store.keys (e.apply m).store.keys := by
  cases e with
  | operation t now op => exact keepsOrder_perform t now m op
  | sweep now => exact keys_foldl _ m

end Keys

end Memory

/-! ## The iteration -/

variable {T : Type} [Clock T]

structure Iteration (T : Type) where
  memory : Memory T
  cursor : Int
  returned : List Str
  finished : Bool
  /-- The stored keys the last call listed before the cursor it returned. -/
  passed : List Str

/-- Another coroutine or the sweeper works on the store, or the iteration makes its next call. -/
inductive Step (T : Type) where
  | other (e : Event T)
  | call (now : T)

def Iteration.start (m : Memory T) : Iteration T := ⟨m, 0, [], false, []⟩

section Iteration
variable [Unicode] (t : Tenant) (pattern : Str) (count : Int)

def Iteration.step (s : Iteration T) : Step T → Iteration T
  | .other e => { s with memory := e.apply s.memory }
  | .call now =>
    if s.finished then s
    else
      match s.memory.scan t now s.cursor pattern count with
      | .page cursor batch =>
        ⟨s.memory, cursor, s.returned ++ batch, decide (cursor = 0),
          (s.memory.matching t now pattern).take (s.cursor + count).toNat⟩
      | _ => s

/-- No key the iteration has passed is removed or has expired. -/
def Spares (s : Iteration T) : Step T → Prop
  | .other e => s.finished = false → ∀ x ∈ s.passed, x ∈ (e.apply s.memory).store.keys
  | .call now => s.finished = false → ∀ x ∈ s.passed, s.memory.isExpired now x = false

/-- The key stays in the store and is not expired at any call. -/
def Present (k : Str) (s : Iteration T) : Step T → Prop
  | .other e => s.finished = false → k ∈ (e.apply s.memory).store.keys
  | .call now => s.finished = false → s.memory.isExpired now k = false

omit [Unicode] in
theorem mem_matching {m : Memory T} {now : T} {k : Str} : k ∈ m.matching t now pattern ↔
    k ∈ m.store.keys ∧ fnmatch k (t.prefixKey pattern) = true ∧ m.isExpired now k = false := by
  simp [Memory.matching]

omit [Unicode] in
theorem matching_nodup (m : Memory T) (now : T) : (m.matching t now pattern).Nodup :=
  m.store.keys_nodup.filter _

omit [Unicode] in
/-- One page from an offset that is a number of keys. -/
theorem scan_page (m : Memory T) (now : T) (c n : Nat) :
    m.scan t now c pattern n =
      .page (if c + n < (m.matching t now pattern).length then (c + n : Nat) else 0)
        ((((m.matching t now pattern).take (c + n)).drop c).map t.unprefixKey) := by
  rw [Memory.scan]
  generalize m.matching t now pattern = l
  have hmin : min ((c : Int) + n) l.length = (min (c + n) l.length : Nat) := by omega
  have hstop : sliceIndex l.length (min (c + n) l.length : Nat) = min (c + n) l.length := by
    rw [sliceIndex, if_neg (by omega)]
    omega
  have hstart : sliceIndex l.length (c : Int) = min c l.length := by
    rw [sliceIndex, if_neg (by omega)]
    omega
  have hslice : slice l c (min (c + n) l.length : Nat) = (l.take (c + n)).drop c := by
    rw [slice, hstop, hstart, ← List.take_eq_take_min]
    by_cases hc : c ≤ l.length
    · rw [Nat.min_eq_left hc]
    · have h1 : (l.take (c + n)).length ≤ min c l.length := by
        rw [List.length_take]
        omega
      have h2 : (l.take (c + n)).length ≤ c := by
        rw [List.length_take]
        omega
      rw [List.drop_eq_nil_of_le h1, List.drop_eq_nil_of_le h2]
  simp only [hmin, hslice]
  congr 1
  by_cases h : c + n < l.length
  · rw [if_pos h, if_pos (by omega)]
    congr 1
    omega
  · rw [if_neg h, if_neg (by omega)]

/-- What a call does while the iteration runs. -/
theorem step_call {s : Iteration T} {n : Nat} (hcount : count = n) (hf : s.finished = false)
    {c : Nat} (hc : s.cursor = c) (now : T) :
    s.step t pattern count (.call now) =
      ⟨s.memory, if c + n < (s.memory.matching t now pattern).length then (c + n : Nat) else 0,
        s.returned ++ (((s.memory.matching t now pattern).take (c + n)).drop c).map t.unprefixKey,
        decide ((if c + n < (s.memory.matching t now pattern).length then ((c + n : Nat) : Int) else 0) = 0),
        (s.memory.matching t now pattern).take (c + n)⟩ := by
  have hnat : ((c : Int) + n).toNat = c + n := by omega
  simp only [Iteration.step, hf, Bool.false_eq_true, if_false, hc, hcount, scan_page, hnat]

/-! ## Keys that are there throughout -/

/-- A key that stays is either returned already or lies behind everything the iteration passed. -/
structure Awaited (k : Str) (s : Iteration T) : Prop where
  there : k ∈ s.memory.store.keys
  cursor : s.cursor = s.passed.length
  nodup : s.passed.Nodup
  matched : ∀ x ∈ s.passed, x ∈ s.memory.store.keys ∧ fnmatch x (t.prefixKey pattern) = true
  behind : ∀ x ∈ s.passed, Before s.memory.store.keys x k

/-- The invariant of the iteration for such a key. -/
def Tracked (k : Str) (s : Iteration T) : Prop :=
  t.unprefixKey k ∈ s.returned ∨ s.finished = false ∧ Awaited t pattern k s

theorem tracked_other {k : Str} {s : Iteration T} {e : Event T} (h : Tracked t pattern k s)
    (hs : Spares s (.other e)) (hp : Present k s (.other e)) :
    Tracked t pattern k (s.step t pattern count (.other e)) := by
  rcases h with hr | ⟨hf, ha⟩
  · exact .inl hr
  · have hkeep := Memory.keepsOrder_apply s.memory e
    refine .inr ⟨hf, hp hf, ha.cursor, ha.nodup, ?_, ?_⟩
    · intro x hx
      exact ⟨hs hf x hx, (ha.matched x hx).2⟩
    · intro x hx
      exact (ha.behind x hx).keep hkeep (hs hf x hx) (hp hf)

theorem tracked_call {k : Str} {s : Iteration T} {now : T} (hcount : 1 ≤ count)
    (hm : fnmatch k (t.prefixKey pattern) = true) (h : Tracked t pattern k s)
    (hs : Spares s (.call now)) (hp : Present k s (.call now)) :
    Tracked t pattern k (s.step t pattern count (.call now)) := by
  rcases h with hr | ⟨hf, ha⟩
  · left
    cases hfin : s.finished with
    | true => simpa [Iteration.step, hfin] using hr
    | false =>
      simp only [Iteration.step, hfin, Memory.scan]
      exact List.mem_append_left _ hr
  obtain ⟨n, rfl⟩ : ∃ n : Nat, count = n := ⟨count.toNat, by omega⟩
  have hk : k ∈ s.memory.matching t now pattern := (mem_matching t pattern).mpr ⟨ha.there, hm, hp hf⟩
  have hn := matching_nodup t pattern s.memory now
  have hsub : (s.memory.matching t now pattern).Sublist s.memory.store.keys := List.filter_sublist
  rw [step_call t pattern _ rfl hf ha.cursor]
  have hbehind : ∀ x ∈ s.passed, Before (s.memory.matching t now pattern) x k := by
    intro x hx
    refine (ha.behind x hx).keep (.shrink _ _) ?_ hk
    obtain ⟨hx1, hx2⟩ := ha.matched x hx
    exact (mem_matching t pattern).mpr ⟨hx1, hx2, hs hf x hx⟩
  generalize hl : s.memory.matching t now pattern = l at hk hn hsub hbehind ⊢
  obtain ⟨a, b, rfl⟩ := List.append_of_mem hk
  have hle : s.passed.length ≤ a.length := length_le_of_before hn ha.nodup hbehind
  by_cases hpage : a.length < s.passed.length + n
  · -- the key is on this page
    left
    refine List.mem_append_right _ (List.mem_map_of_mem ?_)
    rw [List.take_append, List.drop_append, List.mem_append]
    right
    rw [List.take_of_length_le (by omega), Nat.sub_eq_zero_of_le hle, List.drop_zero]
    obtain ⟨j, hj⟩ : ∃ j, s.passed.length + n - a.length = j + 1 := ⟨s.passed.length + n - a.length - 1, by omega⟩
    rw [hj, List.take_succ_cons]
    exact List.mem_cons_self
  · right
    have hlt : s.passed.length + n < (a ++ k :: b).length := by
      rw [List.length_append, List.length_cons]
      omega
    have htake : (a ++ k :: b).take (s.passed.length + n) = a.take (s.passed.length + n) := by
      rw [List.take_append_of_le_length (by omega)]
    simp only [hlt, if_true, htake]
    refine ⟨?_, ha.there, ?_, ?_, ?_, ?_⟩
    · rw [decide_eq_false_iff_not]
      omega
    · rw [List.length_take, Nat.min_eq_left (by omega)]
    · exact hn.sublist ((List.take_sublist _ a).trans (List.sublist_append_left a _))
    · intro x hx
      have hxl : x ∈ s.memory.matching t now pattern := by
        rw [hl]
        exact List.mem_append_left _ (List.mem_of_mem_take hx)
      obtain ⟨h1, h2, -⟩ := (mem_matching t pattern).mp hxl
      exact ⟨h1, h2⟩
    · intro x hx
      have hxa : [x].Sublist a := List.singleton_sublist.mpr (List.mem_of_mem_take hx)
      have hkb : [k].Sublist (k :: b) := List.singleton_sublist.mpr List.mem_cons_self
      exact (hxa.append hkb).trans hsub

/-! ## Iterations without writes -/

theorem run_finished {s : Iteration T} (hf : s.finished = true) (times : List T) :
    run (Iteration.step t pattern count) s (times.map .call) = s := by
  induction times with
  | nil => rfl
  | cons now times ih =>
    have hstep : s.step t pattern count (.call now) = s := by simp [Iteration.step, hf]
    rw [List.map_cons, run_cons, hstep, ih]

omit [Unicode] in
/-- Time only takes keys out of the list of matches. -/
theorem matching_later (m : Memory T) {now later : T} (h : now ≤ later) :
    m.matching t later pattern =
      (m.matching t now pattern).filter fun k => !m.isExpired later k := by
  rw [Memory.matching, Memory.matching, List.filter_filter]
  apply List.filter_congr
  intro k _
  cases hl : m.isExpired later k with
  | true => simp
  | false =>
    have hnow : m.isExpired now k = false := by
      simp only [Memory.isExpired, decide_eq_false_iff_not, not_and, not_lt] at hl ⊢
      exact fun h0 => h.trans (hl h0)
    simp [hnow]

/-- While nothing is written, the keys returned are the first ones of the list. -/
structure Paging (m : Memory T) (times : List T) (s : Iteration T) : Prop where
  memory : s.memory = m
  running : s.finished = false
  cursor : s.cursor = s.passed.length
  returned : s.returned = s.passed.map t.unprefixKey
  bounded : s.passed.length ≤ m.store.size
  first : ∀ now ∈ times, (∀ x ∈ s.passed, m.isExpired now x = false) →
    (m.matching t now pattern).take s.passed.length = s.passed

omit [Unicode] in
theorem matching_length_le (m : Memory T) (now : T) : (m.matching t now pattern).length ≤ m.store.size := by
  rw [← Dict.keys_length]
  exact List.length_filter_le _ _

/-- A call ends the iteration with all matches returned, or goes on with more of them passed. -/
theorem paging_call {m : Memory T} {s : Iteration T} {now : T} {times : List T} {n : Nat}
    (hcount : count = n) (hn : 1 ≤ n) (h : Paging t pattern m (now :: times) s)
    (hsorted : ∀ later ∈ times, now ≤ later) (hs : Spares s (.call now)) :
    (s.step t pattern count (.call now)).finished = true ∧
        (s.step t pattern count (.call now)).returned = (m.matching t now pattern).map t.unprefixKey ∨
      Paging t pattern m times (s.step t pattern count (.call now)) ∧
        (s.step t pattern count (.call now)).passed.length = s.passed.length + n := by
  have hlive : ∀ x ∈ s.passed, m.isExpired now x = false := by
    rw [← h.memory]
    exact hs h.running
  have hfirst := h.first now List.mem_cons_self hlive
  have hreturned : s.returned ++
      (((m.matching t now pattern).take (s.passed.length + n)).drop s.passed.length).map t.unprefixKey =
      ((m.matching t now pattern).take (s.passed.length + n)).map t.unprefixKey := by
    rw [h.returned, ← List.map_append]
    congr 1
    have hp : s.passed = ((m.matching t now pattern).take (s.passed.length + n)).take s.passed.length := by
      rw [List.take_take, Nat.min_eq_left (Nat.le_add_right _ _), hfirst]
    nth_rewrite 1 [hp]
    exact List.take_append_drop _ _
  rw [step_call t pattern count hcount h.running h.cursor, h.memory]
  have hlen := matching_length_le t pattern m now
  by_cases hlt : s.passed.length + n < (m.matching t now pattern).length
  · right
    have htake : ((m.matching t now pattern).take (s.passed.length + n)).length = s.passed.length + n := by
      rw [List.length_take, Nat.min_eq_left hlt.le]
    simp only [hlt, if_true, htake, and_true]
    refine ⟨rfl, ?_, ?_, hreturned, ?_, ?_⟩
    · rw [decide_eq_false_iff_not]
      omega
    · rw [htake]
    · rw [htake]
      omega
    · intro later hlater hx
      -- none of the first keys has expired, so they are still the first ones
      rw [htake, matching_later t pattern m (hsorted later hlater)]
      have hsplit := List.take_append_drop (s.passed.length + n) (m.matching t now pattern)
      generalize (m.matching t now pattern).take (s.passed.length + n) = a at htake hx hsplit
      rw [← hsplit, List.filter_append, List.filter_eq_self.mpr (by simpa using hx), ← htake,
        List.take_left]
  · left
    refine ⟨by simp [hlt], ?_⟩
    rw [hreturned, List.take_of_length_le (by omega)]

theorem paging_run {m : Memory T} {n : Nat} (hcount : count = n) (hn : 1 ≤ n) {times : List T}
    (hsorted : times.Pairwise (· ≤ ·)) {s : Iteration T} (h : Paging t pattern m times s)
    (hg : Guarded (Iteration.step t pattern count) Spares s (times.map .call)) :
    ((run (Iteration.step t pattern count) s (times.map .call)).finished = true →
      ∃ now ∈ times, (run (Iteration.step t pattern count) s (times.map .call)).returned =
        (m.matching t now pattern).map t.unprefixKey) ∧
    ((run (Iteration.step t pattern count) s (times.map .call)).finished = false →
      s.passed.length + times.length ≤ m.store.size) := by
  induction times generalizing s with
  | nil =>
    refine ⟨?_, fun _ => h.bounded⟩
    intro hf
    rw [List.map_nil, run_nil, h.running] at hf
    cases hf
  | cons now times ih =>
    rw [List.pairwise_cons] at hsorted
    rw [List.map_cons, run_cons]
    rcases paging_call t pattern count hcount hn h hsorted.1 hg.1 with ⟨hf, hr⟩ | ⟨hp, hlen⟩
    · rw [run_finished t pattern count hf, hf]
      exact ⟨fun _ => ⟨now, List.mem_cons_self, hr⟩, nofun⟩
    · obtain ⟨h1, h2⟩ := ih hsorted.2 hp hg.2
      refine ⟨?_, ?_⟩
      · intro hf
        obtain ⟨late, hl, hr⟩ := h1 hf
        exact ⟨late, List.mem_cons_of_mem now hl, hr⟩
      · intro hf
        have := h2 hf
        rw [List.length_cons]
        omega

/-! ## The guarantee -/

/-- No two stored keys that match are shown under one name. -/
def DistinctNames (m : Memory T) : Prop :=
  ((m.store.keys.filter fun k => fnmatch k (t.prefixKey pattern)).map t.unprefixKey).Nodup

/-- As long as no key the iteration has passed is removed or expires, every key that is there
throughout is returned; without writes it is returned once, and the iteration ends. -/
theorem scan_guarantee (hcount : 1 ≤ count) (m : Memory T) :
    (∀ steps, Guarded (Iteration.step t pattern count) Spares (.start m) steps →
      ∀ k ∈ m.store.keys, fnmatch k (t.prefixKey pattern) = true →
        Guarded (Iteration.step t pattern count) (Present k) (.start m) steps →
        (run (Iteration.step t pattern count) (.start m) steps).finished = true →
          t.unprefixKey k ∈ (run (Iteration.step t pattern count) (.start m) steps).returned) ∧
    (∀ times : List T, times.Pairwise (· ≤ ·) → DistinctNames t pattern m →
      Guarded (Iteration.step t pattern count) Spares (.start m) (times.map .call) →
        (m.store.size < times.length →
          (run (Iteration.step t pattern count) (.start m) (times.map .call)).finished = true) ∧
        ∀ k ∈ m.store.keys, fnmatch k (t.prefixKey pattern) = true →
          (∀ now ∈ times, m.isExpired now k = false) →
          (run (Iteration.step t pattern count) (.start m) (times.map .call)).finished = true →
            (run (Iteration.step t pattern count) (.start m) (times.map .call)).returned.count
              (t.unprefixKey k) = 1) := by
  constructor
  · intro steps hs k hk hm hp hf
    have hstart : Tracked t pattern k (.start m) :=
      .inr ⟨rfl, hk, rfl, List.nodup_nil, nofun, nofun⟩
    have htracked := guarded_invariant (Tracked t pattern k) (fun s a hsa h => by
      cases a with
      | other e => exact tracked_other t pattern count h hsa.1 hsa.2
      | call now => exact tracked_call t pattern count hcount hm h hsa.1 hsa.2) (guarded_and hs hp) hstart
    rcases htracked with hr | ⟨hrun, -⟩
    · exact hr
    · rw [hf] at hrun
      cases hrun
  · intro times hsorted hnames hg
    obtain ⟨n, hn⟩ : ∃ n : Nat, count = n := ⟨count.toNat, by omega⟩
    have hpaging : Paging t pattern m times (.start m) :=
      ⟨rfl, rfl, rfl, rfl, Nat.zero_le _, fun _ _ _ => rfl⟩
    obtain ⟨hdone, hbound⟩ := paging_run t pattern count hn (by omega) hsorted hpaging hg
    refine ⟨?_, ?_⟩
    · intro hsize
      cases hf : (run (Iteration.step t pattern count) (.start m) (times.map .call)).finished with
      | true => rfl
      | false =>
        have := hbound hf
        simp only [Iteration.start, List.length_nil] at this
        omega
    · intro k hk hm hlive hf
      obtain ⟨now, hnow, hr⟩ := hdone hf
      rw [hr]
      have hsub : (m.matching t now pattern).Sublist
          (m.store.keys.filter fun k => fnmatch k (t.prefixKey pattern)) := by
        have : m.matching t now pattern =
            (m.store.keys.filter fun k => fnmatch k (t.prefixKey pattern)).filter fun k =>
              !m.isExpired now k := by
          rw [Memory.matching, List.filter_filter]
          apply List.filter_congr
          intro x _
          exact Bool.and_comm _ _
        rw [this]
        exact List.filter_sublist
      refine List.count_eq_one_of_mem (List.Nodup.sublist (hsub.map _) hnames) (List.mem_map_of_mem ?_)
      exact (mem_matching t pattern).mpr ⟨hk, hm, hlive now hnow⟩

end Iteration

section Example
attribute [local instance] wholeSeconds asciiUnicode

def scanningTenant : Tenant := makeTenant (some (lit "u")) (some (lit "o"))

def twoKeys : Memory Int :=
  run Event.apply .empty [.operation scanningTenant 0 (.set (lit "a") (lit "1") 0),
    .operation scanningTenant 0 (.set (lit "b") (lit "2") 0)]

/-- Two calls with nothing between them, one key a page. -/
theorem quiet_scan_returns_once :
    lit "b" ∈ (run (Iteration.step scanningTenant (lit "*") 1) (.start twoKeys) [.call 0, .call 1]).returned ∧
    (run (Iteration.step scanningTenant (lit "*") 1) (.start twoKeys)
      (List.map Step.call [0, 1])).returned.count (lit "b") = 1 := by
  have hspares : Guarded (Iteration.step scanningTenant (lit "*") 1) Spares (.start twoKeys)
      (List.map Step.call [0, 1]) := by
    refine ⟨?_, ?_, trivial⟩
    · intro _
      decide
    · intro _
      decide
  have hthere : scanningTenant.prefixKey (lit "b") ∈ twoKeys.store.keys := by decide
  have hmatch : fnmatch (scanningTenant.prefixKey (lit "b")) (scanningTenant.prefixKey (lit "*")) = true := by
    decide
  have hpresent : Guarded (Iteration.step scanningTenant (lit "*") 1)
      (Present (scanningTenant.prefixKey (lit "b"))) (.start twoKeys) [.call 0, .call 1] := by
    refine ⟨?_, ?_, trivial⟩
    · intro _
      decide
    · intro _
      decide
  have hall := scan_guarantee scanningTenant (lit "*") 1 (by decide) twoKeys
  refine ⟨?_, ?_⟩
  · exact hall.1 _ hspares _ hthere hmatch hpresent (by decide)
  · refine (hall.2 [0, 1] (by decide) ?_ hspares).2 _ hthere hmatch (by decide) (by decide)
    unfold DistinctNames
    decide

/-- Deleting the key of the first page makes the second call skip the other one. -/
theorem scan_skips_stable_key : ¬ ∀ (t : Tenant) (pattern : Str) (count : Int) (m : Memory Int)
    (steps : List (Step Int)), 1 ≤ count → ∀ k ∈ m.store.keys, fnmatch k (t.prefixKey pattern) = true →
      Guarded (Iteration.step t pattern count) (Present k) (.start m) steps →
      (run (Iteration.step t pattern count) (.start m) steps).finished = true →
        t.unprefixKey k ∈ (run (Iteration.step t pattern count) (.start m) steps).returned := by
  intro h
  have hb := h scanningTenant (lit "*") 1 twoKeys
    [.call 0, .other (.operation scanningTenant 0 (.delete (lit "a"))), .call 0] (by decide)
    (scanningTenant.prefixKey (lit "b")) (by decide) (by decide) (by
      refine ⟨?_, ?_, ?_, trivial⟩
      · intro _
        decide
      · intro _
        decide
      · intro _
        decide) (by decide)
  exact absurd hb (by decide)

end Example

end IsaCloud.Cache
