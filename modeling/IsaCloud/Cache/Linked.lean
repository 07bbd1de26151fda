import IsaCloud.Cache.DropIn

/-!
# Linked stores

Key by key, the in-memory store holds what the Redis server holds, except that a
list of the server is a list of one-element lists in memory. Every call that
fits gives the same answer on linked stores and leaves them linked.
-/

namespace IsaCloud.Cache

set_option autoImplicit false

open Support Support.Text Support.Python Support.Encoding Support.Redis

/-! ## What linked means -/

inductive SameValue : Value → Data → Prop where
  | text (s : Str) : SameValue (.text s) (.string s)
  | hash {h : Dict Str Str} {f : Str → Option Str} (same : ∀ x, h.get x = f x)
      (written : ∀ x, (f x).isSome → encodable x = true) : SameValue (.hash h) (.hash f)
  | list (l : List Str) : SameValue (.list (l.map fun v => .texts [v])) (.list l)

inductive Linked {T : Type} [Clock T] (k : Str) : Cell T → Slot → Prop where
  | absent : Linked k ⟨none, none⟩ none
  | stored {v : Value} {x : Data} {d : Option T} {e : Option Nat} (hk : encodable k = true)
      (hv : SameValue v x) (h0 : 0 ≤ d.getD 0) (hd : d.getD 0 = 0 ↔ e = none) :
      Linked k ⟨some v, d⟩ (some ⟨x, e⟩)

/-- `send` as a function of what the server holds under the key. -/
def sendSlot {R : Type} (k : Str) (texts : List Str) (command : Slot → Except Failure R × Slot)
    (failed : RedisReply) (reply : R → RedisReply) (slot : Slot) : RedisReply × Slot :=
  if (k :: texts).all encodable then
    (match (command slot).1 with
      | .ok r => reply r
      | .error _ => failed,
     (command slot).2)
  else (failed, slot)

/-- The two functions give equal answers and linked cells. -/
def Tallies {T : Type} [Clock T] (k : Str) (r : Reply × Cell T) (r' : RedisReply × Slot) : Prop :=
  Same r.1 r'.1 ∧ Linked k r.2 r'.2

variable {T : Type} [Clock T] {k : Str} {c : Cell T} {slot : Slot} {now : T}

section Send
variable {R : Type} {texts : List Str} {command : Slot → Except Failure R × Slot}
  {failed : RedisReply} {reply : R → RedisReply} {p : Reply × Cell T}

theorem Tallies.of_ok {r : R} {slot' : Slot} (hk : encodable k = true) (ht : texts.all encodable = true)
    (hc : command slot = (.ok r, slot')) (h : Tallies k p (reply r, slot')) :
    Tallies k p (sendSlot k texts command failed reply slot) := by
  have hs : sendSlot k texts command failed reply slot = (reply r, slot') := by simp [sendSlot, hk, ht, hc]
  rwa [hs]

/-- An error reply and a text that cannot be encoded look the same. -/
theorem Tallies.of_failed {e : Failure} (hc : command slot = (.error e, slot))
    (h : Tallies k p (failed, slot)) : Tallies k p (sendSlot k texts command failed reply slot) := by
  have hs : sendSlot k texts command failed reply slot = (failed, slot) := by
    rw [sendSlot]
    split
    · simp [hc]
    · rfl
  rwa [hs]

theorem Tallies.of_unsent (hu : ((k :: texts).all encodable) = false)
    (h : Tallies k p (failed, slot)) : Tallies k p (sendSlot k texts command failed reply slot) := by
  have hs : sendSlot k texts command failed reply slot = (failed, slot) := by
    simp only [sendSlot, hu, Bool.false_eq_true, if_false]
  rwa [hs]

end Send

theorem Linked.isSome_iff (h : Linked k c slot) : c.value.isSome = slot.isSome := by
  cases h <;> rfl

theorem Linked.encodable_of_isSome (h : Linked k c slot) (hs : c.value.isSome = true) : encodable k = true := by
  cases h with
  | absent => cases hs
  | stored hk => exact hk

theorem read_live {gone : Reply} {found : Option Value → Reply} (hl : c.expired now = false) :
    Cell.read now gone found c = (found c.value, c) := by
  simp [Cell.read, hl]

/-! ## Strings -/

theorem tallies_set {serverNow : Nat} {value : Str} {ttlSeconds : Int} (hk : encodable k = true)
    (hv : encodable value = true)
    (hd : 0 < ttlSeconds → validExpire serverNow ttlSeconds = true ∧ Dated now ttlSeconds) :
    Tallies k (Cell.set now value ttlSeconds c)
      (if 0 < ttlSeconds then
        sendSlot k [value] (setex serverNow ttlSeconds value) .none (fun _ => .bool true) slot
      else sendSlot k [value] (Redis.set value) .none (fun _ => .bool true) slot) := by
  have ht : [value].all encodable = true := by simp [hv]
  by_cases hpos : 0 < ttlSeconds
  · obtain ⟨hvalid, d, ha, h0⟩ := hd hpos
    have hc : setex serverNow ttlSeconds value slot =
        (.ok (), some ⟨.string value, some (serverNow + (1000 * ttlSeconds).toNat)⟩) := by
      simp [setex, hpos, hvalid]
    rw [if_pos hpos]
    refine .of_ok hk ht hc ?_
    simp only [Cell.set, hpos, if_true, ha]
    exact ⟨rfl, .stored hk (.text value) h0.le (by simp [ne_of_gt h0])⟩
  · rw [if_neg hpos]
    refine .of_ok hk ht rfl ?_
    simp only [Cell.set, hpos, if_false]
    exact ⟨rfl, .stored hk (.text value) le_rfl (by simp)⟩

theorem tallies_get (h : Linked k c slot) (hl : c.expired now = false)
    (ht : ∀ v, c.value = some v → ∃ s, v = .text s) :
    Tallies k (Cell.read now .none .ofValue c) (sendSlot k [] Redis.get .none .ofStr slot) := by
  rw [read_live hl]
  cases h with
  | absent =>
    by_cases hk : encodable k = true
    · exact .of_ok hk rfl rfl ⟨trivial, .absent⟩
    · exact .of_unsent (by simpa using hk) ⟨trivial, .absent⟩
  | stored hk hv h0 hd =>
    obtain ⟨s, rfl⟩ := ht _ rfl
    cases hv
    exact .of_ok hk rfl rfl ⟨rfl, .stored hk (.text s) h0 hd⟩

theorem tallies_delete (h : Linked k c slot) (hk : encodable k = true) :
    Tallies k (Cell.delete c) (sendSlot k [] del .none (fun n => .bool (decide (0 < n))) slot) := by
  refine .of_ok hk rfl rfl ⟨?_, .absent⟩
  simp only [Cell.delete, Same, h.isSome_iff]
  cases slot <;> rfl

theorem tallies_exists (h : Linked k c slot) (hl : c.expired now = false) :
    Tallies k (Cell.read now (.bool false) (fun v => .bool v.isSome) c)
      (sendSlot k [] exist (.bool false) (fun n => .bool (decide (0 < n))) slot) := by
  rw [read_live hl]
  by_cases hk : encodable k = true
  · refine .of_ok hk rfl rfl ⟨?_, h⟩
    simp only [Same, h.isSome_iff]
    cases slot <;> rfl
  · refine .of_unsent (by simpa using hk) ⟨?_, h⟩
    cases hs : c.value.isSome with
    | true => exact absurd (h.encodable_of_isSome hs) hk
    | false => rfl

theorem tallies_ttl {serverNow : Nat} (h : Linked k c slot) (hl : c.expired now = false)
    (hs : c.value.isSome = true)
    (hd : ∀ d, deadlineOf slot = some d →
      Clock.secondsLeft c.expTime now = ((d - serverNow + 500) / 1000 : Nat)) :
    Tallies k (Cell.ttl now c) (sendSlot k [] (Redis.ttl serverNow) .none .int slot) := by
  cases h with
  | absent => cases hs
  | @stored v x d e hk hv h0 he =>
    cases e with
    | none =>
      have hzero : (⟨some v, d⟩ : Cell T).expTime = 0 := he.mpr rfl
      refine .of_ok hk rfl rfl ?_
      rw [Cell.ttl, if_pos hzero]
      exact ⟨rfl, .stored hk hv h0 he⟩
    | some e =>
      have hne : (⟨some v, d⟩ : Cell T).expTime ≠ 0 := by
        intro hzero
        cases he.mp hzero
      have hlate : ¬ (⟨some v, d⟩ : Cell T).expTime < now := by
        intro hlt
        simp only [Cell.expired, decide_eq_false_iff_not, not_and] at hl
        exact hl (lt_of_le_of_ne h0 hne.symm) hlt
      refine .of_ok hk rfl rfl ?_
      rw [Cell.ttl, if_neg hne, if_neg hlate]
      exact ⟨hd e rfl, .stored hk hv h0 he⟩

theorem tallies_expire {serverNow : Nat} {seconds : Int} (h : Linked k c slot)
    (hpos : c.value.isSome = true → 0 < seconds)
    (hd : (encodable k = true ∧ validExpire serverNow seconds = true ∧
        (c.value.isSome = true → Dated now seconds)) ∨
      (c.value.isSome = true ∧ Clock.after now seconds = none ∧ validExpire serverNow seconds = false)) :
    Tallies k (Cell.expire now seconds c)
      (sendSlot k [] (Redis.expire serverNow seconds) .none .bool slot) := by
  rcases hd with ⟨hk, hvalid, hdated⟩ | ⟨hs, ha, hinvalid⟩
  · cases h with
    | absent =>
      have hc : Redis.expire serverNow seconds none = (.ok false, none) := by simp [Redis.expire, hvalid]
      exact .of_ok hk rfl hc ⟨rfl, .absent⟩
    | @stored v x d e hk hv h0 he =>
      obtain ⟨d', ha, hd'⟩ := hdated rfl
      have hc : Redis.expire serverNow seconds (some ⟨x, e⟩) =
          (.ok true, some ⟨x, some (serverNow + (1000 * seconds).toNat)⟩) := by
        simp [Redis.expire, hvalid, hpos rfl]
      refine .of_ok hk rfl hc ?_
      simp only [Cell.expire, Option.isSome_some, if_true, ha]
      exact ⟨rfl, .stored hk hv hd'.le (by simp [ne_of_gt hd'])⟩
  · have hc : Redis.expire serverNow seconds slot = (.error .invalidExpire, slot) := by
      simp [Redis.expire, hinvalid]
    refine .of_failed hc ?_
    simp only [Cell.expire, hs, if_true, ha]
    exact ⟨trivial, h⟩

/-! ## Counters -/

theorem not_tooLong_of_int64 {n : Int} (h : int64 n = true) : ¬ TooLong n := by
  simp only [int64, decide_eq_true_eq] at h
  have hn : n.natAbs < 10 ^ 20 := by omega
  have hlen := Json.natText_length_le hn (by omega)
  rw [TooLong, Json.intMaxStrDigits]
  omega

theorem newValue_of_integerOf [Unicode] {s : Str} {n amount : Int} (h : integerOf s = some n) :
    Memory.newValue (.text s) amount = .ok (n + amount) := by
  obtain ⟨rfl, hn⟩ := integerOf_eq_some h
  simp [Memory.newValue, Memory.intOfValue, intOfStr_intText (not_tooLong_of_int64 hn)]

theorem strOfInt_of_int64 {n : Int} (h : int64 n = true) : strOfInt n = .ok (intText n) := by
  simp [strOfInt, not_tooLong_of_int64 h]

/-- What the two counter commands of the server have in common. -/
structure CountsBy (command : Slot → Except Failure Int × Slot) (inRange : Prop) (amount : Int) : Prop where
  valid : inRange → int64 amount = true ∧ ∀ slot, command slot = incrby amount slot
  invalid : ¬ inRange → ∀ slot, ∃ e, command slot = (.error e, slot)

theorem countsBy_incrby (n : Int) : CountsBy (incrby n) (int64 n = true) n where
  valid h := ⟨h, fun _ => rfl⟩
  invalid h slot := ⟨.notInteger, by simp [incrby, h]⟩

theorem countsBy_decrby (n : Int) : CountsBy (decrby n) (int64 n = true ∧ int64 (-n) = true) (-n) where
  valid h := by
    refine ⟨h.2, fun slot => ?_⟩
    have hne : n ≠ -(2 ^ 63) := by
      have := h.2
      simp only [int64, decide_eq_true_eq] at this
      omega
    rw [decrby, if_pos (by rw [h.1, Bool.true_and]; exact decide_eq_true hne)]
  invalid h slot := by
    refine ⟨.notInteger, ?_⟩
    have hfalse : (int64 n && decide (n ≠ -(2 ^ 63))) = false := by
      rw [Bool.and_eq_false_iff]
      by_cases hn : int64 n = true
      · right
        have hneg : ¬ int64 (-n) = true := fun h' => h ⟨hn, h'⟩
        simp only [int64, decide_eq_true_eq] at hn hneg
        rw [decide_eq_false_iff_not, not_not]
        omega
      · left
        simpa using hn
    simp only [decrby, hfalse, Bool.false_eq_true, if_false]

theorem incrby_error {n : Int} {e : Failure} (h : current slot = .error e) :
    ∃ e, incrby n slot = (.error e, slot) := by
  rw [incrby]
  split
  · exact ⟨e, by rw [h]⟩
  · exact ⟨_, rfl⟩

theorem CountsBy.fails {command : Slot → Except Failure Int × Slot} {inRange : Prop} {amount : Int}
    (hc : CountsBy command inRange amount)
    (h : inRange → ∃ e, incrby amount slot = (.error e, slot)) : ∃ e, command slot = (.error e, slot) := by
  by_cases hr : inRange
  · rw [(hc.valid hr).2 slot]
    exact h hr
  · exact hc.invalid hr slot

omit [Clock T] in
theorem incr_typeError [Unicode] {v : Value} {amount : Int} {d : Option T}
    (h : ∃ e, Memory.newValue v amount = .error e) :
    Cell.incr amount (⟨some v, d⟩ : Cell T) = (.none, ⟨some v, d⟩) := by
  obtain ⟨e, he⟩ := h
  simp [Cell.incr, he]

/-- A sum in range is what both sides store; one that is too long fails on both. -/
theorem incrby_tooLong {n m : Int} (hcur : current slot = .ok m) (ht : TooLong (m + n)) :
    ∃ e, incrby n slot = (.error e, slot) := by
  rw [incrby]
  split
  · rw [hcur]
    have hout : ¬ int64 (m + n) = true := fun h => not_tooLong_of_int64 h ht
    exact ⟨.outOfRange, by simp [hout]⟩
  · exact ⟨_, rfl⟩

theorem tallies_incr [Unicode] {command : Slot → Except Failure Int × Slot} {inRange : Prop} {amount : Int}
    (hc : CountsBy command inRange amount) (h : Linked k c slot) (hf : Counts k c.value inRange amount) :
    Tallies k (Cell.incr amount c) (sendSlot k [] command .none .int slot) := by
  cases h with
  | absent =>
    rcases hf with ⟨hk, hr, hn⟩ | ht
    · have hcmd : command none = (.ok amount, some ⟨.string (intText amount), none⟩) := by
        rw [(hc.valid hr).2]
        simp [incrby, hn, current, deadlineOf]
      refine .of_ok hk rfl hcmd ?_
      simp only [Cell.incr, Option.getD_none, Memory.newValue_zero, strOfInt_of_int64 hn]
      exact ⟨rfl, .stored hk (.text _) le_rfl (by simp)⟩
    · have hfail : ∃ e, command none = (.error e, none) :=
        hc.fails fun _ => incrby_tooLong (m := 0) rfl (by simpa using ht)
      obtain ⟨e, he⟩ := hfail
      refine .of_failed he ?_
      simp only [Cell.incr, Option.getD_none, Memory.newValue_zero, strOfInt, ht, if_true]
      exact ⟨trivial, .absent⟩
  | @stored v x d e hk hv h0 hd =>
    cases hv with
    | @hash h f same written =>
      have hfail : ∃ e', command (some ⟨.hash f, e⟩) = (.error e', some ⟨.hash f, e⟩) :=
        hc.fails fun _ => incrby_error rfl
      obtain ⟨e', he⟩ := hfail
      refine .of_failed he ?_
      rw [incr_typeError ⟨_, rfl⟩]
      exact ⟨trivial, .stored hk (.hash same written) h0 hd⟩
    | list l =>
      have hfail : ∃ e', command (some ⟨.list l, e⟩) = (.error e', some ⟨.list l, e⟩) :=
        hc.fails fun _ => incrby_error rfl
      obtain ⟨e', he⟩ := hfail
      refine .of_failed he ?_
      rw [incr_typeError ⟨_, rfl⟩]
      exact ⟨trivial, .stored hk (.list l) h0 hd⟩
    | text s =>
      rcases hf with ⟨n, hn, hr, hsum⟩ | ⟨n, hnew, ht⟩
      · have hcmd : command (some ⟨.string s, e⟩) =
            (.ok (n + amount), some ⟨.string (intText (n + amount)), e⟩) := by
          rw [(hc.valid hr).2]
          simp [incrby, (hc.valid hr).1, current, hn, hsum, deadlineOf]
        refine .of_ok hk rfl hcmd ?_
        simp only [Cell.incr, Option.getD_some, newValue_of_integerOf hn, strOfInt_of_int64 hsum]
        exact ⟨rfl, .stored hk (.text _) h0 hd⟩
      · have hfail : ∃ e', command (some ⟨.string s, e⟩) = (.error e', some ⟨.string s, e⟩) := by
          refine hc.fails fun _ => ?_
          cases hi : integerOf s with
          | none => exact incrby_error (e := .notInteger) (by simp [current, hi])
          | some m =>
            rw [newValue_of_integerOf hi] at hnew
            cases hnew
            exact incrby_tooLong (by simp [current, hi]) ht
        obtain ⟨e', he⟩ := hfail
        refine .of_failed he ?_
        simp only [Cell.incr, Option.getD_some, hnew, strOfInt, ht, if_true]
        exact ⟨trivial, .stored hk (.text s) h0 hd⟩

/-! ## Lists -/

/-- The in-memory slices are the inclusive ranges of the server. -/
theorem range_eq_slice (l : List Str) (start stop : Int) : Redis.range l start stop =
    if stop = -1 then sliceFrom l start else slice l start (stop + 1) := by
  have hfrom : sliceFrom l start = (l.take l.length).drop (sliceIndex l.length start) := by
    rw [List.take_length, sliceFrom]
  have hnil : ([] : List Str) = (l.take 0).drop 0 := by simp
  rw [Redis.range, hfrom, slice]
  simp only [sliceIndex]
  have hlen : 0 ≤ (l.length : Int) := by omega
  split_ifs <;> first
    | (rw [hnil]; apply drop_take_eq; omega)
    | (apply drop_take_eq; omega)

theorem slice_map {α β : Type} (f : α → β) (l : List α) (start stop : Int) :
    slice (l.map f) start stop = (slice l start stop).map f := by
  simp [slice, List.map_drop, List.map_take]

theorem sliceFrom_map {α β : Type} (f : α → β) (l : List α) (start : Int) :
    sliceFrom (l.map f) start = (sliceFrom l start).map f := by
  simp [sliceFrom, List.map_drop]

/-- One value pushed as a list on one side, as a text on the other. -/
theorem tallies_push {v : Str} {put : List Item → List Item} {put' : List Str → List Str}
    (hput : ∀ l : List Str, put (l.map fun v => .texts [v]) = (put' l).map fun v => .texts [v])
    (h : Linked k c slot) (hk : encodable k = true) (hv : encodable v = true)
    (hl : ∀ v, c.value = some v → ∃ l, v = .list l) :
    Tallies k (Cell.push put c) (sendSlot k [v] (Redis.push [v] put') .none .int slot) := by
  have ht : [v].all encodable = true := by simp [hv]
  cases h with
  | absent =>
    have hp := hput []
    rw [List.map_nil] at hp
    refine .of_ok hk ht rfl ?_
    simp only [Cell.push, Cell.nest, Memory.listData, hp, List.length_map]
    exact ⟨rfl, .stored hk (.list _) le_rfl (by simp [deadlineOf])⟩
  | @stored w x d e hk hw h0 hd =>
    obtain ⟨l, rfl⟩ := hl w rfl
    cases hw with
    | list l =>
      refine .of_ok hk ht rfl ?_
      simp only [Cell.push, Cell.nest, Memory.listData, hput, List.length_map]
      exact ⟨rfl, .stored hk (.list _) h0 hd⟩

/-- Whether it refuses or finds nothing in the range, the client returns an empty list. -/
theorem lrange_answers_nothing {start stop : Int}
    (h : ∀ l, listOf slot = .ok l → Redis.range l start stop = []) :
    sendSlot k [] (Redis.lrange start stop) (.list []) .list slot = (.list [], slot) := by
  rw [sendSlot]
  by_cases hr : (int64 start && int64 stop) = true
  · cases ho : listOf slot with
    | error e => simp only [Redis.lrange, hr, if_true, ho, Except.map, ite_self]
    | ok l => simp only [Redis.lrange, hr, if_true, ho, Except.map, h l ho, ite_self]
  · simp only [Redis.lrange, hr, Bool.false_eq_true, if_false, ite_self]

theorem range_of_no_list {v : Option Value} {start stop : Int}
    (he : ∀ l, v = some (.list l) →
      (if stop = -1 then sliceFrom l start else slice l start (stop + 1)) = []) :
    (if stop = -1 then sliceFrom (Memory.listData v) start
      else slice (Memory.listData v) start (stop + 1)) = [] := by
  cases v with
  | none => simp [Memory.listData, slice, sliceFrom]
  | some v =>
    cases v with
    | list l => exact he l rfl
    | text s => simp [Memory.listData, slice, sliceFrom]
    | hash h => simp [Memory.listData, slice, sliceFrom]

theorem tallies_lrange {start stop : Int} (h : Linked k c slot) (hl : c.expired now = false)
    (he : ∀ l, c.value = some (.list l) →
      (if stop = -1 then sliceFrom l start else slice l start (stop + 1)) = []) :
    Tallies k (Cell.read now (.items []) (fun v => .items (if stop = -1 then
        sliceFrom (Memory.listData v) start else slice (Memory.listData v) start (stop + 1))) c)
      (sendSlot k [] (Redis.lrange start stop) (.list []) .list slot) := by
  have hrange : ∀ l, listOf slot = .ok l → Redis.range l start stop = [] := by
    intro l ho
    cases h with
    | absent =>
      cases ho
      simp [Redis.range]
    | stored hk hv h0 hd =>
      cases hv with
      | text s => cases ho
      | hash same written => cases ho
      | list l' =>
        cases ho
        have hempty := he _ rfl
        rw [sliceFrom_map, slice_map, ← apply_ite (List.map _), ← range_eq_slice] at hempty
        exact List.map_eq_nil_iff.mp hempty
  rw [read_live hl, lrange_answers_nothing hrange, range_of_no_list he]
  exact ⟨rfl, h⟩

theorem tallies_llen (h : Linked k c slot) (hl : c.expired now = false) (hk : encodable k = true)
    (hv : ∀ v, c.value = some v → ∃ l, v = .list l) :
    Tallies k (Cell.llen now c) (sendSlot k [] Redis.llen .none .int slot) := by
  rw [Cell.llen, if_neg (by simp [hl])]
  cases h with
  | absent => exact .of_ok hk rfl rfl ⟨rfl, .absent⟩
  | @stored w x d e hk hw h0 hd =>
    obtain ⟨l, rfl⟩ := hv w rfl
    cases hw with
    | list l => exact .of_ok hk rfl rfl ⟨by simp [Same, Memory.listData], .stored hk (.list l) h0 hd⟩

/-! ## Hashes -/

theorem tallies_hset {field value : Str} (h : Linked k c slot) (hk : encodable k = true)
    (hfield : encodable field = true) (hvalue : encodable value = true)
    (hv : ∀ v, c.value = some v → ∃ h, v = .hash h) :
    Tallies k (Cell.hset field value c)
      (sendSlot k [field, value] (Redis.hset field value) .none (fun _ => .bool true) slot) := by
  have ht : [field, value].all encodable = true := by simp [hfield, hvalue]
  have hsame : ∀ (d : Dict Str Str) (f : Str → Option Str), (∀ x, d.get x = f x) →
      (∀ x, (f x).isSome → encodable x = true) →
      SameValue (.hash (d.set field value)) (.hash (Function.update f field (some value))) := by
    intro d f hd hf
    refine .hash ?_ ?_
    · intro x
      rw [Dict.get_set, Function.update_apply, hd]
    · intro x hx
      by_cases hxf : x = field
      · rw [hxf]
        exact hfield
      · rw [Function.update_of_ne hxf] at hx
        exact hf x hx
  cases h with
  | absent =>
    refine .of_ok hk ht rfl ?_
    exact ⟨rfl, .stored hk (hsame _ _ (fun _ => rfl) nofun) le_rfl (by simp [deadlineOf])⟩
  | @stored w x d e hk hw h0 hd =>
    obtain ⟨hw', rfl⟩ := hv w rfl
    cases hw with
    | hash same written =>
      refine .of_ok hk ht rfl ?_
      exact ⟨rfl, .stored hk (hsame _ _ same written) h0 hd⟩

theorem tallies_hget {field : Str} (h : Linked k c slot) (hl : c.expired now = false) :
    Tallies k (Cell.read now .none (fun v => .ofValue (((Memory.hashData v).get field).map .text)) c)
      (sendSlot k [field] (Redis.hget field) .none .ofStr slot) := by
  rw [read_live hl]
  cases h with
  | absent =>
    by_cases hs : ((k :: [field]).all encodable) = true
    · simp only [List.all_cons, List.all_nil, Bool.and_true, Bool.and_eq_true] at hs
      exact .of_ok hs.1 (by simp [hs.2]) rfl ⟨trivial, .absent⟩
    · exact .of_unsent (by simpa using hs) ⟨trivial, .absent⟩
  | @stored w x d e hk hw h0 hd =>
    cases hw with
    | text s => exact .of_failed (e := .wrongType) rfl ⟨trivial, .stored hk (.text s) h0 hd⟩
    | list l => exact .of_failed (e := .wrongType) rfl ⟨trivial, .stored hk (.list l) h0 hd⟩
    | @hash hh f same written =>
      have hlink : Linked k (⟨some (.hash hh), d⟩ : Cell T) (some ⟨.hash f, e⟩) :=
        .stored hk (.hash same written) h0 hd
      by_cases hf : encodable field = true
      · refine .of_ok hk (by simp [hf]) rfl ⟨?_, hlink⟩
        simp only [Memory.hashData, same]
        cases f field with
        | none => trivial
        | some v => rfl
      · refine .of_unsent (by simp [hf]) ⟨?_, hlink⟩
        have hnone : f field = none := by
          cases hff : f field with
          | none => rfl
          | some v => exact absurd (written field (by simp [hff])) hf
        simp only [Memory.hashData, same, hnone]
        trivial

theorem tallies_hgetall (h : Linked k c slot) (hl : c.expired now = false) :
    Tallies k (Cell.read now (.fields Dict.empty) (fun v => .fields (Memory.hashData v)) c)
      (sendSlot k [] Redis.hgetall (.dict fun _ => none) .dict slot) := by
  rw [read_live hl]
  cases h with
  | absent =>
    by_cases hk : encodable k = true
    · exact .of_ok hk rfl rfl ⟨fun _ => rfl, .absent⟩
    · exact .of_unsent (by simpa using hk) ⟨fun _ => rfl, .absent⟩
  | @stored w x d e hk hw h0 hd =>
    cases hw with
    | text s => exact .of_failed (e := .wrongType) rfl ⟨fun _ => rfl, .stored hk (.text s) h0 hd⟩
    | list l => exact .of_failed (e := .wrongType) rfl ⟨fun _ => rfl, .stored hk (.list l) h0 hd⟩
    | hash same written => exact .of_ok hk rfl rfl ⟨same, .stored hk (.hash same written) h0 hd⟩

end IsaCloud.Cache

/-! ## Ranges of a list

`LRANGE` names the elements between two positions, both included, and a negative
index counts from the tail. The in-memory client slices half open, and the index
`-1` has no successor to slice to: it takes the branch without an upper bound.
-/

namespace IsaCloud.Cache

set_option autoImplicit false

open Support Support.Text Support.Python

section Positions
variable {α β : Type}

/-- The position an index stands for; the last element is at `-1`. -/
def position (length : Nat) (i : Int) : Int := if i < 0 then length + i else i

/-- The elements at the positions from `first` to `last`. -/
def between : List α → Int → Int → List α
  | [], _, _ => []
  | x :: xs, first, last =>
    if first ≤ 0 ∧ 0 ≤ last then x :: between xs (first - 1) (last - 1) else between xs (first - 1) (last - 1)

theorem between_eq (l : List α) (first last : Int) :
    between l first last = (l.take (last + 1).toNat).drop first.toNat := by
  induction l generalizing first last with
  | nil => simp [between]
  | cons x xs ih =>
    rw [between, ih, Int.sub_add_cancel]
    by_cases hlast : 0 ≤ last
    · have htake : (last + 1).toNat = last.toNat + 1 := by omega
      rw [htake, List.take_succ_cons]
      by_cases hfirst : first ≤ 0
      · have hdrop : first.toNat = 0 ∧ (first - 1).toNat = 0 := by omega
        rw [if_pos ⟨hfirst, hlast⟩, hdrop.1, hdrop.2, List.drop_zero, List.drop_zero]
      · have hdrop : first.toNat = (first - 1).toNat + 1 := by omega
        rw [if_neg fun h => hfirst h.1, hdrop, List.drop_succ_cons]
    · have htake : (last + 1).toNat = 0 ∧ last.toNat = 0 := by omega
      rw [if_neg fun h => hlast h.2, htake.1, htake.2, List.take_zero, List.take_zero, List.drop_nil, List.drop_nil]

theorem between_map (f : α → β) (l : List α) (first last : Int) :
    between (l.map f) first last = (between l first last).map f := by
  rw [between_eq, between_eq, List.map_drop, List.map_take]

/-- Both branches of the in-memory client. -/
theorem sliced_eq_between (l : List α) (start stop : Int) :
    (if stop = -1 then sliceFrom l start else slice l start (stop + 1)) =
      between l (position l.length start) (position l.length stop) := by
  have hfrom : sliceFrom l start = (l.take l.length).drop (sliceIndex l.length start) := by
    rw [List.take_length, sliceFrom]
  rw [between_eq, hfrom, slice]
  simp only [sliceIndex, position]
  split_ifs <;>
    · apply drop_take_eq
      omega

end Positions

/-- The range the server replies with. -/
theorem range_eq_between (l : List Str) (start stop : Int) :
    Redis.range l start stop = between l (position l.length start) (position l.length stop) := by
  rw [range_eq_slice, sliced_eq_between]

variable {T : Type} [Clock T] {m : Memory T} {now : T} {k : Str} {l : List Item}

theorem Memory.lrange_eq_between (hstored : m.store.get k = some (.list l)) (hlive : m.isExpired now k = false)
    (start stop : Int) :
    m.lrange now k start stop = (.items (between l (position l.length start) (position l.length stop)), m) := by
  simp only [Memory.lrange, hlive, Bool.false_eq_true, if_false, hstored, Memory.listData, sliced_eq_between]

/-- A list of strings, in the store and on the server. -/
theorem lrange_as_redis (hstored : m.store.get k = some (.list l)) (hlive : m.isExpired now k = false)
    (start stop : Int) :
    (m.lrange now k start stop).1 = .items (between l (position l.length start) (position l.length stop)) ∧
      ∀ texts deadline reply, l = texts.map .text →
        (Redis.lrange start stop (some ⟨.list texts, deadline⟩)).1 = .ok reply →
          (m.lrange now k start stop).1 = .items (reply.map .text) := by
  rw [Memory.lrange_eq_between hstored hlive]
  refine ⟨rfl, ?_⟩
  intro texts deadline reply htexts hreply
  subst htexts
  have hrange : Redis.range texts start stop = reply := by
    rw [Redis.lrange] at hreply
    split at hreply
    · exact Except.ok.inj hreply
    · cases hreply
  rw [← hrange, range_eq_between, between_map, List.length_map]

/-! A list of three jobs. -/

attribute [local instance] wholeSeconds

def jobs : List Str := [lit "a", lit "b", lit "c"]

def jobStore : Memory Int := ⟨Dict.empty.set (lit "jobs") (.list (jobs.map .text)), Dict.empty⟩

/-- From before the head to the last but one. -/
theorem lrange_of_jobs :
    (jobStore.lrange 0 (lit "jobs") (-5) (-2)).1 = .items [.text (lit "a"), .text (lit "b")] ∧
      (jobStore.lrange 0 (lit "jobs") (-5) (-2)).1 = .items ((jobs.take 2).map .text) := by
  have hstored : jobStore.store.get (lit "jobs") = some (.list (jobs.map .text)) := rfl
  have hlive : jobStore.isExpired 0 (lit "jobs") = false := rfl
  have hrange := lrange_as_redis hstored hlive (-5) (-2)
  exact ⟨hrange.1, hrange.2 jobs none (jobs.take 2) rfl rfl⟩

end IsaCloud.Cache
