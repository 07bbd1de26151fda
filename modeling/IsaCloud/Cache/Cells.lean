import IsaCloud.Cache.Memory
import IsaCloud.Support.Runs

/-!
# What an operation does to the cells of the store

The two dictionaries taken together give every key a cell: its value and its
deadline. An operation on one key is a function of that key's cell and leaves
all other cells alone; the operations on several keys are loops over such
functions.
-/

namespace IsaCloud.Cache

set_option autoImplicit false

open Support Support.Text Support.Python Support.Glob

structure Cell (T : Type) where
  value : Option Value
  deadline : Option T

namespace Cell

def absent {T : Type} : Cell T := ⟨none, none⟩

/-- A deadline is only kept for a key that has a value. -/
def Backed {T : Type} (c : Cell T) : Prop := c.deadline.isSome → c.value.isSome

variable {T : Type} [Clock T] (c : Cell T) (now : T)

def expTime : T := c.deadline.getD 0

def expired : Bool := decide (0 < c.expTime ∧ c.expTime < now)

/-- Value and deadline as a client can see them. -/
def visible : Option (Value × T) :=
  if c.expired now then none else c.value.map fun v => (v, c.expTime)

@[simp] theorem absent_expired : (absent : Cell T).expired now = false := by
  simp [expired, expTime, absent]

@[simp] theorem absent_visible : (absent : Cell T).visible now = none := by
  rw [visible, absent_expired]
  rfl

@[simp] theorem zero_expired (v : Option Value) : (⟨v, some 0⟩ : Cell T).expired now = false := by
  simp [expired, expTime]

@[simp] theorem undated_expired (v : Option Value) : (⟨v, none⟩ : Cell T).expired now = false := by
  simp [expired, expTime]

variable {c now}

theorem deadline_of_expired (h : c.expired now = true) : c.deadline.isSome = true := by
  have hpos : 0 < c.expTime := (of_decide_eq_true h).1
  cases hd : c.deadline with
  | none =>
    rw [expTime, hd] at hpos
    exact absurd hpos (lt_irrefl _)
  | some t => rfl

theorem Backed.value_of_expired (hb : c.Backed) (h : c.expired now = true) :
    ∃ v, c.value = some v := Option.isSome_iff_exists.mp (hb (deadline_of_expired h))

/-! ## The operations on one cell -/

variable (now)

def set (value : Str) (ttlSeconds : Int) (c : Cell T) : Reply × Cell T :=
  if 0 < ttlSeconds then
    match Clock.after now ttlSeconds with
    | none => (.none, ⟨some (.text value), c.deadline⟩)
    | some t => (.bool true, ⟨some (.text value), some t⟩)
  else (.bool true, ⟨some (.text value), some 0⟩)

/-- The reads: an expired cell is emptied and answers `gone`. -/
def read (gone : Reply) (found : Option Value → Reply) (c : Cell T) : Reply × Cell T :=
  if c.expired now then (gone, absent) else (found c.value, c)

def delete {T : Type} (c : Cell T) : Reply × Cell T := (.bool c.value.isSome, absent)

def ttl (c : Cell T) : Reply × Cell T :=
  (if c.expTime = 0 then .int (-1) else if c.expTime < now then .int (-2)
    else .int (Clock.secondsLeft c.expTime now), c)

def expire (ttlSeconds : Int) (c : Cell T) : Reply × Cell T :=
  if c.value.isSome then
    match Clock.after now ttlSeconds with
    | none => (.none, c)
    | some t => (.bool true, ⟨c.value, some t⟩)
  else (.bool false, c)

def incr {T : Type} [Unicode] (amount : Int) (c : Cell T) : Reply × Cell T :=
  match Memory.newValue (c.value.getD (.text (lit "0"))) amount with
  | .error _ => (.none, c)
  | .ok n =>
    match strOfInt n with
    | .error _ => (.none, c)
    | .ok text => (.int n, ⟨some (.text text), c.deadline⟩)

/-- `hset`, `lpush` and `rpush`: a new key gets no deadline, an old one keeps its own. -/
def nest {T : Type} [Zero T] (put : Option Value → Reply × Value) (c : Cell T) : Reply × Cell T :=
  ((put c.value).1, ⟨some (put c.value).2, if c.value.isSome then c.deadline else some 0⟩)

def hset {T : Type} [Zero T] (field value : Str) : Cell T → Reply × Cell T :=
  nest fun v => (.bool true, .hash ((Memory.hashData v).set field value))

def push {T : Type} [Zero T] (put : List Item → List Item) : Cell T → Reply × Cell T :=
  nest fun v => (.int (put (Memory.listData v)).length, .list (put (Memory.listData v)))

def hdel {T : Type} (field : Str) (c : Cell T) : Reply × Cell T :=
  match c.value with
  | some (.hash h) =>
    if h.contains field then (.bool true, ⟨some (.hash (h.pop field)), c.deadline⟩)
    else (.bool false, c)
  | _ => (.bool false, c)

def llen (c : Cell T) : Reply × Cell T :=
  (if c.expired now then .int 0 else .int (Memory.listData c.value).length, c)

end Cell

namespace Memory

theorem newValue_zero [Unicode] (amount : Int) : newValue (.text (lit "0")) amount = .ok amount := by
  rw [newValue, intOfValue, intOfStr_zero]
  simp

def cell {T : Type} (m : Memory T) (k : Str) : Cell T := ⟨m.store.get k, m.expiry.get k⟩

theorem cell_value {T : Type} (m : Memory T) (k : Str) : (m.cell k).value = m.store.get k := rfl

theorem isExpired_eq {T : Type} [Clock T] (m : Memory T) (now : T) (k : Str) :
    m.isExpired now k = (m.cell k).expired now := rfl

theorem cell_drop {T : Type} (m : Memory T) (k k' : Str) :
    (m.drop k).cell k' = if k' = k then .absent else m.cell k' := by
  by_cases h : k' = k
  · simp [cell, drop, h, Cell.absent]
  · simp [cell, drop, Dict.get_pop, h]

theorem cell_foldl_drop {T : Type} (ks : List Str) (m : Memory T) (k : Str) :
    (ks.foldl drop m).cell k = if k ∈ ks then .absent else m.cell k := by
  induction ks generalizing m with
  | nil => simp
  | cons x ks ih =>
    rw [List.foldl_cons, ih, cell_drop]
    by_cases hk : k ∈ ks
    · simp [hk]
    · by_cases hx : k = x <;> simp [hk, hx]

theorem keys_foldl_drop {T : Type} (ks : List Str) (m : Memory T) :
    (ks.foldl drop m).store.keys = m.store.keys.filter fun k => decide (k ∉ ks) := by
  induction ks generalizing m with
  | nil => simp
  | cons x ks ih =>
    rw [List.foldl_cons, ih, drop, Dict.pop, Dict.keys_restrict, List.filter_filter]
    apply List.filter_congr
    intro k _
    by_cases hx : k = x <;> simp [hx]

end Memory

/-- The operation reads and writes the cell of `k` only, as `f` says. -/
structure ActsOn {T : Type} (k : Str) (f : Cell T → Reply × Cell T) (m : Memory T)
    (r : Reply × Memory T) : Prop where
  reply : r.1 = (f (m.cell k)).1
  here : r.2.cell k = (f (m.cell k)).2
  there : ∀ k', k' ≠ k → r.2.cell k' = m.cell k'

namespace Memory
section Acts
variable {T : Type} (m : Memory T) (k : Str)

/-- An operation that only reads. -/
theorem acts_pure {f : Cell T → Reply × Cell T} {r : Reply} (hr : r = (f (m.cell k)).1)
    (hc : (f (m.cell k)).2 = m.cell k) : ActsOn k f m (r, m) :=
  ⟨hr, hc.symm, fun _ _ => rfl⟩

/-- An operation that assigns to the key in one or both dictionaries. -/
theorem acts_write {f : Cell T → Reply × Cell T} {r : Reply} {store : Dict Str Value}
    {expiry : Dict Str T} {c : Cell T} (hf : f (m.cell k) = (r, c))
    (hs : ∀ k', store.get k' = if k' = k then c.value else m.store.get k')
    (he : ∀ k', expiry.get k' = if k' = k then c.deadline else m.expiry.get k') :
    ActsOn k f m (r, ⟨store, expiry⟩) := by
  refine ⟨by rw [hf], ?_, ?_⟩
  · rw [hf]
    simp [cell, hs, he]
  · intro k' hk
    simp [cell, hs, he, hk]

theorem acts_delete : ActsOn k Cell.delete m (m.delete k) := by
  refine ⟨rfl, ?_, ?_⟩
  · simp [delete, Cell.delete, cell_drop]
  · intro k' hk
    simp [delete, cell_drop, hk]

theorem get_keep {V : Type} {d : Dict Str V} {o : Option V} (h : d.get k = o) (k' : Str) :
    d.get k' = if k' = k then o else d.get k' := by
  by_cases hk : k' = k
  · simp [hk, h]
  · simp [hk]

theorem acts_incr [Unicode] (amount : Int) : ActsOn k (Cell.incr amount) m (m.incr k amount) := by
  have hv : (m.cell k).value = m.store.get k := rfl
  rw [incr]
  cases hn : newValue ((m.store.get k).getD (.text (lit "0"))) amount with
  | error e => exact acts_pure m k (by simp [Cell.incr, hv, hn]) (by simp [Cell.incr, hv, hn])
  | ok n =>
    dsimp only
    cases hs : strOfInt n with
    | error e => exact acts_pure m k (by simp [Cell.incr, hv, hn, hs]) (by simp [Cell.incr, hv, hn, hs])
    | ok text =>
      refine acts_write m k (c := ⟨some (.text text), m.expiry.get k⟩)
        (by simp [Cell.incr, hn, hs, cell]) ?_ (get_keep k rfl)
      intro k'
      exact Dict.get_set _ _ _ _

theorem acts_hdel (field : Str) : ActsOn k (Cell.hdel field) m (m.hdel k field) := by
  have hv : (m.cell k).value = m.store.get k := rfl
  rw [hdel]
  cases hg : m.store.get k with
  | none => exact acts_pure m k (by simp [Cell.hdel, hv, hg]) (by simp [Cell.hdel, hv, hg])
  | some v =>
    cases v with
    | text s => exact acts_pure m k (by simp [Cell.hdel, hv, hg]) (by simp [Cell.hdel, hv, hg])
    | list l => exact acts_pure m k (by simp [Cell.hdel, hv, hg]) (by simp [Cell.hdel, hv, hg])
    | hash h =>
      by_cases hc : h.contains field = true
      · simp only [hc, if_true]
        refine acts_write m k (c := ⟨some (.hash (h.pop field)), m.expiry.get k⟩)
          (by simp [Cell.hdel, hg, hc, cell]) ?_ (get_keep k rfl)
        intro k'
        exact Dict.get_set _ _ _ _
      · simp only [hc, Bool.false_eq_true, if_false]
        exact acts_pure m k (by simp [Cell.hdel, hv, hg, hc]) (by simp [Cell.hdel, hv, hg, hc])

variable [Clock T]

theorem cell_create (v : Value) : (m.create k v).cell k =
    if (m.cell k).value.isSome then m.cell k else ⟨some v, some 0⟩ := by
  by_cases h : (m.store.get k).isSome = true
  · simp [create, cell, Dict.contains, h]
  · simp [create, cell, Dict.contains, h]

theorem cell_create_of_ne (v : Value) {k' : Str} (hk : k' ≠ k) : (m.create k v).cell k' = m.cell k' := by
  rw [create]
  split
  · rfl
  · simp [cell, Dict.get_set, hk]

/-- The common shape of `hset`, `lpush` and `rpush`. -/
theorem acts_nest {put : Option Value → Reply × Value} {v0 : Value}
    (h0 : put (some v0) = put none) {r : Reply × Memory T}
    (hr : r = ((put ((m.create k v0).store.get k)).1,
      ⟨(m.create k v0).store.set k (put ((m.create k v0).store.get k)).2, (m.create k v0).expiry⟩)) :
    ActsOn k (Cell.nest put) m r := by
  have hc : (⟨(m.create k v0).store.get k, (m.create k v0).expiry.get k⟩ : Cell T) =
      if (m.cell k).value.isSome then m.cell k else ⟨some v0, some 0⟩ := cell_create m k v0
  have hput : put ((m.create k v0).store.get k) = put (m.cell k).value := by
    cases hv : (m.cell k).value with
    | none => simpa [hv, h0] using congrArg (fun c : Cell T => put c.value) hc
    | some v => simpa [hv] using congrArg (fun c : Cell T => put c.value) hc
  have hexp : (m.create k v0).expiry.get k =
      if (m.cell k).value.isSome then (m.cell k).deadline else some 0 := by
    have := congrArg Cell.deadline hc
    split at this <;> simp_all
  subst hr
  refine ⟨?_, ?_, ?_⟩
  · simp [Cell.nest, hput]
  · simp [cell, Cell.nest, hput, hexp]
  · intro k' hk
    have := cell_create_of_ne m k v0 hk
    simpa [cell, Dict.get_set, hk] using this

theorem acts_hset (field value : Str) : ActsOn k (Cell.hset field value) m (m.hset k field value) :=
  acts_nest m k rfl rfl

theorem acts_push (put : List Item → List Item) : ActsOn k (Cell.push put) m (m.push k put) :=
  acts_nest m k rfl rfl

variable (now : T)

theorem acts_set (value : Str) (ttlSeconds : Int) :
    ActsOn k (Cell.set now value ttlSeconds) m (m.set now k value ttlSeconds) := by
  rw [set]
  by_cases hpos : 0 < ttlSeconds
  · simp only [hpos, if_true]
    cases ha : Clock.after now ttlSeconds with
    | none =>
      refine acts_write m k (c := ⟨some (.text value), m.expiry.get k⟩)
        (by simp [Cell.set, hpos, ha, cell]) ?_ (get_keep k rfl)
      intro k'
      exact Dict.get_set _ _ _ _
    | some t =>
      refine acts_write m k (c := ⟨some (.text value), some t⟩) (by simp [Cell.set, hpos, ha]) ?_ ?_
      · intro k'
        exact Dict.get_set _ _ _ _
      · intro k'
        exact Dict.get_set _ _ _ _
  · simp only [hpos, if_false]
    refine acts_write m k (c := ⟨some (.text value), some 0⟩) (by simp [Cell.set, hpos]) ?_ ?_
    · intro k'
      exact Dict.get_set _ _ _ _
    · intro k'
      exact Dict.get_set _ _ _ _

theorem acts_expire (ttlSeconds : Int) :
    ActsOn k (Cell.expire now ttlSeconds) m (m.expire now k ttlSeconds) := by
  have hv : (m.cell k).value = m.store.get k := rfl
  rw [expire, Dict.contains]
  by_cases hs : (m.store.get k).isSome = true
  · simp only [hs, if_true]
    cases ha : Clock.after now ttlSeconds with
    | none => exact acts_pure m k (by simp [Cell.expire, hv, hs, ha]) (by simp [Cell.expire, hv, hs, ha])
    | some t =>
      refine acts_write m k (c := ⟨m.store.get k, some t⟩) (by simp [Cell.expire, hv, hs, ha])
        (get_keep k rfl) ?_
      intro k'
      exact Dict.get_set _ _ _ _
  · simp only [hs, Bool.false_eq_true, if_false]
    exact acts_pure m k (by simp [Cell.expire, hv, hs]) (by simp [Cell.expire, hv, hs])

/-- The common shape of the reads, which drop an expired key. -/
theorem acts_read {gone : Reply} {found : Option Value → Reply} {r : Reply × Memory T}
    (hr : r = if m.isExpired now k then (gone, m.drop k) else (found (m.store.get k), m)) :
    ActsOn k (Cell.read now gone found) m r := by
  subst hr
  rw [isExpired_eq]
  by_cases he : (m.cell k).expired now = true
  · simp only [he, if_true]
    refine ⟨by simp [Cell.read, he], by simp [Cell.read, he, cell_drop], ?_⟩
    intro k' hk
    simp [cell_drop, hk]
  · simp only [he, Bool.false_eq_true, if_false]
    exact acts_pure m k (by simp [Cell.read, he, cell_value]) (by simp [Cell.read, he])

end Acts

end Memory

/-! ## Operations on one key -/

section Touch
variable {T : Type} [Clock T] [Unicode]

/-- The key and the function on its cell, for the operations on one key. -/
def Op.touch (t : Tenant) (now : T) : Op → Option (Str × (Cell T → Reply × Cell T))
  | .set key value ttlSeconds => some (t.prefixKey key, Cell.set now value ttlSeconds)
  | .get key => some (t.prefixKey key, Cell.read now .none .ofValue)
  | .delete key => some (t.prefixKey key, Cell.delete)
  | .existsKey key => some (t.prefixKey key, Cell.read now (.bool false) fun v => .bool v.isSome)
  | .ttl key => some (t.prefixKey key, Cell.ttl now)
  | .expire key ttlSeconds => some (t.prefixKey key, Cell.expire now ttlSeconds)
  | .incr key amount => some (t.prefixKey key, Cell.incr amount)
  | .decr key amount => some (t.prefixKey key, Cell.incr (-amount))
  | .hset name key value => some (t.prefixKey name, Cell.hset key value)
  | .hget name key => some (t.prefixKey name,
      Cell.read now .none fun v => .ofValue (((Memory.hashData v).get key).map .text))
  | .hgetall name => some (t.prefixKey name,
      Cell.read now (.fields Dict.empty) fun v => .fields (Memory.hashData v))
  | .hdel name key => some (t.prefixKey name, Cell.hdel key)
  | .lpush key values => some (t.prefixKey key,
      Cell.push fun l => values.reverse.foldl (fun l v => v :: l) l)
  | .rpush key values => some (t.prefixKey key, Cell.push fun l => l ++ values)
  | .lrange key start stop => some (t.prefixKey key, Cell.read now (.items []) fun v =>
      .items (if stop = -1 then sliceFrom (Memory.listData v) start
        else slice (Memory.listData v) start (stop + 1)))
  | .llen key => some (t.prefixKey key, Cell.llen now)
  | .mset _ | .mget _ | .deleteMany _ | .keys _ | .scan _ _ _ | .flush | .flushAll => none

theorem Op.acts {t : Tenant} {now : T} {op : Op} {k : Str} {f : Cell T → Reply × Cell T}
    (h : op.touch t now = some (k, f)) (m : Memory T) : ActsOn k f m (op.perform t now m) := by
  cases op with
  | set key value ttlSeconds => cases h; exact m.acts_set _ now value ttlSeconds
  | get key => cases h; exact m.acts_read _ now rfl
  | delete key => cases h; exact m.acts_delete _
  | existsKey key => cases h; exact m.acts_read _ now rfl
  | ttl key => cases h; exact m.acts_pure _ rfl rfl
  | expire key ttlSeconds => cases h; exact m.acts_expire _ now ttlSeconds
  | incr key amount => cases h; exact m.acts_incr _ amount
  | decr key amount => cases h; exact m.acts_incr _ (-amount)
  | hset name key value => cases h; exact m.acts_hset _ key value
  | hget name key => cases h; exact m.acts_read _ now rfl
  | hgetall name => cases h; exact m.acts_read _ now rfl
  | hdel name key => cases h; exact m.acts_hdel _ key
  | lpush key values => cases h; exact m.acts_push _ _
  | rpush key values => cases h; exact m.acts_push _ _
  | lrange key start stop => cases h; exact m.acts_read _ now rfl
  | llen key => cases h; exact m.acts_pure _ rfl rfl
  | mset mapping => cases h
  | mget ks => cases h
  | deleteMany ks => cases h
  | keys pattern => cases h
  | scan cursor pattern count => cases h
  | flush => cases h
  | flushAll => cases h

end Touch

/-! ## Deadlines belong to stored keys -/

namespace Cell
variable {T : Type}

theorem backed_absent : (absent : Cell T).Backed := nofun

theorem backed_some {v : Value} {d : Option T} : (⟨some v, d⟩ : Cell T).Backed := fun _ => rfl

theorem backed_nest [Zero T] (put : Option Value → Reply × Value) (c : Cell T) :
    (nest put c).2.Backed := backed_some

variable [Clock T] {c : Cell T} {now : T}

theorem backed_read {gone : Reply} {found : Option Value → Reply} (h : c.Backed) :
    (read now gone found c).2.Backed := by
  rw [read]
  split
  · exact backed_absent
  · exact h

theorem backed_set {value : Str} {ttlSeconds : Int} : (set now value ttlSeconds c).2.Backed := by
  rw [set]
  split
  · split <;> exact backed_some
  · exact backed_some

theorem backed_expire {ttlSeconds : Int} (h : c.Backed) : (expire now ttlSeconds c).2.Backed := by
  rw [expire]
  split
  · rename_i hs
    split
    · exact h
    · exact fun _ => hs
  · exact h

omit [Clock T] in
theorem backed_incr [Unicode] {amount : Int} (h : c.Backed) : (incr amount c).2.Backed := by
  rw [incr]
  split
  · exact h
  · split
    · exact h
    · exact backed_some

omit [Clock T] in
theorem backed_hdel {field : Str} (h : c.Backed) : (hdel field c).2.Backed := by
  rw [hdel]
  split
  · split
    · exact backed_some
    · exact h
  · exact h

end Cell

section Backed
variable {T : Type} [Clock T]

theorem Op.backed_touch [Unicode] {t : Tenant} {now : T} {op : Op} {k : Str} {f : Cell T → Reply × Cell T}
    (h : op.touch t now = some (k, f)) {c : Cell T} (hc : c.Backed) : (f c).2.Backed := by
  cases op with
  | set key value ttlSeconds => cases h; exact Cell.backed_set
  | get key => cases h; exact Cell.backed_read hc
  | delete key => cases h; exact Cell.backed_absent
  | existsKey key => cases h; exact Cell.backed_read hc
  | ttl key => cases h; exact hc
  | expire key ttlSeconds => cases h; exact Cell.backed_expire hc
  | incr key amount => cases h; exact Cell.backed_incr hc
  | decr key amount => cases h; exact Cell.backed_incr hc
  | hset name key value => cases h; exact Cell.backed_nest _ _
  | hget name key => cases h; exact Cell.backed_read hc
  | hgetall name => cases h; exact Cell.backed_read hc
  | hdel name key => cases h; exact Cell.backed_hdel hc
  | lpush key values => cases h; exact Cell.backed_nest _ _
  | rpush key values => cases h; exact Cell.backed_nest _ _
  | lrange key start stop => cases h; exact Cell.backed_read hc
  | llen key => cases h; exact hc
  | mset mapping => cases h
  | mget ks => cases h
  | deleteMany ks => cases h
  | keys pattern => cases h
  | scan cursor pattern count => cases h
  | flush => cases h
  | flushAll => cases h

namespace Memory

def Backed {T : Type} (m : Memory T) : Prop := ∀ k, (m.cell k).Backed

omit [Clock T] in
theorem Backed.foldl_drop {m : Memory T} (h : m.Backed) (ks : List Str) : (ks.foldl drop m).Backed := by
  intro k
  rw [cell_foldl_drop]
  split
  · exact Cell.backed_absent
  · exact h k

omit [Clock T] in
theorem Backed.drop {m : Memory T} (h : m.Backed) (k : Str) : (m.drop k).Backed :=
  h.foldl_drop [k]

/-- One assignment of `mset`. -/
theorem cell_assign (m : Memory T) (k : Str) (v : Value) (k' : Str) :
    (⟨m.store.set k v, m.expiry.set k 0⟩ : Memory T).cell k' =
      if k' = k then ⟨some v, some 0⟩ else m.cell k' := by
  by_cases hk : k' = k
  · simp [cell, hk]
  · simp [cell, Dict.get_set, hk]

theorem Backed.mset {m : Memory T} (h : m.Backed) (t : Tenant) (mapping : Dict Str Str) :
    (m.mset t mapping).2.Backed := by
  simp only [Memory.mset]
  generalize mapping.entries = es
  induction es generalizing m with
  | nil => exact h
  | cons e es ih =>
    refine ih ?_
    intro k
    rw [cell_assign]
    split
    · exact Cell.backed_some
    · exact h k

theorem Backed.mgetLoop {m : Memory T} (h : m.Backed) (t : Tenant) (now : T) (ks : List Str) :
    (mgetLoop t now ks m).2.Backed := by
  induction ks generalizing m with
  | nil => exact h
  | cons key ks ih =>
    rw [Memory.mgetLoop]
    split
    · exact ih (h.drop _)
    · exact ih h

omit [Clock T] in
theorem Backed.deleteLoop {m : Memory T} (h : m.Backed) (t : Tenant) (ks : List Str) (count : Nat) :
    (deleteLoop t ks count m).2.Backed := by
  induction ks generalizing m count with
  | nil => exact h
  | cons key ks ih =>
    rw [Memory.deleteLoop]
    split
    · exact ih (h.drop _) _
    · exact ih h _

theorem Backed.perform [Unicode] {m : Memory T} (h : m.Backed) (t : Tenant) (now : T) (op : Op) :
    (op.perform t now m).2.Backed := by
  cases ht : op.touch t now with
  | some kf =>
    obtain ⟨k, f⟩ := kf
    have ha := Op.acts ht m
    intro k'
    by_cases hk : k' = k
    · rw [hk, ha.here]
      exact Op.backed_touch ht (h k)
    · rw [ha.there k' hk]
      exact h k'
  | none =>
    cases op with
    | mset mapping => exact h.mset t mapping
    | mget ks => exact h.mgetLoop t now ks
    | deleteMany ks => exact h.deleteLoop t ks 0
    | keys pattern => exact h
    | scan cursor pattern count => exact h
    | flush => exact h.foldl_drop _
    | flushAll => exact fun _ => Cell.backed_absent
    | _ => cases ht

/-- What the clients and the sweeper can make of the empty store, whatever the clock read. -/
def Reachable [Unicode] (m : Memory T) : Prop := ∃ events, m = run Event.apply Memory.empty events

theorem Reachable.backed [Unicode] {m : Memory T} (h : m.Reachable) : m.Backed := by
  obtain ⟨events, rfl⟩ := h
  refine run_invariant Backed ?_ events (fun _ => Cell.backed_absent)
  intro m e hm
  cases e with
  | operation t now op => exact hm.perform t now op
  | sweep now => exact hm.foldl_drop _

end Memory

end Backed

end IsaCloud.Cache
