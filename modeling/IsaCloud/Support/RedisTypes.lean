import IsaCloud.Support.Redis
import IsaCloud.Support.JsonText

/-!
# Strings, lists and hashes on the server

The commands on a single key, as functions of what the server holds under it. A
deadline is kept in milliseconds. A command on a value of another type, an
integer outside the signed 64-bit range and a missing argument are error
replies, which change nothing.
-/

namespace Support.Redis

set_option autoImplicit false

open Text

inductive Data where
  | string (s : Str)
  | list (l : List Str)
  | hash (fields : Str → Option Str)

inductive Failure where
  | wrongType
  | notInteger
  | outOfRange
  | invalidExpire
  | wrongArity
  deriving DecidableEq, Repr

abbrev Slot := Option (Entry Data)

/-- A decimal integer as the server accepts it: in range, no leading zeros, no plus sign. -/
def integerOf (s : Str) : Option Int :=
  if int64 (Json.intValue s) && decide (s = intText (Json.intValue s)) then some (Json.intValue s) else none

theorem integerOf_eq_some {s : Str} {n : Int} (h : integerOf s = some n) : s = intText n ∧ int64 n = true := by
  rw [integerOf] at h
  split at h
  · rename_i hc
    rw [Bool.and_eq_true, decide_eq_true_eq] at hc
    cases h
    exact ⟨hc.2, hc.1⟩
  · cases h

/-! ## Strings -/

def set (v : Str) (_ : Slot) : Except Failure Unit × Slot := (.ok (), some ⟨.string v, none⟩)

/-- The deadline in milliseconds stays in range. -/
def validExpire (now : Nat) (seconds : Int) : Bool :=
  int64 seconds && (int64 (1000 * seconds) && int64 (1000 * seconds + now))

def setex (now : Nat) (seconds : Int) (v : Str) (slot : Slot) : Except Failure Unit × Slot :=
  if 0 < seconds ∧ validExpire now seconds = true then
    (.ok (), some ⟨.string v, some (now + (1000 * seconds).toNat)⟩)
  else (.error .invalidExpire, slot)

def get (slot : Slot) : Except Failure (Option Str) × Slot :=
  match slot with
  | none => (.ok none, slot)
  | some ⟨.string s, _⟩ => (.ok (some s), slot)
  | some _ => (.error .wrongType, slot)

def del (slot : Slot) : Except Failure Int × Slot := (.ok (if slot.isSome then 1 else 0), none)

def exist (slot : Slot) : Except Failure Int × Slot := (.ok (if slot.isSome then 1 else 0), slot)

def expire (now : Nat) (seconds : Int) (slot : Slot) : Except Failure Bool × Slot :=
  if validExpire now seconds then
    match slot with
    | none => (.ok false, none)
    | some e =>
      if 0 < seconds then (.ok true, some { e with deadline := some (now + (1000 * seconds).toNat) })
      else (.ok true, none)
  else (.error .invalidExpire, slot)

/-- Whole seconds, rounded to the nearest. -/
def ttl (now : Nat) (slot : Slot) : Except Failure Int × Slot :=
  match slot with
  | none => (.ok (-2), slot)
  | some ⟨_, none⟩ => (.ok (-1), slot)
  | some ⟨_, some d⟩ => (.ok ((d - now + 500) / 1000 : Nat), slot)

/-- The number a counter command starts from. -/
def current : Slot → Except Failure Int
  | none => .ok 0
  | some ⟨.string s, _⟩ =>
    match integerOf s with
    | none => .error .notInteger
    | some n => .ok n
  | some _ => .error .wrongType

def deadlineOf (slot : Slot) : Option Nat := slot.bind Entry.deadline

def incrby (n : Int) (slot : Slot) : Except Failure Int × Slot :=
  if int64 n then
    match current slot with
    | .error e => (.error e, slot)
    | .ok c =>
      if int64 (c + n) then (.ok (c + n), some ⟨.string (intText (c + n)), deadlineOf slot⟩)
      else (.error .outOfRange, slot)
  else (.error .notInteger, slot)

def decrby (n : Int) (slot : Slot) : Except Failure Int × Slot :=
  if int64 n && decide (n ≠ -(2 ^ 63)) then incrby (-n) slot else (.error .notInteger, slot)

/-! ## Lists -/

/-- The inclusive range of `LRANGE`; a negative index counts from the tail. -/
def range (l : List Str) (start stop : Int) : List Str :=
  let start := if start < 0 then start + l.length else start
  let stop := if stop < 0 then stop + l.length else stop
  let start := if start < 0 then 0 else start
  if stop < start ∨ (l.length : Int) ≤ start then []
  else
    let stop := if (l.length : Int) ≤ stop then (l.length : Int) - 1 else stop
    (l.take (stop + 1).toNat).drop start.toNat

def listOf : Slot → Except Failure (List Str)
  | none => .ok []
  | some ⟨.list l, _⟩ => .ok l
  | some _ => .error .wrongType

def push (values : List Str) (put : List Str → List Str) (slot : Slot) : Except Failure Int × Slot :=
  if values.isEmpty then (.error .wrongArity, slot)
  else
    match listOf slot with
    | .error e => (.error e, slot)
    | .ok l => (.ok (put l).length, some ⟨.list (put l), deadlineOf slot⟩)

def lpush (values : List Str) : Slot → Except Failure Int × Slot :=
  push values fun l => values.foldl (fun l v => v :: l) l

def rpush (values : List Str) : Slot → Except Failure Int × Slot := push values fun l => l ++ values

def lrange (start stop : Int) (slot : Slot) : Except Failure (List Str) × Slot :=
  if int64 start && int64 stop then ((listOf slot).map fun l => range l start stop, slot)
  else (.error .notInteger, slot)

def llen (slot : Slot) : Except Failure Int × Slot := ((listOf slot).map fun l => (l.length : Int), slot)

/-! ## Hashes -/

def hashOf : Slot → Except Failure (Str → Option Str)
  | none => .ok fun _ => none
  | some ⟨.hash h, _⟩ => .ok h
  | some _ => .error .wrongType

/-- The reply counts the fields that are new. -/
def hset (field v : Str) (slot : Slot) : Except Failure Int × Slot :=
  match hashOf slot with
  | .error e => (.error e, slot)
  | .ok h => (.ok (if (h field).isSome then 0 else 1),
      some ⟨.hash (Function.update h field (some v)), deadlineOf slot⟩)

def hget (field : Str) (slot : Slot) : Except Failure (Option Str) × Slot :=
  ((hashOf slot).map fun h => h field, slot)

def hgetall (slot : Slot) : Except Failure (Str → Option Str) × Slot := (hashOf slot, slot)

/-! ## The server -/

namespace Server
variable {K : Type} [DecidableEq K]

/-- A command on one key. -/
def onKey {R : Type} (s : Server K Data) (k : K) (command : Slot → R × Slot) : R × Server K Data :=
  ((command (s.lookup k)).1, { s with store := Function.update s.store k (command (s.lookup k)).2 })

end Server

section OneKey
variable {K R : Type} [DecidableEq K] (s : Server K Data) {k : K} {command : Slot → R × Slot}

theorem lookup_onKey_of_ne {k' : K} (h : k' ≠ k) : (s.onKey k command).2.lookup k' = s.lookup k' := by
  rw [Server.lookup, Server.lookup]
  have hstore : (s.onKey k command).2.store k' = s.store k' := Function.update_of_ne h _ _
  rw [hstore]
  rfl

/-- The key reads as the command left it, if that is not expired. -/
theorem lookup_onKey_self {slot : Slot} (h : (command (s.lookup k)).2 = slot)
    (hlive : ∀ e, slot = some e → e.live s.now = true) : (s.onKey k command).2.lookup k = slot := by
  have hstore : (s.onKey k command).2.store k = slot := by
    rw [← h]
    exact Function.update_self _ _ _
  rw [Server.lookup, hstore]
  cases slot with
  | none => rfl
  | some e =>
    rw [Option.filter_eq_some_iff]
    exact ⟨rfl, hlive e rfl⟩

/-- A command that leaves its key as it found it changes nothing that is read. -/
theorem lookup_onKey_same (h : (command (s.lookup k)).2 = s.lookup k) (k' : K) :
    (s.onKey k command).2.lookup k' = s.lookup k' := by
  by_cases hk : k' = k
  · subst hk
    exact lookup_onKey_self s h fun e he => Server.lookup_live he
  · exact lookup_onKey_of_ne s hk

end OneKey

/-! ## Commands on the keys of one domain -/

section Domain
variable {K R Q : Type} [DecidableEq K] {D : K → Prop} {s t : Server K Data} {k : K}

/-- The clock of both is the same, and no command on a key of the domain tells them apart. -/
def AgreeOn (D : K → Prop) (s t : Server K Data) : Prop := s.now = t.now ∧ ∀ k, D k → Server.Same k s t

omit [DecidableEq K] in
theorem AgreeOn.refl (s : Server K Data) : AgreeOn D s s := ⟨rfl, fun k _ => .refl k s⟩

omit [DecidableEq K] in
theorem AgreeOn.trans {r : Server K Data} (h : AgreeOn D s t) (h' : AgreeOn D t r) : AgreeOn D s r :=
  ⟨h.1.trans h'.1, fun k hk => (h.2 k hk).trans (h'.2 k hk)⟩

omit [DecidableEq K] in
theorem AgreeOn.lookup (h : AgreeOn D s t) (hk : D k) : s.lookup k = t.lookup k := (h.2 k hk).2

/-- Commands that look at keys of the domain and write no other. -/
structure OnKeys (D : K → Prop) (op : Server K Data → R × Server K Data) : Prop where
  frame : ∀ {s k}, ¬ D k → Server.Same k (op s).2 s
  clock : ∀ s, (op s).2.now = s.now
  reply : ∀ {s t}, AgreeOn D s t → (op s).1 = (op t).1
  effect : ∀ {s t}, AgreeOn D s t → AgreeOn D (op s).2 (op t).2

namespace OnKeys

omit [DecidableEq K] in
theorem pure (answer : R) : OnKeys D fun s : Server K Data => (answer, s) where
  frame _ := .refl _ _
  clock _ := rfl
  reply _ := rfl
  effect h := h

theorem onKey (hk : D k) (command : Slot → R × Slot) : OnKeys D fun s : Server K Data => s.onKey k command where
  frame hother := ⟨rfl, lookup_onKey_of_ne _ fun he => hother (he ▸ hk)⟩
  clock _ := rfl
  reply h := congrArg (fun slot => (command slot).1) (h.2 k hk).2
  effect {s t} h := by
    refine ⟨h.1, fun k' hk' => ⟨h.1, ?_⟩⟩
    by_cases he : k' = k
    · subst he
      simp only [Server.lookup, Server.onKey, Function.update_self]
      rw [← Server.lookup, ← Server.lookup, (h.2 k' hk).2, h.1]
    · rw [lookup_onKey_of_ne s he, lookup_onKey_of_ne t he]
      exact (h.2 k' hk').2

omit [DecidableEq K] in
theorem map {op : Server K Data → R × Server K Data} (h : OnKeys D op) (f : R → Q) :
    OnKeys D fun s => (f (op s).1, (op s).2) where
  frame := h.frame
  clock := h.clock
  reply hst := congrArg f (h.reply hst)
  effect := h.effect

omit [DecidableEq K] in
theorem bind {op : Server K Data → R × Server K Data} {next : R → Server K Data → Q × Server K Data}
    (h : OnKeys D op) (hnext : ∀ r, OnKeys D (next r)) : OnKeys D fun s => next (op s).1 (op s).2 where
  frame hk := ((hnext _).frame hk).trans (h.frame hk)
  clock s := ((hnext _).clock _).trans (h.clock s)
  reply hst := by
    rw [h.reply hst]
    exact (hnext _).reply (h.effect hst)
  effect hst := by
    rw [h.reply hst]
    exact (hnext _).effect (h.effect hst)

omit [DecidableEq K] in
/-- A command may depend on the time and on what it finds. -/
theorem read {A : Type} {look : Server K Data → A} {op : A → Server K Data → R × Server K Data}
    (hlook : ∀ {s t}, AgreeOn D s t → look s = look t) (h : ∀ a, OnKeys D (op a)) :
    OnKeys D fun s => op (look s) s where
  frame := (h _).frame
  clock _ := (h _).clock _
  reply hst := by
    rw [hlook hst]
    exact (h _).reply hst
  effect hst := by
    rw [hlook hst]
    exact (h _).effect hst

omit [DecidableEq K] in
/-- A domain may be widened. -/
theorem mono {D' : K → Prop} {op : Server K Data → R × Server K Data} (h : OnKeys D op) (hD : ∀ k, D k → D' k) :
    OnKeys D' op where
  frame hk := h.frame fun hd => hk (hD _ hd)
  clock := h.clock
  reply hst := h.reply ⟨hst.1, fun k hk => hst.2 k (hD k hk)⟩
  effect {s t} hst := by
    have hinner := h.effect (s := s) (t := t) ⟨hst.1, fun k hk => hst.2 k (hD k hk)⟩
    refine ⟨hinner.1, fun k hk => ?_⟩
    by_cases hd : D k
    · exact hinner.2 k hd
    · exact (h.frame hd).trans ((hst.2 k hk).trans (h.frame hd).symm)

end OnKeys

end Domain

end Support.Redis
