import Mathlib.Algebra.Group.Int.Defs
import Mathlib.Data.Option.Basic
import Mathlib.Logic.Function.Basic

/-!
# A key-value server with deadlines

The part of Redis its integer counters rest on. A key may carry a deadline; a
key whose deadline is reached is gone for every command, whether or not the
server has already swept it. `SET` drops a deadline, `INCRBY` and `DECRBY` keep
it and refuse results outside the signed 64-bit range.
-/

namespace Support.Redis

set_option autoImplicit false

universe u v
variable {K : Type u} {V : Type v}

structure Entry (V : Type v) where
  value : V
  deadline : Option Nat
  deriving DecidableEq, Repr

def Entry.live (e : Entry V) (now : Nat) : Bool :=
  match e.deadline with
  | none => true
  | some d => decide (now < d)

structure Server (K : Type u) (V : Type v) where
  now : Nat
  store : K → Option (Entry V)

namespace Server

def empty (now : Nat) : Server K V := ⟨now, fun _ => none⟩

/-- What a command finds under a key. -/
def lookup (s : Server K V) (k : K) : Option (Entry V) :=
  (s.store k).filter fun e => e.live s.now

def get (s : Server K V) (k : K) : Option V := (s.lookup k).map Entry.value

/-- Time passes between two commands. -/
def advance (s : Server K V) (d : Nat) : Server K V := { s with now := s.now + d }

@[simp] theorem advance_now (s : Server K V) (d : Nat) : (s.advance d).now = s.now + d := rfl

@[simp] theorem advance_store (s : Server K V) (d : Nat) : (s.advance d).store = s.store := rfl

theorem lookup_live {s : Server K V} {k : K} {e : Entry V} (h : s.lookup k = some e) :
    e.live s.now = true := by
  simp only [lookup, Option.filter_eq_some_iff] at h
  exact h.2

/-- An entry found later was already there, unless a command wrote it. -/
theorem lookup_of_lookup_advance {s : Server K V} {k : K} {e : Entry V} {d : Nat}
    (h : (s.advance d).lookup k = some e) : s.lookup k = some e := by
  simp only [lookup, Option.filter_eq_some_iff, advance_store, advance_now] at h ⊢
  refine ⟨h.1, ?_⟩
  cases hd : e.deadline with
  | none => simp [Entry.live, hd]
  | some t =>
    have := h.2
    simp only [Entry.live, hd, decide_eq_true_eq] at this ⊢
    omega

theorem lookup_advance {s : Server K V} {k : K} {e : Entry V} {d : Nat}
    (h : s.lookup k = some e) (hlive : ∀ t, e.deadline = some t → s.now + d < t) :
    (s.advance d).lookup k = some e := by
  simp only [lookup, Option.filter_eq_some_iff, advance_store, advance_now] at h ⊢
  refine ⟨h.1, ?_⟩
  cases hd : e.deadline with
  | none => simp [Entry.live, hd]
  | some t => simpa [Entry.live, hd] using hlive t hd

section Writes
variable [DecidableEq K]

def put (s : Server K V) (k : K) (e : Entry V) : Server K V :=
  { s with store := Function.update s.store k (some e) }

def set (s : Server K V) (k : K) (v : V) : Server K V := s.put k ⟨v, none⟩

def expire (s : Server K V) (k : K) (ttl : Nat) : Server K V :=
  match s.lookup k with
  | none => s
  | some e => s.put k { e with deadline := some (s.now + ttl) }

@[simp] theorem put_now (s : Server K V) (k : K) (e : Entry V) : (s.put k e).now = s.now := rfl

@[simp] theorem expire_now (s : Server K V) (k : K) (ttl : Nat) :
    (s.expire k ttl).now = s.now := by
  unfold expire
  split <;> rfl

theorem lookup_put_self (s : Server K V) (k : K) (e : Entry V) (h : e.live s.now = true) :
    (s.put k e).lookup k = some e := by
  simp [lookup, put, h]

theorem lookup_put_of_ne (s : Server K V) {k k' : K} (e : Entry V) (h : k' ≠ k) :
    (s.put k e).lookup k' = s.lookup k' := by
  simp [lookup, put, Function.update_of_ne h]

theorem put_put (s : Server K V) (k : K) (e e' : Entry V) : (s.put k e).put k e' = s.put k e' := by
  simp [put]

theorem expire_put {s : Server K V} {k : K} {e : Entry V} (ttl : Nat) (h : e.live s.now = true) :
    (s.put k e).expire k ttl = s.put k { e with deadline := some (s.now + ttl) } := by
  simp only [expire, lookup_put_self s k e h, put_put, put_now]

end Writes

end Server

/-! ## Integer counters -/

/-- The range of a Redis integer. -/
def int64 (n : Int) : Bool := decide (-(2 ^ 63) ≤ n ∧ n < 2 ^ 63)

namespace Server
variable (s : Server K Int) (k : K)

/-- A missing counter counts as zero. -/
def counter : Int := (s.get k).getD 0

def deadline : Option Nat := (s.lookup k).bind Entry.deadline

variable {s k}

theorem counter_of_lookup {e : Entry Int} (h : s.lookup k = some e) : s.counter k = e.value := by
  simp [counter, get, h]

theorem counter_of_lookup_none (h : s.lookup k = none) : s.counter k = 0 := by
  simp [counter, get, h]

theorem deadline_live {t : Nat} (h : s.deadline k = some t) : s.now < t := by
  unfold deadline at h
  cases hl : s.lookup k with
  | none => simp [hl] at h
  | some e =>
    have he : e.deadline = some t := by simpa [hl] using h
    have := lookup_live hl
    simpa [Entry.live, he] using this

theorem live_deadline (v : Int) : Entry.live ⟨v, s.deadline k⟩ s.now = true := by
  cases hd : s.deadline k with
  | none => rfl
  | some t => simpa [Entry.live] using deadline_live hd

section Writes
variable [DecidableEq K]

theorem counter_put_self {e : Entry Int} (h : e.live s.now = true) :
    (s.put k e).counter k = e.value :=
  counter_of_lookup (lookup_put_self s k e h)

theorem deadline_put_self {e : Entry Int} (h : e.live s.now = true) :
    (s.put k e).deadline k = e.deadline := by
  simp [deadline, lookup_put_self s k e h]

variable (s k) in
/-- `INCRBY`; `none` is the error reply, which changes nothing. -/
def incrBy (n : Int) : Option (Server K Int × Int) :=
  if int64 n && int64 (s.counter k + n) then
    some (s.put k ⟨s.counter k + n, s.deadline k⟩, s.counter k + n)
  else none

variable (s k) in
def decrBy (n : Int) : Option (Server K Int × Int) :=
  if int64 n && decide (n ≠ -(2 ^ 63)) then s.incrBy k (-n) else none

omit [DecidableEq K] in
/-- A counter without a deadline stays as it is while time passes. -/
theorem advance_of_deadline_none (h : s.deadline k = none) (d : Nat) :
    (s.advance d).counter k = s.counter k ∧ (s.advance d).deadline k = none := by
  cases hl : s.lookup k with
  | none =>
    have hl' : (s.advance d).lookup k = none := by
      cases hadv : (s.advance d).lookup k with
      | none => rfl
      | some e => exact absurd (lookup_of_lookup_advance hadv) (by simp [hl])
    simp [counter, deadline, get, hl, hl']
  | some e =>
    have he : e.deadline = none := by simpa [deadline, hl] using h
    have hl' : (s.advance d).lookup k = some e := lookup_advance hl (by simp [he])
    simp [counter, deadline, get, hl, hl', he]

theorem incrBy_of_fits {n : Int} (hn : int64 n = true) (hv : int64 (s.counter k + n) = true) :
    s.incrBy k n = some (s.put k ⟨s.counter k + n, s.deadline k⟩, s.counter k + n) := by
  simp [incrBy, hn, hv]

theorem decrBy_of_fits {n : Int} (hn : int64 n = true) (h0 : 0 ≤ n)
    (hv : int64 (s.counter k - n) = true) :
    s.decrBy k n = some (s.put k ⟨s.counter k - n, s.deadline k⟩, s.counter k - n) := by
  have hrange : -(2 ^ 63) ≤ n ∧ n < 2 ^ 63 := by simpa only [int64, decide_eq_true_eq] using hn
  have hneg : int64 (-n) = true := by
    simp only [int64, decide_eq_true_eq]
    omega
  have hne : n ≠ -(2 ^ 63) := by omega
  rw [Int.sub_eq_add_neg] at hv ⊢
  simp only [decrBy, hn, hne, ne_eq, not_false_eq_true, decide_true, Bool.and_self, if_true]
  exact incrBy_of_fits hneg hv

end Writes

end Server

/-! ## Commands on one key -/

namespace Server
variable {K : Type u} {V : Type v} {k : K} {s t r : Server K V}

/-- Neither now nor later does a command on the key tell the two states apart. -/
def Same (k : K) (s t : Server K V) : Prop := s.now = t.now ∧ s.lookup k = t.lookup k

theorem Same.refl (k : K) (s : Server K V) : Same k s s := ⟨rfl, rfl⟩

theorem Same.symm (h : Same k s t) : Same k t s := ⟨h.1.symm, h.2.symm⟩

theorem Same.trans (h : Same k s t) (h' : Same k t r) : Same k s r := ⟨h.1.trans h'.1, h.2.trans h'.2⟩

theorem live_of_live_add {e : Entry V} {now d : Nat} (h : e.live (now + d) = true) : e.live now = true := by
  unfold Entry.live at h ⊢
  split at h
  · rfl
  · rename_i deadline _
    have hlt : now + d < deadline := of_decide_eq_true h
    exact decide_eq_true (by omega)

/-- What is found later is what was found before, if it is still live. -/
theorem lookup_advance_eq (s : Server K V) (k : K) (d : Nat) :
    (s.advance d).lookup k = (s.lookup k).filter fun e => e.live (s.now + d) := by
  rw [lookup, lookup, Option.filter_filter, advance_store, advance_now]
  refine congrArg (fun p => (s.store k).filter p) (funext fun e => ?_)
  cases hlive : e.live (s.now + d) with
  | false => exact (Bool.and_false _).symm
  | true => rw [live_of_live_add hlive, Bool.and_true]

theorem Same.advance (h : Same k s t) (d : Nat) : Same k (s.advance d) (t.advance d) := by
  refine ⟨congrArg (· + d) h.1, ?_⟩
  rw [s.lookup_advance_eq, t.lookup_advance_eq, h.1, h.2]

theorem Same.get (h : Same k s t) : s.get k = t.get k := congrArg (Option.map Entry.value) h.2

theorem Same.counter {s t : Server K Int} (h : Same k s t) : s.counter k = t.counter k :=
  congrArg (fun v : Option Int => v.getD 0) h.get

theorem Same.deadline {s t : Server K Int} (h : Same k s t) : s.deadline k = t.deadline k :=
  congrArg (fun e : Option (Entry Int) => e.bind Entry.deadline) h.2

/-- Both fail, or both succeed with one answer and cannot be told apart at the key afterwards. -/
def SameOutcome {R : Type} (k : K) : Option (Server K V × R) → Option (Server K V × R) → Prop :=
  Option.Rel fun p q => Same k p.1 q.1 ∧ p.2 = q.2

/-- A command that looks at one key and writes no other. -/
structure OnKey {R : Type} (k : K) (op : Server K V → Option (Server K V × R)) : Prop where
  frame : ∀ {s s' answer other}, op s = some (s', answer) → other ≠ k → Same other s' s
  same : ∀ {s t}, Same k s t → SameOutcome k (op s) (op t)

namespace OnKey
variable {R Q : Type}

theorem pure (k : K) (answer : R) : OnKey k fun s : Server K V => some (s, answer) where
  frame h _ := by
    cases h
    exact .refl _ _
  same h := .some ⟨h, rfl⟩

theorem bind {op : Server K V → Option (Server K V × R)} {next : R → Server K V → Option (Server K V × Q)}
    (hop : OnKey k op) (hnext : ∀ answer, OnKey k (next answer)) :
    OnKey k fun s => (op s).bind fun p => next p.2 p.1 where
  frame h hne := by
    obtain ⟨p, hp, hq⟩ := Option.bind_eq_some_iff.mp h
    exact ((hnext p.2).frame hq hne).trans (hop.frame hp hne)
  same {s t} h := by
    have hrel := hop.same h
    cases hs : op s with
    | none =>
      cases ht : op t with
      | none => exact .none
      | some q =>
        rw [hs, ht] at hrel
        cases hrel
    | some p =>
      cases ht : op t with
      | none =>
        rw [hs, ht] at hrel
        cases hrel
      | some q =>
        rw [hs, ht] at hrel
        cases hrel with
        | some hpq =>
          change SameOutcome k (next p.2 p.1) (next q.2 q.1)
          rw [hpq.2]
          exact (hnext q.2).same hpq.1

/-- A command may depend on the counter it finds. -/
theorem read {k : K} {op : Int → Server K Int → Option (Server K Int × R)} (h : ∀ current, OnKey k (op current)) :
    OnKey k fun s => op (s.counter k) s where
  frame hs hne := (h _).frame hs hne
  same hst := by
    rw [hst.counter]
    exact (h _).same hst

end OnKey

section Writes
variable [DecidableEq K]

theorem same_put_of_ne (s : Server K V) {other : K} (h : other ≠ k) (e : Entry V) : Same other (s.put k e) s :=
  ⟨rfl, s.lookup_put_of_ne e h⟩

theorem Same.put (h : Same k s t) (e : Entry V) : Same k (s.put k e) (t.put k e) := by
  refine ⟨h.1, ?_⟩
  simp only [lookup, Server.put, Function.update_self]
  rw [h.1]

theorem onKey_put (k : K) (e : Entry V) : OnKey k fun s : Server K V => some (s.put k e, ()) where
  frame h hne := by
    cases h
    exact same_put_of_ne _ hne e
  same h := .some ⟨h.put e, rfl⟩

theorem onKey_expire (k : K) (ttl : Nat) : OnKey k fun s : Server K V => some (s.expire k ttl, ()) where
  frame {s _ _ _} h hne := by
    cases h
    cases hfound : s.lookup k with
    | none =>
      simp only [expire, hfound]
      exact .refl _ _
    | some e =>
      simp only [expire, hfound]
      exact same_put_of_ne _ hne _
  same {s t} h := by
    refine .some ⟨?_, rfl⟩
    cases hfound : t.lookup k with
    | none =>
      simp only [expire, h.2.trans hfound, hfound]
      exact h
    | some e =>
      simp only [expire, h.2.trans hfound, hfound, h.1]
      exact h.put _

theorem onKey_incrBy (k : K) (n : Int) : OnKey k fun s : Server K Int => s.incrBy k n where
  frame h hne := by
    unfold incrBy at h
    split at h
    · cases h
      exact same_put_of_ne _ hne _
    · cases h
  same h := by
    unfold incrBy
    rw [h.counter, h.deadline]
    split
    · exact .some ⟨h.put _, rfl⟩
    · exact .none

theorem onKey_decrBy (k : K) (n : Int) : OnKey k fun s : Server K Int => s.decrBy k n where
  frame h hne := by
    unfold decrBy at h
    split at h
    · exact (onKey_incrBy k (-n)).frame h hne
    · cases h
  same h := by
    unfold decrBy
    split
    · exact (onKey_incrBy k (-n)).same h
    · exact .none

end Writes

end Server

end Support.Redis
