import IsaCloud.Support.Runs
import Mathlib.Logic.Function.Basic
import Mathlib.Tactic.Common

/-!
# Reconnecting to NATS

`_ensure_connected`, `_recover_connection` and `close` of `AsyncNATSClient`, which
switch at every await. The first two look at the connection again once they have the
lock, so that the operations which fail together open one new connection together.
`close` takes no lock.
-/

namespace IsaCloud.Nats

set_option autoImplicit false

open Support

inductive ConnectionStatus where
  | up
  /-- nats-py tries to reconnect. -/
  | down
  | closed
  deriving DecidableEq

inductive Operation where
  /-- `publish` and `request`, which recover from a connection error and try once more. -/
  | publish
  | plain
  deriving DecidableEq

inductive Purpose where
  /-- `_ensure_connected`, before the first attempt. -/
  | ensure (op : Operation)
  /-- `_recover_connection`, before the second. -/
  | recover
  deriving DecidableEq

inductive NatsCall where
  | absent
  /-- Waits for the lock. -/
  | waiting (p : Purpose)
  /-- In `_disconnect`, drains and closes; holds the lock. -/
  | disconnecting (p : Purpose)
  /-- In `_connect`; holds the lock. -/
  | connecting (p : Purpose)
  | sending (op : Operation) (retry : Bool) (connection : Nat)
  /-- In the `_disconnect` of `close`. -/
  | closing
  | returned (success : Bool)
  deriving DecidableEq

inductive SendOutcome where
  | sent
  | connectionError
  | otherError
  deriving DecidableEq

/-- Connections are numbered in the order in which they are opened; `dropped` accounts for those that went
down, and `shut` for those that a `close` closed. -/
structure NatsState where
  nc : Option Nat
  status : List ConnectionStatus
  connected : Bool
  lock : Option Nat
  reconnectCount : Nat
  consecutiveErrors : Nat
  next : Nat
  calls : Nat → NatsCall
  dropped : List Nat
  shut : List Nat

inductive NatsEvent where
  | operation (op : Operation)
  | close
  /-- The lock is free and goes to this call. -/
  | acquire (i : Nat)
  /-- A `_disconnect` has closed the connection. -/
  | disconnected (i : Nat)
  | connected (i : Nat) (success : Bool)
  | attempted (i : Nat) (outcome : SendOutcome)
  | drop (connection : Nat)
  | restore (connection : Nat)

namespace NatsState

def start : NatsState := ⟨none, [], false, none, 0, 0, 0, fun _ => .absent, [], []⟩

def put (s : NatsState) (i : Nat) (c : NatsCall) : NatsState := { s with calls := Function.update s.calls i c }

/-- `_connection_healthy`. -/
def healthy (s : NatsState) : Bool :=
  match s.nc with
  | some c => decide (s.status[c]? = some .up)
  | none => false

/-- What follows the two functions; without a connection it raises. -/
def attempt (s : NatsState) (i : Nat) (p : Purpose) : NatsState :=
  match s.nc with
  | none => s.put i (.returned false)
  | some c =>
    match p with
    | .ensure op => s.put i (.sending op false c)
    | .recover => s.put i (.sending .publish true c)

def operation (s : NatsState) (op : Operation) : NatsState :=
  let s' := { s with next := s.next + 1 }
  if s.healthy then s'.attempt s.next (.ensure op) else s'.put s.next (.waiting (.ensure op))

def close (s : NatsState) : NatsState :=
  let s' := { s with next := s.next + 1 }
  match s.nc with
  | some _ => s'.put s.next .closing
  | none => { s' with connected := false }.put s.next (.returned true)

/-- Only a recovery resets the count of errors. -/
def settle (s : NatsState) : Purpose → NatsState
  | .ensure _ => s
  | .recover => { s with consecutiveErrors := 0 }

def acquire (s : NatsState) (i : Nat) : NatsState :=
  match s.lock, s.calls i with
  | none, .waiting p =>
    if s.healthy then (s.settle p).attempt i p
    else
      match s.nc with
      | some _ => { s with lock := some i }.put i (.disconnecting p)
      | none => { s with lock := some i, connected := false }.put i (.connecting p)
  | _, _ => s

def closeConnection (s : NatsState) (c : Nat) : NatsState :=
  { s with nc := none, connected := false, status := s.status.set c .closed }

def disconnected (s : NatsState) (i : Nat) : NatsState :=
  match s.calls i with
  | .disconnecting p =>
    match s.nc with
    | some c => (s.closeConnection c).put i (.connecting p)
    | none => { s with connected := false }.put i (.connecting p)
  | .closing =>
    match s.nc with
    | some c => { s.closeConnection c with shut := s.shut ++ [c] }.put i (.returned true)
    | none => { s with connected := false }.put i (.returned true)
  | _ => s

def opened (s : NatsState) : NatsState :=
  { s with nc := some s.status.length, connected := true, lock := none, status := s.status ++ [.up] }

/-- Counts a reconnect of `_recover_connection`. -/
def counted (s : NatsState) : Purpose → NatsState
  | .ensure _ => s
  | .recover => { s with reconnectCount := s.reconnectCount + 1, consecutiveErrors := 0 }

def connectReturned (s : NatsState) (i : Nat) (success : Bool) : NatsState :=
  match s.calls i with
  | .connecting p =>
    if success then (s.opened.counted p).attempt i p else { s with lock := none }.put i (.returned false)
  | _ => s

def attempted (s : NatsState) (i : Nat) (outcome : SendOutcome) : NatsState :=
  match s.calls i with
  | .sending op retry _ =>
    match outcome with
    | .sent => s.put i (.returned true)
    | .connectionError =>
      if op = .publish ∧ retry = false then
        { s with consecutiveErrors := s.consecutiveErrors + 1 }.put i (.waiting .recover)
      else s.put i (.returned false)
    | .otherError => s.put i (.returned false)
  | _ => s

/-- `_on_disconnected`. -/
def drop (s : NatsState) (c : Nat) : NatsState :=
  if s.status[c]? = some .up then
    { s with
      status := s.status.set c .down
      consecutiveErrors := if s.connected then s.consecutiveErrors + 1 else s.consecutiveErrors
      connected := false
      dropped := s.dropped ++ [c] }
  else s

/-- `_on_reconnected`. -/
def restore (s : NatsState) (c : Nat) : NatsState :=
  if s.status[c]? = some .down then
    { s with
      status := s.status.set c .up
      connected := true
      reconnectCount := s.reconnectCount + 1
      consecutiveErrors := 0 }
  else s

def step (s : NatsState) : NatsEvent → NatsState
  | .operation op => s.operation op
  | .close => s.close
  | .acquire i => s.acquire i
  | .disconnected i => s.disconnected i
  | .connected i success => s.connectReturned i success
  | .attempted i outcome => s.attempted i outcome
  | .drop c => s.drop c
  | .restore c => s.restore c

end NatsState

def NatsCall.Locked : NatsCall → Prop
  | .disconnecting _ => True
  | .connecting _ => True
  | _ => False

namespace NatsState

/-- No connection is open but the stored one, and only one that went down or was closed on purpose is ever
replaced. At most one call connects or disconnects, the one that has the lock. -/
structure Tidy (s : NatsState) : Prop where
  single : ∀ c st, s.status[c]? = some st → st ≠ .closed → s.nc = some c
  replaced : ∀ c, c < s.status.length → s.nc = some c ∨ c ∈ s.dropped ∨ c ∈ s.shut
  exclusive : ∀ i, (s.calls i).Locked → s.lock = some i

/-- `close` is called while nobody has the lock, and nobody gets it before `close` returns. -/
def Apart (s : NatsState) : NatsEvent → Prop
  | .close => s.lock = none
  | .acquire _ => ∀ j, s.calls j ≠ .closing
  | _ => True

/-! ## The connections -/

/-- What there is to the stored connection, whoever calls. -/
structure Connections (nc : Option Nat) (status : List ConnectionStatus) (dropped shut : List Nat) : Prop where
  single : ∀ (c : Nat) st, status[c]? = some st → st ≠ .closed → nc = some c
  replaced : ∀ c, c < status.length → nc = some c ∨ c ∈ dropped ∨ c ∈ shut
  stored : ∀ c, nc = some c → ∃ st, status[c]? = some st ∧ st ≠ .closed
  down : ∀ c : Nat, status[c]? = some .down → c ∈ dropped

namespace Connections
variable {nc : Option Nat} {status : List ConnectionStatus} {dropped shut : List Nat}

theorem none_opened : Connections none [] [] [] := by
  refine ⟨?_, ?_, ?_, ?_⟩
  · intro c st h
    cases h
  · intro c h
    cases h
  · intro c h
    cases h
  · intro c h
    cases h

theorem lt (h : Connections nc status dropped shut) {c : Nat} (hc : nc = some c) : c < status.length := by
  obtain ⟨st, hst, -⟩ := h.stored c hc
  exact (List.getElem?_eq_some_iff.mp hst).1

theorem open_new (h : Connections none status dropped shut) :
    Connections (some status.length) (status ++ [.up]) dropped shut := by
  refine ⟨?_, ?_, ?_, ?_⟩
  · intro c st hc hst
    rcases Nat.lt_or_ge c status.length with hlt | hge
    · rw [List.getElem?_append_left hlt] at hc
      cases h.single c st hc hst
    · have hbound := (List.getElem?_eq_some_iff.mp hc).1
      rw [List.length_append, List.length_singleton] at hbound
      rw [Nat.le_antisymm hge (Nat.le_of_lt_succ hbound)]
  · intro c hc
    rw [List.length_append, List.length_singleton] at hc
    rcases Nat.lt_succ_iff_lt_or_eq.mp hc with hlt | hlast
    · refine Or.inr ((h.replaced c hlt).resolve_left ?_)
      intro hsome
      cases hsome
    · exact Or.inl (congrArg some hlast.symm)
  · intro c hc
    cases hc
    exact ⟨.up, List.getElem?_concat_length, fun hup => by cases hup⟩
  · intro c hc
    rcases Nat.lt_or_ge c status.length with hlt | hge
    · rw [List.getElem?_append_left hlt] at hc
      exact h.down c hc
    · rw [List.getElem?_append_right hge] at hc
      cases List.mem_singleton.mp (List.mem_of_getElem? hc)

/-- The stored connection is closed, for a reason. -/
theorem close {c : Nat} {shut' : List Nat} (h : Connections (some c) status dropped shut) (hsub : shut ⊆ shut')
    (hc : c ∈ dropped ∨ c ∈ shut') : Connections none (status.set c .closed) dropped shut' := by
  have hother : ∀ (d : Nat) st, (status.set c ConnectionStatus.closed)[d]? = some st → st ≠ .closed →
      d ≠ c ∧ status[d]? = some st := by
    intro d st hd hst
    by_cases hdc : d = c
    · rw [hdc, List.getElem?_set_self (h.lt rfl)] at hd
      exact absurd (Option.some.inj hd).symm hst
    · exact ⟨hdc, (List.getElem?_set_ne (Ne.symm hdc)).symm.trans hd⟩
  refine ⟨?_, ?_, ?_, ?_⟩
  · intro d st hd hst
    obtain ⟨hdc, hget⟩ := hother d st hd hst
    exact absurd (Option.some.inj (h.single d st hget hst)).symm hdc
  · intro d hd
    rw [List.length_set] at hd
    rcases h.replaced d hd with hstored | hdropped | hshut
    · exact Or.inr (Option.some.inj hstored ▸ hc)
    · exact Or.inr (Or.inl hdropped)
    · exact Or.inr (Or.inr (hsub hshut))
  · intro d hd
    cases hd
  · intro d hd
    exact h.down d (hother d .down hd fun hc => by cases hc).2

/-- A connection that is not closed goes up or down. -/
theorem setStatus (h : Connections nc status dropped shut) {c : Nat} {st st' : ConnectionStatus}
    (hc : status[c]? = some st) (hst : st ≠ .closed) (hst' : st' ≠ .closed) {dropped' : List Nat}
    (hsub : dropped ⊆ dropped') (hdown : st' = .down → c ∈ dropped') :
    Connections nc (status.set c st') dropped' shut := by
  have hself : (status.set c st')[c]? = some st' := List.getElem?_set_self (List.getElem?_eq_some_iff.mp hc).1
  have hget : ∀ d, d ≠ c → (status.set c st')[d]? = status[d]? := fun d hd => List.getElem?_set_ne hd.symm
  refine ⟨?_, ?_, ?_, ?_⟩
  · intro d x hd hx
    by_cases hdc : d = c
    · rw [hdc]
      exact h.single c st hc hst
    · exact h.single d x ((hget d hdc).symm.trans hd) hx
  · intro d hd
    rw [List.length_set] at hd
    rcases h.replaced d hd with hstored | hdropped | hshut
    · exact Or.inl hstored
    · exact Or.inr (Or.inl (hsub hdropped))
    · exact Or.inr (Or.inr hshut)
  · intro d hd
    by_cases hdc : d = c
    · rw [hdc]
      exact ⟨st', hself, hst'⟩
    · obtain ⟨x, hx, hne⟩ := h.stored d hd
      exact ⟨x, (hget d hdc).trans hx, hne⟩
  · intro d hd
    by_cases hdc : d = c
    · rw [hdc] at hd ⊢
      exact hdown (Option.some.inj (hself.symm.trans hd))
    · exact hsub (h.down d ((hget d hdc).symm.trans hd))

end Connections

/-! ## The lock -/

/-- Who has the lock, and what its holder knows of the stored connection. -/
structure Locking (lock nc : Option Nat) (dropped : List Nat) (calls : Nat → NatsCall) (next : Nat) : Prop where
  exclusive : ∀ i, (calls i).Locked → lock = some i
  holder : ∀ i, lock = some i → (calls i).Locked
  disconnecting : ∀ i p, calls i = .disconnecting p → ∃ c, nc = some c ∧ c ∈ dropped
  connecting : ∀ i p, calls i = .connecting p → nc = none
  closing : ∀ i, calls i = .closing → lock = none
  /-- Calls are numbered in the order in which they begin. -/
  unborn : ∀ i, next ≤ i → calls i = .absent

namespace Locking
variable {lock nc : Option Nat} {dropped : List Nat} {calls : Nat → NatsCall} {next i : Nat}

theorem born (h : Locking lock nc dropped calls next) {c : NatsCall} (hcall : calls i = c) (hc : c ≠ .absent) :
    i < next := by
  by_contra hge
  exact hc (hcall.symm.trans (h.unborn i (Nat.not_lt.mp hge)))

theorem free (h : Locking none nc dropped calls next) (i : Nat) : ¬ (calls i).Locked := by
  intro hi
  cases h.exclusive i hi

/-- Nobody holds the lock but call `i`. -/
theorem only (h : Locking lock nc dropped calls next) (hi : (calls i).Locked) {j : Nat} (hj : j ≠ i) :
    ¬ (calls j).Locked := by
  intro hlocked
  exact hj (Option.some.inj ((h.exclusive j hlocked).symm.trans (h.exclusive i hi)))

theorem mono (h : Locking lock nc dropped calls next) {dropped' : List Nat} (hsub : dropped ⊆ dropped') :
    Locking lock nc dropped' calls next := by
  refine ⟨h.exclusive, h.holder, ?_, h.connecting, h.closing, h.unborn⟩
  intro i p hi
  obtain ⟨c, hc, hmem⟩ := h.disconnecting i p hi
  exact ⟨c, hc, hsub hmem⟩

theorem begin (h : Locking lock nc dropped calls next) : Locking lock nc dropped calls (next + 1) :=
  ⟨h.exclusive, h.holder, h.disconnecting, h.connecting, h.closing, fun i hi => h.unborn i (Nat.le_of_succ_le hi)⟩

/-- The calls but `i` are as they were, and `i` has begun. -/
theorem update (h : Locking lock nc dropped calls next) (hi : i < next) {lock' nc' : Option Nat} (c : NatsCall)
    (hself : c.Locked ↔ lock' = some i) (hother : ∀ j, j ≠ i → ((calls j).Locked ↔ lock' = some j))
    (hdis : ∀ p, c = .disconnecting p → ∃ d, nc' = some d ∧ d ∈ dropped)
    (hcon : ∀ p, c = .connecting p → nc' = none) (hnc : (∀ j, j ≠ i → ¬ (calls j).Locked) ∨ nc' = nc)
    (hclosing : c = .closing → lock' = none)
    (hclosings : (∀ j, calls j ≠ .closing) ∨ lock' = lock ∨ lock' = none) :
    Locking lock' nc' dropped (Function.update calls i c) next := by
  have hput : Function.update calls i c i = c := Function.update_self ..
  have hget : ∀ j, j ≠ i → Function.update calls i c j = calls j := fun j hj => Function.update_of_ne hj ..
  refine ⟨?_, ?_, ?_, ?_, ?_, ?_⟩
  · intro j hj
    by_cases hji : j = i
    · rw [hji, hput] at hj
      exact hji ▸ hself.mp hj
    · rw [hget j hji] at hj
      exact (hother j hji).mp hj
  · intro j hj
    by_cases hji : j = i
    · rw [hji, hput]
      exact hself.mpr (hji ▸ hj)
    · rw [hget j hji]
      exact (hother j hji).mpr hj
  · intro j p hj
    by_cases hji : j = i
    · rw [hji, hput] at hj
      exact hdis p hj
    · rw [hget j hji] at hj
      rcases hnc with hnone | hsame
      · exact absurd (hj ▸ trivial) (hnone j hji)
      · rw [hsame]
        exact h.disconnecting j p hj
  · intro j p hj
    by_cases hji : j = i
    · rw [hji, hput] at hj
      exact hcon p hj
    · rw [hget j hji] at hj
      rcases hnc with hnone | hsame
      · exact absurd (hj ▸ trivial) (hnone j hji)
      · rw [hsame]
        exact h.connecting j p hj
  · intro j hj
    by_cases hji : j = i
    · rw [hji, hput] at hj
      exact hclosing hj
    · rw [hget j hji] at hj
      rcases hclosings with hnone | hsame | hfree
      · exact absurd hj (hnone j)
      · rw [hsame]
        exact h.closing j hj
      · exact hfree
  · intro j hj
    rw [hget j fun heq => absurd hi (Nat.not_lt.mpr (heq ▸ hj))]
    exact h.unborn j hj

/-- A call that does not need the lock, before or after. -/
theorem put_free (h : Locking lock nc dropped calls next) (hi : i < next) (hfree : ¬ (calls i).Locked) {c : NatsCall}
    (hc : ¬ c.Locked) (hclosing : c = .closing → lock = none) :
    Locking lock nc dropped (Function.update calls i c) next :=
  h.update hi c (iff_of_false hc fun hl => hfree (h.holder i hl)) (fun j _ => ⟨h.exclusive j, h.holder j⟩)
    (fun _ hp => absurd (hp ▸ trivial) hc) (fun _ hp => absurd (hp ▸ trivial) hc) (Or.inr rfl) hclosing
    (Or.inr (Or.inl rfl))

/-- A call takes the lock while no `close` is under way. -/
theorem take (h : Locking none nc dropped calls next) (hi : i < next) (hopen : ∀ j, calls j ≠ .closing)
    {c : NatsCall} (hc : c.Locked) (hdis : ∀ p, c = .disconnecting p → ∃ d, nc = some d ∧ d ∈ dropped)
    (hcon : ∀ p, c = .connecting p → nc = none) :
    Locking (some i) nc dropped (Function.update calls i c) next :=
  h.update hi c (iff_of_true hc rfl)
    (fun j hji => iff_of_false (h.free j) fun heq => hji (Option.some.inj heq).symm) hdis hcon (Or.inr rfl)
    (fun hclosing => by rw [hclosing] at hc; exact hc.elim) (Or.inl hopen)

/-- The holder has disconnected and goes on to connect. -/
theorem advance (h : Locking lock nc dropped calls next) (hi : (calls i).Locked) (p : Purpose) (hborn : i < next) :
    Locking lock none dropped (Function.update calls i (.connecting p)) next :=
  h.update hborn _ (iff_of_true trivial (h.exclusive i hi)) (fun j _ => ⟨h.exclusive j, h.holder j⟩)
    (fun q hq => by cases hq) (fun _ _ => rfl) (Or.inl fun _ hji => h.only hi hji) (fun hc => by cases hc)
    (Or.inr (Or.inl rfl))

/-- The holder lets go of the lock, whatever the stored connection is now. -/
theorem release (h : Locking lock nc dropped calls next) (hi : (calls i).Locked) (hborn : i < next) {c : NatsCall}
    (hc : ¬ c.Locked) (nc' : Option Nat) : Locking none nc' dropped (Function.update calls i c) next :=
  h.update hborn c (iff_of_false hc fun heq => by cases heq)
    (fun j hji => iff_of_false (h.only hi hji) fun heq => by cases heq) (fun _ hp => absurd (hp ▸ trivial) hc)
    (fun _ hp => absurd (hp ▸ trivial) hc) (Or.inl fun _ hji => h.only hi hji) (fun _ => rfl) (Or.inr (Or.inr rfl))

end Locking

/-! ## The invariant -/

structure Inv (s : NatsState) : Prop where
  connections : Connections s.nc s.status s.dropped s.shut
  locking : Locking s.lock s.nc s.dropped s.calls s.next

theorem inv_start : Inv start := by
  refine ⟨.none_opened, ?_, ?_, ?_, ?_, ?_, fun _ _ => rfl⟩
  · intro i h
    cases h
  · intro i h
    cases h
  · intro i p h
    cases h
  · intro i p h
    cases h
  · intro i h
    cases h

theorem Inv.tidy {s : NatsState} (h : Inv s) : Tidy s :=
  ⟨h.connections.single, h.connections.replaced, h.locking.exclusive⟩

section Steps
variable {s : NatsState} {i : Nat}

/-- What follows the two functions needs no lock. -/
theorem attempt_eq (s : NatsState) (i : Nat) (p : Purpose) :
    ∃ c, s.attempt i p = s.put i c ∧ ¬ c.Locked ∧ c ≠ .closing := by
  unfold attempt
  cases s.nc with
  | none => exact ⟨_, rfl, id, fun h => by cases h⟩
  | some c =>
    cases p with
    | ensure op => exact ⟨_, rfl, id, fun h => by cases h⟩
    | recover => exact ⟨_, rfl, id, fun h => by cases h⟩

theorem Inv.put_free (h : Inv s) (hi : i < s.next) (hfree : ¬ (s.calls i).Locked) {c : NatsCall} (hc : ¬ c.Locked)
    (hclosing : c = .closing → s.lock = none) : Inv (s.put i c) :=
  ⟨h.connections, h.locking.put_free hi hfree hc hclosing⟩

theorem Inv.attempt (h : Inv s) (hi : i < s.next) (hfree : ¬ (s.calls i).Locked) (p : Purpose) :
    Inv (s.attempt i p) := by
  obtain ⟨c, heq, hc, hne⟩ := attempt_eq s i p
  rw [heq]
  exact h.put_free hi hfree hc fun hclosing => absurd hclosing hne

theorem Inv.begin (h : Inv s) : Inv { s with next := s.next + 1 } := ⟨h.connections, h.locking.begin⟩

theorem Inv.new_free (h : Inv s) : ¬ (s.calls s.next).Locked := by
  rw [h.locking.unborn s.next (Nat.le_refl _)]
  exact id

theorem operation_inv (h : Inv s) (op : Operation) : Inv (s.operation op) := by
  unfold operation
  split
  · exact h.begin.attempt (Nat.lt_succ_self _) h.new_free _
  · exact h.begin.put_free (Nat.lt_succ_self _) h.new_free id fun hc => by cases hc

theorem close_inv (h : Inv s) (hlock : s.lock = none) : Inv s.close := by
  unfold close
  dsimp only
  split
  · exact h.begin.put_free (c := .closing) (Nat.lt_succ_self _) h.new_free id fun _ => hlock
  · exact ⟨h.connections, h.locking.begin.put_free (c := .returned true) (Nat.lt_succ_self _) h.new_free id
      fun hc => by cases hc⟩

theorem attempted_inv (h : Inv s) (i : Nat) (outcome : SendOutcome) : Inv (s.attempted i outcome) := by
  unfold attempted
  split
  · rename_i op retry c hcall
    have hi := h.locking.born hcall fun hc => by cases hc
    have hfree : ¬ (s.calls i).Locked := by
      rw [hcall]
      exact id
    split
    · exact h.put_free hi hfree id fun hc => by cases hc
    · split
      · exact ⟨h.connections, h.locking.put_free (c := .waiting .recover) hi hfree id fun hc => by cases hc⟩
      · exact h.put_free hi hfree id fun hc => by cases hc
    · exact h.put_free hi hfree id fun hc => by cases hc
  · exact h

theorem drop_inv (h : Inv s) (c : Nat) : Inv (s.drop c) := by
  unfold drop
  split
  · rename_i hup
    have hsub := List.subset_append_left s.dropped [c]
    exact ⟨h.connections.setStatus hup (fun hc => by cases hc) (fun hc => by cases hc) hsub fun _ =>
      List.mem_append_right _ (List.mem_singleton_self c), h.locking.mono hsub⟩
  · exact h

theorem restore_inv (h : Inv s) (c : Nat) : Inv (s.restore c) := by
  unfold restore
  split
  · rename_i hdown
    exact ⟨h.connections.setStatus hdown (fun hc => by cases hc) (fun hc => by cases hc) (List.Subset.refl _)
      (fun hc => by cases hc), h.locking⟩
  · exact h

/-- An unhealthy connection is one that went down. -/
theorem Inv.dropped_of_unhealthy (h : Inv s) {c : Nat} (hnc : s.nc = some c) (hbad : s.healthy = false) :
    c ∈ s.dropped := by
  obtain ⟨st, hst, hne⟩ := h.connections.stored c hnc
  rw [healthy, hnc] at hbad
  cases st with
  | up => exact absurd hst (of_decide_eq_false hbad)
  | down => exact h.connections.down c hst
  | closed => exact absurd rfl hne

theorem acquire_inv (h : Inv s) (i : Nat) (hopen : ∀ j, s.calls j ≠ .closing) : Inv (s.acquire i) := by
  unfold acquire
  split
  · rename_i p hlock hcall
    have hi := h.locking.born hcall fun hc => by cases hc
    have hfree : Locking none s.nc s.dropped s.calls s.next := hlock ▸ h.locking
    split
    · have hsettled : Inv (s.settle p) := by
        cases p with
        | ensure op => exact h
        | recover => exact ⟨h.connections, h.locking⟩
      have hsame : (s.settle p).calls = s.calls ∧ (s.settle p).next = s.next := by cases p <;> exact ⟨rfl, rfl⟩
      exact hsettled.attempt (hsame.2 ▸ hi) (hsame.1 ▸ hfree.free i) p
    · rename_i hbad
      split
      · rename_i c hnc
        have hdropped := h.dropped_of_unhealthy hnc (Bool.eq_false_iff.mpr hbad)
        exact ⟨h.connections, hfree.take (c := .disconnecting p) hi hopen trivial (fun _ _ => ⟨c, hnc, hdropped⟩)
          fun q hq => by cases hq⟩
      · rename_i hnc
        exact ⟨h.connections, hfree.take (c := .connecting p) hi hopen trivial (fun q hq => by cases hq)
          fun _ _ => hnc⟩
  · exact h

theorem disconnected_inv (h : Inv s) (i : Nat) : Inv (s.disconnected i) := by
  unfold disconnected
  split
  · rename_i p hcall
    have hi := h.locking.born hcall fun hc => by cases hc
    have hlocked : (s.calls i).Locked := hcall ▸ trivial
    obtain ⟨c, hnc, hdropped⟩ := h.locking.disconnecting i p hcall
    rw [hnc]
    exact ⟨(hnc ▸ h.connections).close (List.Subset.refl _) (Or.inl hdropped), h.locking.advance hlocked p hi⟩
  · rename_i hcall
    have hi := h.locking.born hcall fun hc => by cases hc
    have hlock := h.locking.closing i hcall
    have hfree : Locking none s.nc s.dropped s.calls s.next := hlock ▸ h.locking
    have hreturned := hfree.put_free (c := .returned true) hi (hfree.free i) id fun hc => by cases hc
    split
    · rename_i c hnc
      refine ⟨(hnc ▸ h.connections).close (List.subset_append_left s.shut [c])
        (Or.inr (List.mem_append_right _ (List.mem_singleton_self c))), ?_⟩
      show Locking s.lock none s.dropped (Function.update s.calls i (.returned true)) s.next
      rw [hlock]
      refine ⟨hreturned.exclusive, hreturned.holder, ?_, fun _ _ _ => rfl, hreturned.closing, hreturned.unborn⟩
      intro j q hj
      exact absurd (hj ▸ trivial) (hreturned.free j)
    · exact ⟨h.connections, hlock.symm ▸ hreturned⟩
  · exact h

theorem connectReturned_inv (h : Inv s) (i : Nat) (success : Bool) : Inv (s.connectReturned i success) := by
  unfold connectReturned
  split
  · rename_i p hcall
    have hi := h.locking.born hcall fun hc => by cases hc
    have hlocked : (s.calls i).Locked := hcall ▸ trivial
    split
    · have hopened : Connections (some s.status.length) (s.status ++ [.up]) s.dropped s.shut :=
        (h.locking.connecting i p hcall ▸ h.connections).open_new
      obtain ⟨c, heq, hc, -⟩ := attempt_eq (s.opened.counted p) i p
      have hreleased := h.locking.release hlocked hi hc (some s.status.length)
      rw [heq]
      cases p with
      | ensure op => exact ⟨hopened, hreleased⟩
      | recover => exact ⟨hopened, hreleased⟩
    · exact ⟨h.connections, h.locking.release (c := .returned false) hlocked hi id s.nc⟩
  · exact h

theorem step_inv (s : NatsState) (e : NatsEvent) (ha : s.Apart e) (h : Inv s) : Inv (s.step e) := by
  cases e with
  | operation op => exact operation_inv h op
  | close => exact close_inv h ha
  | acquire i => exact acquire_inv h i ha
  | disconnected i => exact disconnected_inv h i
  | connected i success => exact connectReturned_inv h i success
  | attempted i outcome => exact attempted_inv h i outcome
  | drop c => exact drop_inv h c
  | restore c => exact restore_inv h c

end Steps

/-- However many operations fail and recover together, they share one connection, and a connection is only
replaced after it went down or was closed. -/
theorem nats_single_connection (es : List NatsEvent) (hg : Guarded step Apart start es) : Tidy (run step start es) :=
  (guarded_invariant Inv step_inv hg inv_start).tidy

/-- An operation finds its connection gone and sends over the one it opens instead. -/
def resent : List NatsEvent :=
  [.operation .publish, .acquire 0, .connected 0 true, .drop 0, .attempted 0 .connectionError, .acquire 0,
    .disconnected 0, .connected 0 true, .attempted 0 .sent]

theorem resent_tidy : (run step start resent).status = [.closed, .up] ∧ Tidy (run step start resent) := by
  have hother : ∀ (calls : Nat → NatsCall) c j, j ≠ 0 → calls j = .absent →
      Function.update calls 0 c j = .absent :=
    fun calls c j hj hcalls => (Function.update_of_ne hj c calls).trans hcalls
  have hfirst : (run step start (resent.take 1)).Apart (.acquire 0) := by
    intro j hj
    rcases eq_or_ne j 0 with rfl | hne
    · cases hj
    · cases (hother _ _ j hne rfl).symm.trans hj
  have hsecond : (run step start (resent.take 5)).Apart (.acquire 0) := by
    intro j hj
    rcases eq_or_ne j 0 with rfl | hne
    · cases hj
    · cases (hother _ _ j hne (hother _ _ j hne (hother _ _ j hne (hother _ _ j hne rfl)))).symm.trans hj
  exact ⟨rfl, nats_single_connection resent
    ⟨trivial, hfirst, trivial, trivial, trivial, hsecond, trivial, trivial, trivial, trivial⟩⟩

end NatsState

end IsaCloud.Nats
