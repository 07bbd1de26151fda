import IsaCloud.Support.Runs
import Mathlib.Logic.Function.Basic
import Mathlib.Tactic.Common

/-!
# The lazy connection of a client

`_ensure_connected` and `close` of `AsyncBaseClient`, which switch between their
calls at every await. Clients differ in what their `_connect` waits for: a pool or a
connection, or nothing at all for the cleanup task of the memory client.
-/

namespace IsaCloud.Database

set_option autoImplicit false

open Support

structure AsyncClient where
  /-- `_connect` waits for its resource. -/
  waits : Bool
  /-- The awaits of `_connect` after it has stored the resource. -/
  setup : Nat

def asyncPostgresClient : AsyncClient := ⟨true, 0⟩

/-- Its `_connect` executes two PRAGMAs. -/
def asyncSQLiteClient : AsyncClient := ⟨true, 2⟩

def asyncMemoryClient : AsyncClient := ⟨false, 0⟩

inductive ConnectionCall where
  | absent
  /-- In `_connect`, before the resource is open. -/
  | opening
  /-- In `_connect`, with the resource stored; `left` awaits follow this one. -/
  | settingUp (left : Nat)
  /-- In `_disconnect`. -/
  | closing (r : Nat)
  /-- `_ensure_connected` has returned. -/
  | ensured
  | failed
  /-- `close` has returned, and so many resources had been opened by then. -/
  | closed (opened : Nat)
  deriving DecidableEq

namespace ConnectionCall

def InFlight : ConnectionCall → Prop
  | opening => True
  | settingUp _ => True
  | closing _ => True
  | _ => False

end ConnectionCall

/-- Resources are numbered in the order in which they are opened; `live` are the open ones. -/
structure ClientState where
  connected : Bool
  resource : Option Nat
  live : List Nat
  opened : Nat
  next : Nat
  calls : Nat → ConnectionCall

inductive ClientEvent where
  /-- An operation calls `_ensure_connected`. -/
  | operation
  | close
  /-- The await of a call returns. -/
  | resume (i : Nat)
  /-- The await of a call raises. -/
  | raise (i : Nat)

namespace ClientState

def start : ClientState := ⟨false, none, [], 0, 0, fun _ => .absent⟩

def put (s : ClientState) (i : Nat) (c : ConnectionCall) : ClientState :=
  { s with calls := Function.update s.calls i c }

def begin (s : ClientState) : ClientState := { s with next := s.next + 1 }

def store (s : ClientState) : ClientState :=
  { s with resource := some s.opened, live := s.opened :: s.live, opened := s.opened + 1 }

/-- The rest of `_connect`, and the flag of `_ensure_connected`. -/
def setUp (s : ClientState) (i : Nat) : Nat → ClientState
  | 0 => { s with connected := true }.put i .ensured
  | left + 1 => s.put i (.settingUp left)

def ensureConnected (c : AsyncClient) (s : ClientState) (i : Nat) : ClientState :=
  if s.connected then s.put i .ensured
  else if c.waits then s.put i .opening
  else s.store.setUp i c.setup

def close (s : ClientState) (i : Nat) : ClientState :=
  if s.connected then
    match s.resource with
    | some r => s.put i (.closing r)
    | none => { s with connected := false }.put i (.closed s.opened)
  else s.put i (.closed s.opened)

def resume (c : AsyncClient) (s : ClientState) (i : Nat) : ClientState :=
  match s.calls i with
  | .opening => s.store.setUp i c.setup
  | .settingUp left => s.setUp i left
  | .closing r =>
    { s with connected := false, resource := none, live := s.live.erase r }.put i (.closed s.opened)
  | _ => s

def raise (s : ClientState) (i : Nat) : ClientState :=
  match s.calls i with
  | .opening => s.put i .failed
  | .settingUp _ => s.put i .failed
  | .closing _ => s.put i .failed
  | _ => s

def step (c : AsyncClient) (s : ClientState) : ClientEvent → ClientState
  | .operation => s.begin.ensureConnected c s.next
  | .close => s.begin.close s.next
  | .resume i => s.resume c i
  | .raise i => s.raise i

/-- At most one resource is open, and none that was opened before a `close` returned. -/
def Tidy (s : ClientState) : Prop :=
  s.live.length ≤ 1 ∧ ∀ i n, s.calls i = .closed n → ∀ r ∈ s.live, n ≤ r

def Quiet (s : ClientState) : Prop := ∀ i, ¬ (s.calls i).InFlight

/-- Connects and closes do not overlap, and no connect fails that has stored its resource. -/
def Alone (s : ClientState) : ClientEvent → Prop
  | .operation => s.connected = true ∨ s.Quiet
  | .close => s.Quiet
  | .resume _ => True
  | .raise i => ∀ left, s.calls i ≠ .settingUp left

/-! ## The invariant -/

section Invariant
variable {c : AsyncClient} {s : ClientState} {i : Nat}

/-- No call but one is in flight. -/
def Others (s : ClientState) (i : Nat) : Prop := ∀ j, j ≠ i → ¬ (s.calls j).InFlight

/-- Between connects and closes: nothing is open, or the stored resource is. -/
def Rests (s : ClientState) : Prop :=
  (s.connected = false ∧ s.live = []) ∨ (s.connected = true ∧ ∃ r, s.resource = some r ∧ s.live = [r])

/-- What is open while a call is where it is. -/
def Fits (s : ClientState) : ConnectionCall → Prop
  | .opening => s.connected = false ∧ s.live = []
  | .settingUp _ => s.connected = false ∧ ∃ r, s.resource = some r ∧ s.live = [r]
  | .closing r => s.connected = true ∧ s.resource = some r ∧ s.live = [r]
  | _ => s.Rests

/-- One call decides what is open, and no other is in flight. -/
def Phase (s : ClientState) : Prop := ∃ i, s.Others i ∧ s.Fits (s.calls i)

/-- Calls are numbered from 0, and a `close` that has returned left nothing open. -/
structure Ledger (s : ClientState) : Prop where
  begun : ∀ i, s.next ≤ i → s.calls i = .absent
  closed : ∀ i n, s.calls i = .closed n → n ≤ s.opened ∧ ∀ r ∈ s.live, n ≤ r

theorem fits_of_not_inFlight {c : ConnectionCall} (hc : ¬ c.InFlight) : s.Fits c ↔ s.Rests := by
  cases c with
  | absent => exact Iff.rfl
  | ensured => exact Iff.rfl
  | failed => exact Iff.rfl
  | closed n => exact Iff.rfl
  | opening => exact absurd trivial hc
  | settingUp left => exact absurd trivial hc
  | closing r => exact absurd trivial hc

theorem length_live_of_rests (h : s.Rests) : s.live.length ≤ 1 := by
  rcases h with ⟨_, hlive⟩ | ⟨_, r, _, hlive⟩
  · simp [hlive]
  · simp [hlive]

theorem length_live_of_fits {c : ConnectionCall} (h : s.Fits c) : s.live.length ≤ 1 := by
  by_cases hc : c.InFlight
  · cases c with
    | opening => simp [h.2]
    | settingUp left =>
      obtain ⟨_, r, _, hlive⟩ := h
      simp [hlive]
    | closing r => simp [h.2.2]
    | absent => exact hc.elim
    | ensured => exact hc.elim
    | failed => exact hc.elim
    | closed n => exact hc.elim
  · exact length_live_of_rests ((fits_of_not_inFlight hc).mp h)

/-- The state fits each call that is in flight. -/
theorem Phase.fits (h : s.Phase) (hi : (s.calls i).InFlight) : s.Others i ∧ s.Fits (s.calls i) := by
  obtain ⟨j, hothers, hfits⟩ := h
  by_cases hij : i = j
  · rw [hij]
    exact ⟨hothers, hfits⟩
  · exact absurd hi (hothers i hij)

theorem Phase.rests (h : s.Phase) (hquiet : s.Quiet) : s.Rests := by
  obtain ⟨j, _, hfits⟩ := h
  exact (fits_of_not_inFlight (hquiet j)).mp hfits

@[simp] theorem put_calls_self (c : ConnectionCall) : (s.put i c).calls i = c := Function.update_self _ _ _

theorem put_calls_of_ne (c : ConnectionCall) {j : Nat} (h : j ≠ i) : (s.put i c).calls j = s.calls j :=
  Function.update_of_ne h _ _

theorem others_put (c : ConnectionCall) (h : s.Others i) : (s.put i c).Others i := by
  intro j hj
  rw [put_calls_of_ne c hj]
  exact h j hj

theorem others_of_quiet (h : s.Quiet) : s.Others i := fun j _ => h j

theorem quiet_put {c : ConnectionCall} (h : s.Others i) (hc : ¬ c.InFlight) : (s.put i c).Quiet := by
  intro j
  by_cases hj : j = i
  · rw [hj, put_calls_self]
    exact hc
  · rw [put_calls_of_ne c hj]
    exact h j hj

theorem fits_put (c d : ConnectionCall) : (s.put i c).Fits d ↔ s.Fits d := by
  cases d <;> exact Iff.rfl

theorem phase_put {c : ConnectionCall} (hothers : s.Others i) (hfits : s.Fits c) : (s.put i c).Phase := by
  refine ⟨i, others_put c hothers, ?_⟩
  rw [put_calls_self, fits_put]
  exact hfits

/-- A call that begins and returns at once does not change the phase. -/
theorem phase_put_fresh {c : ConnectionCall} (h : s.Phase) (hi : ¬ (s.calls i).InFlight) (hc : ¬ c.InFlight) :
    (s.put i c).Phase := by
  obtain ⟨j, hothers, hfits⟩ := h
  by_cases hji : j = i
  · subst hji
    exact phase_put hothers ((fits_of_not_inFlight hc).mpr ((fits_of_not_inFlight hi).mp hfits))
  · refine ⟨j, ?_, ?_⟩
    · intro k hk
      by_cases hki : k = i
      · rw [hki, put_calls_self]
        exact hc
      · rw [put_calls_of_ne c hki]
        exact hothers k hk
    · rw [put_calls_of_ne c hji, fits_put]
      exact hfits

theorem Ledger.put {c : ConnectionCall} (h : s.Ledger) (hi : i < s.next)
    (hc : ∀ n, c = .closed n → n ≤ s.opened ∧ ∀ r ∈ s.live, n ≤ r) : (s.put i c).Ledger where
  begun := by
    intro j hj
    have hne : j ≠ i := fun hji => absurd hi (by rw [← hji]; exact Nat.not_lt.mpr hj)
    rw [put_calls_of_ne c hne]
    exact h.begun j hj
  closed := by
    intro j n hclosed
    by_cases hj : j = i
    · rw [hj, put_calls_self] at hclosed
      exact hc n hclosed
    · rw [put_calls_of_ne c hj] at hclosed
      exact h.closed j n hclosed

theorem Ledger.begin (h : s.Ledger) : s.begin.Ledger :=
  ⟨fun j hj => h.begun j (Nat.le_of_succ_le hj), h.closed⟩

theorem Ledger.store (h : s.Ledger) : s.store.Ledger where
  begun := h.begun
  closed := by
    intro j n hclosed
    obtain ⟨hle, hlive⟩ := h.closed j n hclosed
    refine ⟨Nat.le_succ_of_le hle, ?_⟩
    intro r hr
    rcases List.mem_cons.mp hr with rfl | hr
    · exact hle
    · exact hlive r hr

theorem Ledger.setUp (h : s.Ledger) (hi : i < s.next) (left : Nat) : (s.setUp i left).Ledger := by
  cases left with
  | zero =>
    refine Ledger.put ⟨h.begun, h.closed⟩ hi ?_
    intro n hn
    cases hn
  | succ left =>
    refine h.put hi ?_
    intro n hn
    cases hn

theorem phase_setUp {r : Nat} (hconnected : s.connected = false) (hresource : s.resource = some r)
    (hlive : s.live = [r]) (hothers : s.Others i) (left : Nat) : (s.setUp i left).Phase := by
  cases left with
  | zero => exact phase_put (s := { s with connected := true }) hothers (Or.inr ⟨rfl, r, hresource, hlive⟩)
  | succ left => exact phase_put hothers ⟨hconnected, r, hresource, hlive⟩

theorem phase_begin (h : s.Phase) : s.begin.Phase := by
  obtain ⟨j, hothers, hfits⟩ := h
  refine ⟨j, hothers, ?_⟩
  have hsame : ∀ d, s.Fits d → s.begin.Fits d := by
    intro d hd
    cases d <;> exact hd
  exact hsame _ hfits

/-! ## Steps -/

structure Inv (s : ClientState) : Prop where
  phase : s.Phase
  ledger : s.Ledger

theorem inv_start : start.Inv where
  phase := ⟨0, fun _ _ h => h, Or.inl ⟨rfl, rfl⟩⟩
  ledger := by
    refine ⟨fun _ _ => rfl, ?_⟩
    intro i n hclosed
    cases hclosed

theorem inv_operation (h : s.Inv) (halone : s.connected = true ∨ s.Quiet) :
    (s.begin.ensureConnected c s.next).Inv := by
  have hledger := h.ledger.begin
  have hfresh : s.next < s.begin.next := Nat.lt_succ_self _
  unfold ensureConnected
  by_cases hconnected : s.begin.connected = true
  · rw [if_pos hconnected]
    refine ⟨phase_put_fresh (phase_begin h.phase) ?_ (fun hc => hc), hledger.put hfresh ?_⟩
    · have habsent : s.begin.calls s.next = .absent := h.ledger.begun s.next (Nat.le_refl _)
      rw [habsent]
      exact fun hc => hc
    · intro n hn
      cases hn
  · rw [if_neg hconnected]
    have hquiet : s.Quiet := halone.resolve_left hconnected
    have hrests : s.connected = false ∧ s.live = [] := by
      rcases h.phase.rests hquiet with hrests | hrests
      · exact hrests
      · exact absurd hrests.1 hconnected
    by_cases hwaits : c.waits = true
    · rw [if_pos hwaits]
      refine ⟨phase_put (others_of_quiet hquiet) hrests, hledger.put hfresh ?_⟩
      intro n hn
      cases hn
    · rw [if_neg hwaits]
      refine ⟨phase_setUp (s := s.begin.store) hrests.1 rfl ?_ (others_of_quiet hquiet) _,
        hledger.store.setUp hfresh _⟩
      exact congrArg (s.opened :: ·) hrests.2

theorem inv_close (h : s.Inv) (hquiet : s.Quiet) : (s.begin.close s.next).Inv := by
  have hledger := h.ledger.begin
  have hfresh : s.next < s.begin.next := Nat.lt_succ_self _
  unfold close
  rcases h.phase.rests hquiet with ⟨hconnected, hlive⟩ | ⟨hconnected, r, hresource, hlive⟩
  · have hoff : ¬ s.begin.connected = true := by
      intro hon
      rw [show s.begin.connected = s.connected from rfl, hconnected] at hon
      cases hon
    rw [if_neg hoff]
    refine ⟨phase_put (others_of_quiet hquiet) (Or.inl ⟨hconnected, hlive⟩), hledger.put hfresh ?_⟩
    intro n hn
    cases hn
    refine ⟨(Nat.le_refl _), ?_⟩
    intro r hr
    rw [show s.begin.live = s.live from rfl, hlive] at hr
    cases hr
  · have hstored : s.begin.resource = some r := hresource
    rw [if_pos (show s.begin.connected = true from hconnected), hstored]
    refine ⟨phase_put (others_of_quiet hquiet) ⟨hconnected, hresource, hlive⟩, hledger.put hfresh ?_⟩
    intro n hn
    cases hn

/-- A call that is in flight has begun. -/
theorem lt_next (h : s.Ledger) (hi : (s.calls i).InFlight) : i < s.next := by
  by_contra hle
  rw [h.begun i (Nat.not_lt.mp hle)] at hi
  exact hi

theorem inv_resume (h : s.Inv) : (s.resume c i).Inv := by
  unfold resume
  cases hcall : s.calls i with
  | absent => exact h
  | ensured => exact h
  | failed => exact h
  | closed n => exact h
  | opening =>
    have hflight : (s.calls i).InFlight := by
      rw [hcall]
      trivial
    obtain ⟨hothers, hfits⟩ := h.phase.fits hflight
    rw [hcall] at hfits
    have hlt := lt_next h.ledger hflight
    refine ⟨phase_setUp (s := s.store) hfits.1 rfl ?_ hothers _, h.ledger.store.setUp hlt _⟩
    exact congrArg (s.opened :: ·) hfits.2
  | settingUp left =>
    have hflight : (s.calls i).InFlight := by
      rw [hcall]
      trivial
    obtain ⟨hothers, hfits⟩ := h.phase.fits hflight
    rw [hcall] at hfits
    obtain ⟨hconnected, r, hresource, hlive⟩ := hfits
    exact ⟨phase_setUp hconnected hresource hlive hothers _, h.ledger.setUp (lt_next h.ledger hflight) _⟩
  | closing r =>
    have hflight : (s.calls i).InFlight := by
      rw [hcall]
      trivial
    obtain ⟨hothers, hfits⟩ := h.phase.fits hflight
    rw [hcall] at hfits
    have hgone : s.live.erase r = [] := by
      rw [hfits.2.2]
      simp
    have hlt := lt_next h.ledger hflight
    refine ⟨phase_put hothers (Or.inl ⟨rfl, hgone⟩), Ledger.put ⟨h.ledger.begun, ?_⟩ hlt ?_⟩
    · intro j n hclosed
      refine ⟨(h.ledger.closed j n hclosed).1, ?_⟩
      intro r' hr'
      exact (h.ledger.closed j n hclosed).2 r' (List.mem_of_mem_erase hr')
    · intro n hn
      cases hn
      refine ⟨(Nat.le_refl _), ?_⟩
      intro r' hr'
      rw [hgone] at hr'
      cases hr'

theorem inv_raise (h : s.Inv) (halone : ∀ left, s.calls i ≠ .settingUp left) : (s.raise i).Inv := by
  have hfailed : (s.calls i).InFlight → s.Rests → (s.put i .failed).Inv := by
    intro hflight hrests
    refine ⟨phase_put (h.phase.fits hflight).1 hrests, h.ledger.put (lt_next h.ledger hflight) ?_⟩
    intro n hn
    cases hn
  unfold raise
  cases hcall : s.calls i with
  | absent => exact h
  | ensured => exact h
  | failed => exact h
  | closed n => exact h
  | settingUp left => exact absurd hcall (halone left)
  | opening =>
    rw [hcall] at hfailed
    have hfits := (h.phase.fits (i := i) (by rw [hcall]; trivial)).2
    rw [hcall] at hfits
    exact hfailed trivial (Or.inl hfits)
  | closing r =>
    rw [hcall] at hfailed
    have hfits := (h.phase.fits (i := i) (by rw [hcall]; trivial)).2
    rw [hcall] at hfits
    exact hfailed trivial (Or.inr ⟨hfits.1, r, hfits.2⟩)

theorem inv_step {ev : ClientEvent} (h : s.Inv) (halone : s.Alone ev) : (s.step c ev).Inv := by
  cases ev with
  | operation => exact inv_operation h halone
  | close => exact inv_close h halone
  | resume i => exact inv_resume h
  | raise i => exact inv_raise h halone

theorem tidy_of_inv (h : s.Inv) : s.Tidy := by
  refine ⟨?_, fun i n hclosed => (h.ledger.closed i n hclosed).2⟩
  obtain ⟨j, _, hfits⟩ := h.phase
  exact length_live_of_fits hfits

end Invariant

/-! ## Runs -/

/-- A client whose connects and closes do not overlap never leaks a resource. -/
theorem tidy_run (c : AsyncClient) (events : List ClientEvent) (h : Guarded (step c) Alone start events) :
    (run (step c) start events).Tidy :=
  tidy_of_inv (guarded_invariant Inv (fun _ _ halone hs => inv_step hs halone) h inv_start)

/-- A pool is opened, used and closed, and another operation finds the flag set. -/
theorem one_after_another_tidy :
    (run (step asyncPostgresClient) start [.operation, .resume 0, .operation, .close, .resume 2]).Tidy := by
  refine tidy_run asyncPostgresClient _ ⟨Or.inr fun _ h => h, trivial, Or.inl rfl, ?_, trivial, trivial⟩
  refine quiet_put ?_ (fun h => h)
  refine others_of_quiet (quiet_put ?_ (fun h => h))
  refine others_put _ ?_
  exact fun _ _ h => h

/-- Two operations find the flag unset, and the first of their two pools outlives the close. -/
theorem overlapping_connects_leak :
    ¬ ∀ events : List ClientEvent, (run (step asyncPostgresClient) start events).Tidy := by
  intro hall
  have htidy := hall [.operation, .operation, .resume 0, .resume 1, .close, .resume 2]
  exact absurd (htidy.2 2 2 rfl 0 (List.mem_cons_self ..)) (by decide)

/-! ## The memory client -/

section Memory
variable {s : ClientState} {i : Nat}

/-- Only closes are ever in flight. -/
def Instant (s : ClientState) : Prop := ∀ i, (s.calls i).InFlight → ∃ r, s.calls i = .closing r

theorem instant_put {c : ConnectionCall} (h : s.Instant) (hc : c.InFlight → ∃ r, c = .closing r) :
    (s.put i c).Instant := by
  intro j hj
  by_cases hji : j = i
  · rw [hji, put_calls_self] at hj ⊢
    exact hc hj
  · rw [put_calls_of_ne c hji] at hj ⊢
    exact h j hj

theorem instant_step {ev : ClientEvent} (h : s.Instant) : (s.step asyncMemoryClient ev).Instant := by
  cases ev with
  | operation =>
    dsimp only [step, ensureConnected]
    split
    · exact instant_put h (fun hc => hc.elim)
    · exact instant_put h (fun hc => hc.elim)
  | close =>
    dsimp only [step, close]
    split
    · split
      · exact instant_put h (fun _ => ⟨_, rfl⟩)
      · exact instant_put h (fun hc => hc.elim)
    · exact instant_put h (fun hc => hc.elim)
  | resume i =>
    dsimp only [step, resume]
    split
    · exact instant_put h (fun hc => hc.elim)
    · rename_i left hcall
      obtain ⟨r, hr⟩ := h i (by rw [hcall]; trivial)
      rw [hcall] at hr
      cases hr
    · exact instant_put h (fun hc => hc.elim)
    · exact h
  | raise i =>
    dsimp only [step, raise]
    split
    · exact instant_put h (fun hc => hc.elim)
    · exact instant_put h (fun hc => hc.elim)
    · exact instant_put h (fun hc => hc.elim)
    · exact h

theorem alone_of_instant {ev : ClientEvent} (h : s.Inv) (hinstant : s.Instant) (hclose : ev = .close → s.Quiet) :
    s.Alone ev := by
  cases ev with
  | operation =>
    by_cases hconnected : s.connected = true
    · exact Or.inl hconnected
    · refine Or.inr ?_
      intro i hi
      obtain ⟨r, hr⟩ := hinstant i hi
      have hfits := (h.phase.fits hi).2
      rw [hr] at hfits
      exact hconnected hfits.1
  | close => exact hclose rfl
  | resume i => trivial
  | raise i =>
    intro left hleft
    obtain ⟨r, hr⟩ := hinstant i (by rw [hleft]; trivial)
    rw [hleft] at hr
    cases hr

/-- Its operations never overlap: only its closes have to be called one after another. -/
theorem memory_tidy (events : List ClientEvent)
    (h : Guarded (step asyncMemoryClient) (fun s ev => ev = .close → s.Quiet) start events) :
    (run (step asyncMemoryClient) start events).Tidy := by
  have hinv := guarded_invariant (fun s => s.Inv ∧ s.Instant)
    (fun s ev hclose hs => ⟨inv_step hs.1 (alone_of_instant hs.1 hs.2 hclose), instant_step hs.2⟩) h
    ⟨inv_start, fun _ h => h.elim⟩
  exact tidy_of_inv hinv.1

end Memory

end ClientState

end IsaCloud.Database
