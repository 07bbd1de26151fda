import IsaCloud.Support.Runs

/-!
# The watch handler

`watch_handler.sh` as a process of atomic steps. Handlers run next to each other;
they share the cooldown file and the lock, and the sync they start reads the
catalog at its start. The catalog is a number that every change raises, and so is
what the gateway was last synced to.
-/

namespace IsaCloud.Gateway

set_option autoImplicit false

open Support

inductive Phase where
  /-- Before `[ -f "$COOLDOWN_FILE" ]`. -/
  | checking
  /-- Before `cat`. -/
  | reading
  /-- Before `date` and the comparison. -/
  | comparing (lastRun : Nat)
  /-- Before `flock -n`. -/
  | locking
  /-- With the lock, before the shell opens the cooldown file, which empties it. -/
  | opening
  | stamping
  /-- Before the sync reads the catalog. -/
  | starting
  | syncing
  | exited
  deriving DecidableEq

/-- The handler will still read the catalog unless it is turned away. -/
def Phase.awaitsSync : Phase → Bool
  | .syncing => false
  | .exited => false
  | _ => true

def Phase.holdsLock : Phase → Bool
  | .opening => true
  | .stamping => true
  | .starting => true
  | .syncing => true
  | _ => false

structure Watch where
  catalog : Nat
  /-- The catalog that the last sync read. -/
  gateway : Nat
  /-- The clock, in seconds. -/
  now : Nat
  /-- The cooldown file; an empty one counts as 0 in the arithmetic of the shell. -/
  cooldown : Option Nat
  /-- Changes whose handler is not yet started. -/
  pending : Nat
  handlers : List Phase

inductive WatchEvent where
  | change
  | invoke
  | tick
  | step (i : Nat)
  deriving DecidableEq

def cooldownSeconds : Nat := 5

namespace Watch

def init : Watch := ⟨0, 0, 0, none, 0, []⟩

def locked (s : Watch) : Bool := s.handlers.any Phase.holdsLock

def move (s : Watch) (i : Nat) (p : Phase) : Watch := { s with handlers := s.handlers.set i p }

/-- Where the next step takes a handler. -/
def next (s : Watch) : Phase → Phase
  | .checking => if s.cooldown.isSome then .reading else .locking
  | .reading => .comparing (s.cooldown.getD 0)
  | .comparing lastRun => if s.now < lastRun + cooldownSeconds then .exited else .locking
  | .locking => if s.locked then .exited else .opening
  | .opening => .stamping
  | .stamping => .starting
  | .starting => .syncing
  | .syncing => .exited
  | .exited => .exited

/-- What the step does besides. -/
def effect (s : Watch) : Phase → Watch
  | .opening => { s with cooldown := some 0 }
  | .stamping => { s with cooldown := some s.now }
  | .starting => { s with gateway := s.catalog }
  | _ => s

def stepPhase (s : Watch) (i : Nat) (p : Phase) : Watch := (s.effect p).move i (s.next p)

/-- Each change is followed by an invocation of the handler, at some time. -/
def step (s : Watch) : WatchEvent → Watch
  | .change => { s with catalog := s.catalog + 1, pending := s.pending + 1 }
  | .invoke => if 0 < s.pending then { s with pending := s.pending - 1, handlers := s.handlers ++ [.checking] } else s
  | .tick => { s with now := s.now + 1 }
  | .step i =>
    match s.handlers[i]? with
    | some p => s.stepPhase i p
    | none => s

/-! ## The property and its condition -/

/-- The last sync started at or after the last change. -/
def Fresh (s : Watch) : Prop := s.gateway = s.catalog

/-- Every change had its handler, and all handlers have exited. -/
structure Quiet (s : Watch) : Prop where
  pending : s.pending = 0
  exited : ∀ p ∈ s.handlers, p = .exited

/-- The debounce or the lock turns the handler away. -/
def turnsAway (s : Watch) (i : Nat) : Bool :=
  match s.handlers[i]? with
  | some (.comparing lastRun) => decide (s.now < lastRun + cooldownSeconds)
  | some .locking => s.locked
  | _ => false

/-- Someone else will still read the catalog. -/
def OtherAwaits (s : Watch) (i : Nat) : Prop :=
  0 < s.pending ∨ ∃ j p, j ≠ i ∧ s.handlers[j]? = some p ∧ p.awaitsSync = true

/-- A handler is turned away only when the gateway is up to date, or another handler is on its way to
a sync. -/
def Covered (s : Watch) : WatchEvent → Prop
  | .step i => s.turnsAway i = true → s.Fresh ∨ s.OtherAwaits i
  | _ => True

/-! ## Runs -/

/-- A stale gateway has a handler on its way. -/
def Attended (s : Watch) : Prop :=
  s.Fresh ∨ 0 < s.pending ∨ ∃ (j : Nat) (p : Phase), s.handlers[j]? = some p ∧ p.awaitsSync = true

theorem handlers_move (s : Watch) (i j : Nat) (p : Phase) {q : Phase} (hq : s.handlers[j]? = some q) (h : j ≠ i) :
    (s.move i p).handlers[j]? = some q := by
  rw [move, List.getElem?_set_ne (Ne.symm h)]
  exact hq

theorem handlers_move_self (s : Watch) (i : Nat) (p : Phase) {q : Phase} (hq : s.handlers[i]? = some q) :
    (s.move i p).handlers[i]? = some p := by
  have hlt : i < s.handlers.length := by
    rw [List.getElem?_eq_some_iff] at hq
    exact hq.1
  rw [move, List.getElem?_set_self hlt]

theorem handlers_effect (s : Watch) (p : Phase) : (s.effect p).handlers = s.handlers := by
  cases p <;> rfl

theorem pending_effect (s : Watch) (p : Phase) : (s.effect p).pending = s.pending := by
  cases p <;> rfl

/-- A step that does not read the catalog leaves the gateway as fresh as it was. -/
theorem fresh_effect (s : Watch) {p : Phase} (h : p ≠ .starting) : (s.effect p).Fresh ↔ s.Fresh := by
  cases p with
  | starting => exact absurd rfl h
  | _ => exact Iff.rfl

theorem turnsAway_iff {s : Watch} {i : Nat} :
    s.turnsAway i = true ↔
      (∃ lastRun, s.handlers[i]? = some (.comparing lastRun) ∧ s.now < lastRun + cooldownSeconds) ∨
        (s.handlers[i]? = some .locking ∧ s.locked = true) := by
  rw [turnsAway]
  cases hi : s.handlers[i]? with
  | none => simp
  | some p => cases p <;> simp

/-- A handler that awaits its sync and is neither turned away nor starting it still awaits it. -/
theorem next_awaits {s : Watch} {i : Nat} {p : Phase} (hp : s.handlers[i]? = some p) (ha : p.awaitsSync = true)
    (hstart : p ≠ .starting) (haway : ¬ s.turnsAway i = true) : (s.next p).awaitsSync = true := by
  cases p with
  | checking =>
    rw [next]
    split
    · rfl
    · rfl
  | reading => rfl
  | comparing lastRun =>
    rw [next, if_neg]
    · rfl
    · intro hnow
      exact haway (turnsAway_iff.mpr (Or.inl ⟨lastRun, hp, hnow⟩))
  | locking =>
    rw [next, if_neg]
    · rfl
    · intro hlocked
      exact haway (turnsAway_iff.mpr (Or.inr ⟨hp, hlocked⟩))
  | opening => rfl
  | stamping => rfl
  | starting => exact absurd rfl hstart
  | syncing => cases ha
  | exited => cases ha

theorem attended_step_handler {s : Watch} {i : Nat} (hc : s.Covered (.step i)) (h : s.Attended) :
    (s.step (.step i)).Attended := by
  rw [step]
  cases hi : s.handlers[i]? with
  | none => exact h
  | some p =>
    dsimp only
    by_cases hstart : p = .starting
    · subst hstart
      exact Or.inl rfl
    · have hother : s.OtherAwaits i → (s.stepPhase i p).Attended := by
        rintro (hpend | ⟨j, q, hji, hq, ha⟩)
        · refine Or.inr (Or.inl ?_)
          rw [← pending_effect s p] at hpend
          exact hpend
        · rw [← handlers_effect s p] at hq
          exact Or.inr (Or.inr ⟨j, q, handlers_move _ i j _ hq hji, ha⟩)
      have hself : (s.effect p).handlers[i]? = some p := by
        rw [handlers_effect]
        exact hi
      by_cases haway : s.turnsAway i = true
      · rcases hc haway with hfresh | hawaits
        · exact Or.inl ((fresh_effect s hstart).mpr hfresh)
        · exact hother hawaits
      · rcases h with hfresh | hpend | ⟨j, q, hq, ha⟩
        · exact Or.inl ((fresh_effect s hstart).mpr hfresh)
        · exact hother (Or.inl hpend)
        · by_cases hji : j = i
          · subst hji
            have hpq : q = p := Option.some.inj (hq.symm.trans hi)
            subst hpq
            exact Or.inr (Or.inr ⟨j, s.next q, handlers_move_self _ j _ hself, next_awaits hi ha hstart haway⟩)
          · exact hother (Or.inr ⟨j, q, hji, hq, ha⟩)

theorem attended_step (s : Watch) (ev : WatchEvent) (hc : s.Covered ev) (h : s.Attended) : (s.step ev).Attended := by
  cases ev with
  | change => exact Or.inr (Or.inl (Nat.succ_pos _))
  | tick => exact h
  | step i => exact attended_step_handler hc h
  | invoke =>
    rw [step]
    split
    · refine Or.inr (Or.inr ⟨s.handlers.length, .checking, ?_, rfl⟩)
      rw [List.getElem?_append_right (Nat.le_refl _), Nat.sub_self]
      rfl
    · exact h

/-- Stale, and nobody is left to read the catalog. -/
structure Abandoned (s : Watch) : Prop where
  stale : ¬ s.Fresh
  pending : s.pending = 0
  done : ∀ p ∈ s.handlers, p.awaitsSync = false

theorem abandoned_of_uncovered {s : Watch} {i : Nat} (h : ¬ s.Covered (.step i)) : (s.step (.step i)).Abandoned := by
  rw [Covered, Classical.not_imp, not_or] at h
  obtain ⟨haway, hstale, hnone⟩ := h
  rw [OtherAwaits, not_or] at hnone
  have hexit : s.step (.step i) = s.move i .exited := by
    rcases turnsAway_iff.mp haway with ⟨lastRun, hi, hnow⟩ | ⟨hi, hlocked⟩
    · rw [step, hi]
      dsimp only
      rw [stepPhase, next, if_pos hnow]
      rfl
    · rw [step, hi]
      dsimp only
      rw [stepPhase, next, if_pos hlocked]
      rfl
  rw [hexit]
  refine ⟨hstale, Nat.eq_zero_of_not_pos hnone.1, ?_⟩
  intro p hp
  obtain ⟨j, hj⟩ := List.mem_iff_getElem?.mp hp
  rw [move] at hj
  dsimp only at hj
  by_cases hji : j = i
  · subst hji
    rw [List.getElem?_set] at hj
    rw [if_pos rfl] at hj
    split at hj
    · rw [← Option.some.inj hj]
      rfl
    · cases hj
  · rw [List.getElem?_set_ne (Ne.symm hji)] at hj
    cases ha : p.awaitsSync with
    | false => rfl
    | true => exact absurd ⟨j, p, hji, hj, ha⟩ hnone.2

theorem abandoned_step {s : Watch} {ev : WatchEvent} (hev : ev ≠ .change) (h : s.Abandoned) : (s.step ev).Abandoned := by
  cases ev with
  | change => exact absurd rfl hev
  | tick => exact ⟨h.stale, h.pending, h.done⟩
  | invoke =>
    rw [step, if_neg (by rw [h.pending]; exact Nat.lt_irrefl 0)]
    exact h
  | step i =>
    rw [step]
    cases hi : s.handlers[i]? with
    | none => exact h
    | some p =>
      have hp := h.done p (List.mem_of_getElem? hi)
      have hexit : s.stepPhase i p = s.move i .exited := by
        cases p with
        | syncing => rfl
        | exited => rfl
        | _ => cases hp
      dsimp only
      rw [hexit]
      refine ⟨h.stale, h.pending, ?_⟩
      intro q hq
      rcases List.mem_or_eq_of_mem_set hq with hq | rfl
      · exact h.done q hq
      · rfl

/-- After a step against the condition the gateway stays stale until the next change. -/
theorem stale_after_uncovered {s : Watch} {i : Nat} (h : ¬ s.Covered (.step i)) {later : List WatchEvent}
    (hlater : .change ∉ later) : ¬ (run step (s.step (.step i)) later).Fresh := by
  have habandoned : ∀ (t : Watch) (evs : List WatchEvent), .change ∉ evs → t.Abandoned → (run step t evs).Abandoned := by
    intro t evs
    induction evs generalizing t with
    | nil => exact fun _ ht => ht
    | cons ev evs ih =>
      intro hno ht
      rw [List.mem_cons, not_or] at hno
      exact ih _ hno.2 (abandoned_step (Ne.symm hno.1) ht)
  exact (habandoned _ later hlater (abandoned_of_uncovered h)).stale

end Watch

/-! ## A change within the cooldown -/

section Example

/-- One change and its handler. -/
def calm : List WatchEvent := [.change, .invoke] ++ List.replicate 7 (.step 0)

/-- A change that is synced, and another one two seconds later. -/
def burst : List WatchEvent :=
  [.change, .invoke] ++ List.replicate 7 (.step 0) ++ [.tick, .tick, .change, .invoke] ++ List.replicate 3 (.step 1)

end Example

end IsaCloud.Gateway
