import IsaCloud.Cache.RedisClient
import IsaCloud.Support.Runs

/-!
# Distributed locks

`acquire_lock`, `release_lock` and `renew_lock` of the Redis client, each request
of which the server serves in one step. Any number of calls of one tenant run next
to each other; time passes between the steps, and a call may crash before or after
the server has served its request. The texts of the calls can be encoded, so that
the requests reach the server.
-/

namespace IsaCloud.Cache

set_option autoImplicit false

open Support Support.Text Support.Redis

/-- A text that UTF-8 can encode. -/
structure RedisText where
  text : Str
  encodable : encodable text = true

/-! ## Requests -/

section Requests
variable (now : Nat)

/-- `SET key value NX EX seconds`. -/
def setNxEx (seconds : Int) (v : Str) (slot : Slot) : Except Failure Bool × Slot :=
  if 0 < seconds ∧ validExpire now seconds = true then
    match slot with
    | none => (.ok true, some ⟨.string v, some (now + (1000 * seconds).toNat)⟩)
    | some _ => (.ok false, slot)
  else (.error .invalidExpire, slot)

/-- The script of `release_lock`: check and delete. -/
def checkAndDelete (lockId : Str) (slot : Slot) : Except Failure Int × Slot :=
  match Redis.get slot with
  | (.ok held, _) => if held = some lockId then del slot else (.ok 0, slot)
  | (.error e, _) => (.error e, slot)

/-- The script of `renew_lock`: check and expire. -/
def checkAndExpire (lockId : Str) (seconds : Int) (slot : Slot) : Except Failure Int × Slot :=
  match Redis.get slot with
  | (.ok held, _) =>
    if held = some lockId then
      ((Redis.expire now seconds slot).1.map fun renewed => if renewed then 1 else 0, (Redis.expire now seconds slot).2)
    else (.ok 0, slot)
  | (.error e, _) => (.error e, slot)

end Requests

/-! ## Calls -/

/-- What a call returns; `error` is the `None` of `handle_error`. -/
inductive LockReply where
  | acquired (lockId : Option Str)
  | flag (b : Bool)
  | error
  deriving DecidableEq

inductive LockCall where
  /-- In the loop of `acquire_lock`, before a SET. -/
  | acquiring (key lockId : Str) (ttlSeconds : Int)
  | releasing (key lockId : Str)
  | renewing (key lockId : Str) (ttlSeconds : Int)
  | returned (r : LockReply)
  /-- Not begun, or crashed. -/
  | absent
  deriving DecidableEq

/-- The tenant of the calls, and the ids that the `acquire_lock` calls draw. -/
structure LockSpace where
  tenant : Tenant
  encodable : encodable tenant.getKeyPrefix = true
  lockId : Nat → Str
  unique : Function.Injective lockId

def LockSpace.name (ls : LockSpace) (key : Str) : Str := ls.tenant.prefixKey (lit "lock:" ++ key)

structure LockState where
  server : Server Str Data
  next : Nat
  calls : Nat → LockCall

inductive LockEvent where
  | advance (milliseconds : Nat)
  | acquireLock (key : RedisText) (ttlSeconds : Int)
  | releaseLock (key lockId : RedisText)
  | renewLock (key lockId : RedisText) (ttlSeconds : Int)
  /-- The next request of a call, and its reply. -/
  | send (i : Nat)
  /-- The waiting time of an `acquire_lock` is over. -/
  | giveUp (i : Nat)
  /-- A call ends without a reply; its request may have been served. -/
  | crash (i : Nat) (served : Bool)

section Calls
variable (ls : LockSpace)

/-- A request is served: what the server holds then, and where the call goes. -/
def serveLock (s : Server Str Data) : LockCall → Server Str Data × LockCall
  | .acquiring key lockId ttlSeconds =>
    ((s.onKey (ls.name key) (setNxEx s.now ttlSeconds lockId)).2,
      match (s.onKey (ls.name key) (setNxEx s.now ttlSeconds lockId)).1 with
      | .ok true => .returned (.acquired (some lockId))
      | .ok false => .acquiring key lockId ttlSeconds
      | .error _ => .returned (.acquired none))
  | .releasing key lockId =>
    ((s.onKey (ls.name key) (checkAndDelete lockId)).2,
      match (s.onKey (ls.name key) (checkAndDelete lockId)).1 with
      | .ok n => .returned (.flag (decide (n = 1)))
      | .error _ => .returned .error)
  | .renewing key lockId ttlSeconds =>
    ((s.onKey (ls.name key) (checkAndExpire s.now lockId ttlSeconds)).2,
      match (s.onKey (ls.name key) (checkAndExpire s.now lockId ttlSeconds)).1 with
      | .ok n => .returned (.flag (decide (n = 1)))
      | .error _ => .returned .error)
  | .returned r => (s, .returned r)
  | .absent => (s, .absent)

namespace LockState

def start (now : Nat) : LockState := ⟨Server.empty now, 0, fun _ => .absent⟩

def begin (s : LockState) (c : LockCall) : LockState :=
  { s with next := s.next + 1, calls := Function.update s.calls s.next c }

/-- A call that has returned does not crash. -/
def crashedFrom : LockCall → LockCall
  | .returned r => .returned r
  | _ => .absent

def step (s : LockState) : LockEvent → LockState
  | .advance d => { s with server := s.server.advance d }
  | .acquireLock key ttlSeconds => s.begin (.acquiring key.text (ls.lockId s.next) ttlSeconds)
  | .releaseLock key lockId => s.begin (.releasing key.text lockId.text)
  | .renewLock key lockId ttlSeconds => s.begin (.renewing key.text lockId.text ttlSeconds)
  | .send i =>
    { s with
      server := (serveLock ls s.server (s.calls i)).1
      calls := Function.update s.calls i (serveLock ls s.server (s.calls i)).2 }
  | .giveUp i =>
    match s.calls i with
    | .acquiring _ _ _ => { s with calls := Function.update s.calls i (.returned (.acquired none)) }
    | _ => s
  | .crash i served =>
    { s with
      server := if served then (serveLock ls s.server (s.calls i)).1 else s.server
      calls := Function.update s.calls i (crashedFrom (s.calls i)) }

/-- The holder of a lock: the id stored under its key and not expired. -/
def holder (s : LockState) (key : Str) : Option Str := stringOf (s.server.lookup (ls.name key))

/-- When the lock expires. -/
def deadline (s : LockState) (key : Str) : Option Nat := deadlineOf (s.server.lookup (ls.name key))

/-! ## Safety -/

/-- A call about an id that does not hold its lock. -/
def Foreign (s : LockState) : LockCall → Prop
  | .releasing key lockId => s.holder ls key ≠ some lockId
  | .renewing key lockId _ => s.holder ls key ≠ some lockId
  | _ => False

/-- What the claim says of one step. -/
structure SafeStep (s : LockState) (ev : LockEvent) : Prop where
  /-- The holder of a lock is the id of one `acquire_lock` call only. -/
  unique : ∀ key i j v w, (s.step ls ev).calls i = .returned (.acquired (some v)) →
    (s.step ls ev).calls j = .returned (.acquired (some w)) →
    (s.step ls ev).holder ls key = some v → (s.step ls ev).holder ls key = some w → i = j
  granted : ∀ i key lockId ttlSeconds v, s.calls i = .acquiring key lockId ttlSeconds →
    (s.step ls ev).calls i = .returned (.acquired (some v)) →
    v = lockId ∧ s.holder ls key = none ∧ (s.step ls ev).holder ls key = some v
  refused : ∀ i, ev = .send i → s.Foreign ls (s.calls i) →
    (s.step ls ev).calls i = .returned (.flag false) ∧
      ∀ key, (s.step ls ev).holder ls key = s.holder ls key ∧ (s.step ls ev).deadline ls key = s.deadline ls key
  renewed : ∀ i key lockId ttlSeconds, ev = .send i → s.calls i = .renewing key lockId ttlSeconds →
    s.holder ls key = some lockId → 0 < ttlSeconds → validExpire s.server.now ttlSeconds = true →
    (s.step ls ev).calls i = .returned (.flag true) ∧ (s.step ls ev).holder ls key = some lockId ∧
      (s.step ls ev).deadline ls key = some (s.server.now + (1000 * ttlSeconds).toNat)

/-- A request that would take a lock from an id: its release, or a renewal that expires at once. -/
def GivesUp (key lockId : Str) : LockCall → Prop
  | .releasing key' lockId' => ls.name key' = ls.name key ∧ lockId' = lockId
  | .renewing key' lockId' ttlSeconds => ls.name key' = ls.name key ∧ lockId' = lockId ∧ ttlSeconds ≤ 0
  | _ => False

/-- The lock does not expire under the holder, and nobody gives it up with the id. -/
def KeptAlive (key lockId : Str) (s : LockState) : LockEvent → Prop
  | .advance d => ∀ t, s.deadline ls key = some t → s.server.now + d < t
  | .send i => ¬ GivesUp ls key lockId (s.calls i)
  | .crash i _ => ¬ GivesUp ls key lockId (s.calls i)
  | _ => True

end LockState

/-! ## What a request does to its key -/

theorem setNxEx_cases (now : Nat) (seconds : Int) (v : Str) (slot : Slot) :
    ((setNxEx now seconds v slot).1 = .ok true ∧ slot = none ∧
        ∃ d, now < d ∧ (setNxEx now seconds v slot).2 = some ⟨.string v, some d⟩) ∨
      ((setNxEx now seconds v slot).1 ≠ .ok true ∧ (setNxEx now seconds v slot).2 = slot) := by
  unfold setNxEx
  split
  · rename_i hvalid
    cases slot with
    | none =>
      refine Or.inl ⟨rfl, rfl, _, ?_, rfl⟩
      have hpos := hvalid.1
      omega
    | some e => exact Or.inr ⟨by simp, rfl⟩
  · exact Or.inr ⟨by simp, rfl⟩

/-- The server holds strings only. -/
def IsText (slot : Slot) : Prop := ∀ e, slot = some e → ∃ v, e.value = .string v

theorem get_of_isText {slot : Slot} (h : IsText slot) : Redis.get slot = (.ok (stringOf slot), slot) := by
  cases slot with
  | none => rfl
  | some e =>
    obtain ⟨v, hv⟩ := h e rfl
    obtain ⟨value, deadline⟩ := e
    dsimp only at hv
    rw [hv]
    rfl

theorem checkAndDelete_of_isText {slot : Slot} (h : IsText slot) (lockId : Str) :
    checkAndDelete lockId slot = if stringOf slot = some lockId then (.ok 1, none) else (.ok 0, slot) := by
  rw [checkAndDelete, get_of_isText h]
  dsimp only
  split
  · rename_i hheld
    cases slot with
    | none => cases hheld
    | some e => rfl
  · rfl

theorem checkAndExpire_of_isText {slot : Slot} (h : IsText slot) (now : Nat) (lockId : Str) (seconds : Int)
    (hforeign : stringOf slot ≠ some lockId) : checkAndExpire now lockId seconds slot = (.ok 0, slot) := by
  rw [checkAndExpire, get_of_isText h]
  dsimp only
  rw [if_neg hforeign]

/-- A renewal in the name of the holder keeps the value and moves the deadline into the future,
changes nothing, or, when it is to expire at once, deletes the key. -/
theorem checkAndExpire_cases (now : Nat) (lockId : Str) (seconds : Int) (slot : Slot) :
    (checkAndExpire now lockId seconds slot).2 = slot ∨
      (seconds ≤ 0 ∧ stringOf slot = some lockId ∧ (checkAndExpire now lockId seconds slot).2 = none) ∨
      ∃ e d, slot = some e ∧ now < d ∧ (checkAndExpire now lockId seconds slot).2 = some { e with deadline := some d } := by
  rw [checkAndExpire]
  have hget : (Redis.get slot).2 = slot := by
    unfold Redis.get
    split <;> rfl
  cases hr : Redis.get slot with
  | mk held slot' =>
    cases held with
    | error e => exact Or.inl rfl
    | ok held =>
      dsimp only
      split
      · rename_i hheld
        unfold Redis.expire
        split
        · cases slot with
          | none => exact Or.inl rfl
          | some e =>
            dsimp only
            split
            · rename_i hpos
              exact Or.inr (Or.inr ⟨e, _, rfl, by omega, rfl⟩)
            · rename_i hpos
              refine Or.inr (Or.inl ⟨by omega, ?_, rfl⟩)
              obtain ⟨value, deadline⟩ := e
              cases value with
              | string v =>
                cases hr
                exact hheld
              | list l => cases hr
              | hash f => cases hr
        · exact Or.inl rfl
      · exact Or.inl rfl

/-! ## Serving a call -/

section Serve
variable {ls : LockSpace} {s : Server Str Data}

/-- What a served call does to a key: nothing, or a grant into a free slot, or a release, or a renewal. -/
inductive Served (ls : LockSpace) (s s' : Server Str Data) (k : Str) : LockCall → Prop where
  | same (c : LockCall) : s'.lookup k = s.lookup k → Served ls s s' k c
  | grant (key lockId : Str) (ttlSeconds : Int) (d : Nat) : k = ls.name key → s.lookup k = none →
      s'.lookup k = some ⟨.string lockId, some d⟩ → Served ls s s' k (.acquiring key lockId ttlSeconds)
  | release (key lockId : Str) : k = ls.name key → stringOf (s.lookup k) = some lockId → s'.lookup k = none →
      Served ls s s' k (.releasing key lockId)
  | expire (key lockId : Str) (ttlSeconds : Int) : k = ls.name key → ttlSeconds ≤ 0 →
      stringOf (s.lookup k) = some lockId → s'.lookup k = none → Served ls s s' k (.renewing key lockId ttlSeconds)
  | renew (key lockId : Str) (ttlSeconds : Int) (e : Entry Data) (d : Nat) : s.lookup k = some e →
      s'.lookup k = some { e with deadline := some d } → Served ls s s' k (.renewing key lockId ttlSeconds)

theorem served (hs : ∀ k, IsText (s.lookup k)) (c : LockCall) (k : Str) : Served ls s (serveLock ls s c).1 k c := by
  cases c with
  | returned r => exact .same _ rfl
  | absent => exact .same _ rfl
  | acquiring key lockId ttlSeconds =>
    rcases setNxEx_cases s.now ttlSeconds lockId (s.lookup (ls.name key)) with ⟨_, hfree, d, hd, hslot⟩ | ⟨_, hsame⟩
    · by_cases hk : k = ls.name key
      · subst hk
        refine .grant key lockId ttlSeconds d rfl hfree (lookup_onKey_self s hslot ?_)
        intro e he
        rw [← Option.some.inj he]
        exact decide_eq_true hd
      · exact .same _ (lookup_onKey_of_ne s hk)
    · exact .same _ (lookup_onKey_same s hsame k)
  | releasing key lockId =>
    have hcommand := checkAndDelete_of_isText (hs (ls.name key)) lockId
    by_cases hk : k = ls.name key
    · subst hk
      by_cases hheld : stringOf (s.lookup (ls.name key)) = some lockId
      · rw [if_pos hheld] at hcommand
        refine .release key lockId rfl hheld (lookup_onKey_self s (by rw [hcommand]) ?_)
        intro e he
        cases he
      · rw [if_neg hheld] at hcommand
        exact .same _ (lookup_onKey_same s (by rw [hcommand]) _)
    · exact .same _ (lookup_onKey_of_ne s hk)
  | renewing key lockId ttlSeconds =>
    by_cases hk : k = ls.name key
    · subst hk
      rcases checkAndExpire_cases s.now lockId ttlSeconds (s.lookup (ls.name key)) with
        hsame | ⟨hneg, hheld, hnone⟩ | ⟨e, d, he, hd, hslot⟩
      · exact .same _ (lookup_onKey_same s hsame _)
      · refine .expire key lockId ttlSeconds rfl hneg hheld (lookup_onKey_self s hnone ?_)
        intro e he
        cases he
      · refine .renew key lockId ttlSeconds e d he (lookup_onKey_self s hslot ?_)
        intro e' he'
        rw [← Option.some.inj he']
        exact decide_eq_true hd
    · exact .same _ (lookup_onKey_of_ne s hk)

/-- A served call leaves the holder of a lock in place, unless it gives the lock up. -/
theorem holder_serveLock (hs : ∀ k, IsText (s.lookup k)) {c : LockCall} {key lockId : Str}
    (hkept : ¬ LockState.GivesUp ls key lockId c) (h : stringOf (s.lookup (ls.name key)) = some lockId) :
    stringOf ((serveLock ls s c).1.lookup (ls.name key)) = some lockId := by
  cases served hs c (ls.name key) with
  | same _ hsame =>
    rw [hsame]
    exact h
  | grant key' lockId' ttlSeconds d hk hfree hset =>
    rw [hfree] at h
    cases h
  | release key' lockId' hk hheld hgone =>
    refine absurd ⟨hk.symm, ?_⟩ hkept
    exact Option.some.inj (hheld.symm.trans h)
  | expire key' lockId' ttlSeconds hk hneg hheld hgone =>
    refine absurd ⟨hk.symm, ?_, hneg⟩ hkept
    exact Option.some.inj (hheld.symm.trans h)
  | renew key' lockId' ttlSeconds e d he hset =>
    rw [hset]
    rw [he] at h
    obtain ⟨value, deadline⟩ := e
    cases value with
    | string v => exact h
    | list l => cases h
    | hash f => cases h

theorem isText_serveLock (hs : ∀ k, IsText (s.lookup k)) (c : LockCall) (k : Str) :
    IsText ((serveLock ls s c).1.lookup k) := by
  have hserved : Served ls s (serveLock ls s c).1 k c := served hs c k
  cases hserved with
  | same _ hsame =>
    rw [hsame]
    exact hs k
  | grant key lockId ttlSeconds d hk hfree hset =>
    rw [hset]
    intro e he
    exact ⟨lockId, by rw [← Option.some.inj he]⟩
  | release key lockId hk hheld hgone =>
    rw [hgone]
    intro e he
    cases he
  | expire key lockId ttlSeconds hk hneg hheld hgone =>
    rw [hgone]
    intro e he
    cases he
  | renew key lockId ttlSeconds e d he hset =>
    rw [hset]
    intro e' he'
    rw [← Option.some.inj he']
    exact hs k e he

/-- Only a grant returns an id, the one that the call drew. -/
theorem serveLock_acquired {c : LockCall} {v : Str} (h : (serveLock ls s c).2 = .returned (.acquired (some v))) :
    c = .returned (.acquired (some v)) ∨
      ∃ key ttlSeconds, c = .acquiring key v ttlSeconds ∧ s.lookup (ls.name key) = none ∧
        stringOf ((serveLock ls s c).1.lookup (ls.name key)) = some v := by
  cases c with
  | returned r => exact Or.inl h
  | absent => cases h
  | acquiring key lockId ttlSeconds =>
    right
    rcases setNxEx_cases s.now ttlSeconds lockId (s.lookup (ls.name key)) with ⟨hok, hfree, d, hd, hslot⟩ | ⟨hno, _⟩
    · have hreply : (s.onKey (ls.name key) (setNxEx s.now ttlSeconds lockId)).1 = .ok true := hok
      have hlookup : (serveLock ls s (.acquiring key lockId ttlSeconds)).1.lookup (ls.name key) =
          some ⟨.string lockId, some d⟩ := by
        refine lookup_onKey_self s hslot ?_
        intro e he
        rw [← Option.some.inj he]
        exact decide_eq_true hd
      dsimp only [serveLock] at h
      rw [hreply] at h
      cases h
      refine ⟨key, ttlSeconds, rfl, hfree, ?_⟩
      rw [hlookup]
      rfl
    · have hreply : (s.onKey (ls.name key) (setNxEx s.now ttlSeconds lockId)).1 ≠ .ok true := hno
      dsimp only [serveLock] at h
      cases hr : (s.onKey (ls.name key) (setNxEx s.now ttlSeconds lockId)).1 with
      | error e =>
        rw [hr] at h
        cases h
      | ok b =>
        cases b with
        | true => exact absurd hr hreply
        | false =>
          rw [hr] at h
          cases h
  | releasing key lockId =>
    dsimp only [serveLock] at h
    split at h
    · cases h
    · cases h
  | renewing key lockId ttlSeconds =>
    dsimp only [serveLock] at h
    split at h
    · cases h
    · cases h

theorem serveLock_foreign (hs : ∀ k, IsText (s.lookup k)) {key lockId : Str}
    (h : stringOf (s.lookup (ls.name key)) ≠ some lockId) :
    (serveLock ls s (.releasing key lockId)).2 = .returned (.flag false) ∧
      ∀ k, (serveLock ls s (.releasing key lockId)).1.lookup k = s.lookup k := by
  have hcommand := checkAndDelete_of_isText (hs (ls.name key)) lockId
  rw [if_neg h] at hcommand
  have hreply : (s.onKey (ls.name key) (checkAndDelete lockId)).1 = .ok 0 := by
    rw [Server.onKey, hcommand]
  refine ⟨?_, lookup_onKey_same s (by rw [hcommand])⟩
  dsimp only [serveLock]
  rw [hreply]
  rfl

theorem serveLock_foreign_renewing (hs : ∀ k, IsText (s.lookup k)) {key lockId : Str} {ttlSeconds : Int}
    (h : stringOf (s.lookup (ls.name key)) ≠ some lockId) :
    (serveLock ls s (.renewing key lockId ttlSeconds)).2 = .returned (.flag false) ∧
      ∀ k, (serveLock ls s (.renewing key lockId ttlSeconds)).1.lookup k = s.lookup k := by
  have hcommand := checkAndExpire_of_isText (hs (ls.name key)) s.now lockId ttlSeconds h
  have hreply : (s.onKey (ls.name key) (checkAndExpire s.now lockId ttlSeconds)).1 = .ok 0 := by
    rw [Server.onKey, hcommand]
  refine ⟨?_, lookup_onKey_same s (by rw [hcommand])⟩
  dsimp only [serveLock]
  rw [hreply]
  rfl

/-- A renewal by the holder moves the deadline. -/
theorem serveLock_renewing {key lockId : Str} {ttlSeconds : Int}
    (h : stringOf (s.lookup (ls.name key)) = some lockId) (hpos : 0 < ttlSeconds)
    (hvalid : validExpire s.now ttlSeconds = true) :
    (serveLock ls s (.renewing key lockId ttlSeconds)).2 = .returned (.flag true) ∧
      (serveLock ls s (.renewing key lockId ttlSeconds)).1.lookup (ls.name key) =
        some ⟨.string lockId, some (s.now + (1000 * ttlSeconds).toNat)⟩ := by
  have hcommand : checkAndExpire s.now lockId ttlSeconds (s.lookup (ls.name key)) =
      (.ok 1, some ⟨.string lockId, some (s.now + (1000 * ttlSeconds).toNat)⟩) := by
    cases hl : s.lookup (ls.name key) with
    | none =>
      rw [hl] at h
      cases h
    | some e =>
      rw [hl] at h
      obtain ⟨value, deadline⟩ := e
      cases value with
      | list l => cases h
      | hash f => cases h
      | string v =>
        cases h
        simp only [checkAndExpire, Redis.get, Redis.expire, if_pos hvalid, if_pos hpos, if_true]
        rfl
  have hreply : (s.onKey (ls.name key) (checkAndExpire s.now lockId ttlSeconds)).1 = .ok 1 := by
    rw [Server.onKey, hcommand]
  constructor
  · dsimp only [serveLock]
    rw [hreply]
    rfl
  · refine lookup_onKey_self s (by rw [hcommand]) ?_
    intro e he
    rw [← Option.some.inj he]
    refine decide_eq_true ?_
    omega

end Serve

namespace LockState
variable {ls} {s : LockState} {ev : LockEvent}

/-! ## The invariant -/

/-- The id that a call has drawn, or that it has returned. -/
def drawn : LockCall → Option Str
  | .acquiring _ lockId _ => some lockId
  | .returned (.acquired lockId) => lockId
  | _ => none

structure Inv (ls : LockSpace) (s : LockState) : Prop where
  text : ∀ k, IsText (s.server.lookup k)
  drawn : ∀ i v, drawn (s.calls i) = some v → v = ls.lockId i

theorem inv_start (now : Nat) : Inv ls (start now) := by
  constructor
  · intro k e he
    cases he
  · intro i v hv
    cases hv

theorem drawn_serveLock {server : Server Str Data} {c : LockCall} {v : Str}
    (h : drawn (serveLock ls server c).2 = some v) : drawn c = some v := by
  cases c with
  | returned r => exact h
  | absent => exact h
  | acquiring key lockId ttlSeconds =>
    dsimp only [serveLock] at h
    split at h
    · exact h
    · exact h
    · cases h
  | releasing key lockId =>
    dsimp only [serveLock] at h
    split at h
    · cases h
    · cases h
  | renewing key lockId ttlSeconds =>
    dsimp only [serveLock] at h
    split at h
    · cases h
    · cases h

theorem isText_advance (h : ∀ k, IsText (s.server.lookup k)) (d : Nat) (k : Str) :
    IsText ((s.server.advance d).lookup k) := by
  intro e he
  exact h k e (Server.lookup_of_lookup_advance he)

/-- A call changes only its own entry. -/
theorem drawn_update {c : LockCall} {i : Nat} (h : ∀ j v, drawn (s.calls j) = some v → v = ls.lockId j)
    (hc : ∀ v, drawn c = some v → v = ls.lockId i) (j : Nat) (v : Str)
    (hv : drawn (Function.update s.calls i c j) = some v) : v = ls.lockId j := by
  by_cases hj : j = i
  · subst hj
    rw [Function.update_self] at hv
    exact hc v hv
  · rw [Function.update_of_ne hj] at hv
    exact h j v hv

theorem inv_step (h : Inv ls s) (ev : LockEvent) : Inv ls (s.step ls ev) := by
  cases ev with
  | advance d => exact ⟨isText_advance h.text d, h.drawn⟩
  | acquireLock key ttlSeconds =>
    refine ⟨h.text, drawn_update h.drawn ?_⟩
    intro v hv
    exact (Option.some.inj hv).symm
  | releaseLock key lockId =>
    refine ⟨h.text, drawn_update h.drawn ?_⟩
    intro v hv
    cases hv
  | renewLock key lockId ttlSeconds =>
    refine ⟨h.text, drawn_update h.drawn ?_⟩
    intro v hv
    cases hv
  | send i =>
    refine ⟨isText_serveLock h.text _, drawn_update h.drawn ?_⟩
    intro v hv
    exact h.drawn i v (drawn_serveLock hv)
  | giveUp i =>
    dsimp only [step]
    split
    · refine ⟨h.text, drawn_update h.drawn ?_⟩
      intro v hv
      cases hv
    · exact h
  | crash i wasServed =>
    refine ⟨?_, drawn_update h.drawn ?_⟩
    · cases wasServed with
      | true => exact isText_serveLock h.text _
      | false => exact h.text
    · intro v hv
      cases hcall : s.calls i with
      | returned r =>
        rw [hcall] at hv
        refine h.drawn i v ?_
        rw [hcall]
        exact hv
      | acquiring key lockId ttlSeconds =>
        rw [hcall] at hv
        cases hv
      | releasing key lockId =>
        rw [hcall] at hv
        cases hv
      | renewing key lockId ttlSeconds =>
        rw [hcall] at hv
        cases hv
      | absent =>
        rw [hcall] at hv
        cases hv

theorem inv_run (now : Nat) (events : List LockEvent) : Inv ls (run (step ls) (start now) events) :=
  run_invariant (Inv ls) (fun _ ev h => inv_step h ev) events (inv_start now)

/-! ## Steps -/

/-- Only a served request makes `acquire_lock` return an id. -/
theorem acquired_of_step {i : Nat} {v : Str} (h : (s.step ls ev).calls i = .returned (.acquired (some v))) :
    s.calls i = .returned (.acquired (some v)) ∨
      (ev = .send i ∧ (serveLock ls s.server (s.calls i)).2 = .returned (.acquired (some v))) := by
  have hupdate : ∀ (j : Nat) (c : LockCall), c ≠ .returned (.acquired (some v)) →
      Function.update s.calls j c i = .returned (.acquired (some v)) → s.calls i = .returned (.acquired (some v)) := by
    intro j c hc hi
    by_cases hij : i = j
    · subst hij
      rw [Function.update_self] at hi
      exact absurd hi hc
    · rw [Function.update_of_ne hij] at hi
      exact hi
  cases ev with
  | advance d => exact Or.inl h
  | acquireLock key ttlSeconds => exact Or.inl (hupdate s.next _ (by intro hc; cases hc) h)
  | releaseLock key lockId => exact Or.inl (hupdate s.next _ (by intro hc; cases hc) h)
  | renewLock key lockId ttlSeconds => exact Or.inl (hupdate s.next _ (by intro hc; cases hc) h)
  | send j =>
    by_cases hij : i = j
    · subst hij
      refine Or.inr ⟨rfl, ?_⟩
      dsimp only [step] at h
      rw [Function.update_self] at h
      exact h
    · dsimp only [step] at h
      rw [Function.update_of_ne hij] at h
      exact Or.inl h
  | giveUp j =>
    left
    dsimp only [step] at h
    split at h
    · exact hupdate j _ (by intro hc; cases hc) h
    · exact h
  | crash j wasServed =>
    left
    dsimp only [step] at h
    by_cases hij : i = j
    · subst hij
      rw [Function.update_self] at h
      cases hcall : s.calls i with
      | returned r =>
        rw [hcall] at h
        exact h
      | acquiring key lockId ttlSeconds =>
        rw [hcall] at h
        cases h
      | releasing key lockId =>
        rw [hcall] at h
        cases h
      | renewing key lockId ttlSeconds =>
        rw [hcall] at h
        cases h
      | absent =>
        rw [hcall] at h
        cases h
    · rw [Function.update_of_ne hij] at h
      exact h

theorem send_calls (i : Nat) : (s.step ls (.send i)).calls i = (serveLock ls s.server (s.calls i)).2 :=
  Function.update_self _ _ _

theorem safe_step (h : Inv ls s) (ev : LockEvent) : SafeStep ls s ev where
  unique := by
    intro key i j v w hi hj hv hw
    have hafter := inv_step h ev
    have hdrawn : v = ls.lockId i := hafter.drawn i v (by rw [hi]; rfl)
    have hdrawn' : w = ls.lockId j := hafter.drawn j w (by rw [hj]; rfl)
    have hvw : v = w := Option.some.inj (hv.symm.trans hw)
    rw [hdrawn, hdrawn'] at hvw
    exact ls.unique hvw
  granted := by
    intro i key lockId ttlSeconds v hcall hreturned
    rcases acquired_of_step hreturned with hbefore | ⟨rfl, hserve⟩
    · rw [hcall] at hbefore
      cases hbefore
    · rw [hcall] at hserve
      rcases serveLock_acquired hserve with hreturned' | ⟨key', ttlSeconds', hacquiring, hfree, hset⟩
      · cases hreturned'
      · cases hacquiring
        refine ⟨rfl, ?_, ?_⟩
        · rw [holder, hfree]
          rfl
        · rw [holder, step, hcall]
          exact hset
  refused := by
    rintro i rfl hforeign
    have hboth : (serveLock ls s.server (s.calls i)).2 = .returned (.flag false) ∧
        ∀ k, (serveLock ls s.server (s.calls i)).1.lookup k = s.server.lookup k := by
      cases hcall : s.calls i with
      | releasing key lockId =>
        rw [hcall] at hforeign
        exact serveLock_foreign h.text hforeign
      | renewing key lockId ttlSeconds =>
        rw [hcall] at hforeign
        exact serveLock_foreign_renewing h.text hforeign
      | acquiring key lockId ttlSeconds =>
        rw [hcall] at hforeign
        exact hforeign.elim
      | returned r =>
        rw [hcall] at hforeign
        exact hforeign.elim
      | absent =>
        rw [hcall] at hforeign
        exact hforeign.elim
    refine ⟨(send_calls i).trans hboth.1, ?_⟩
    intro key
    constructor
    · exact congrArg stringOf (hboth.2 _)
    · exact congrArg deadlineOf (hboth.2 _)
  renewed := by
    rintro i key lockId ttlSeconds rfl hcall hholder hpos hvalid
    have hrenewed := serveLock_renewing hholder hpos hvalid
    rw [send_calls, hcall]
    refine ⟨hrenewed.1, ?_, ?_⟩
    · rw [holder, step, hcall, hrenewed.2]
      rfl
    · rw [deadline, step, hcall, hrenewed.2]
      rfl

/-- A step keeps a holder whose lock does not expire and who does not give it up. -/
theorem holder_step (h : Inv ls s) {key lockId : Str} (hkept : KeptAlive ls key lockId s ev)
    (hholder : s.holder ls key = some lockId) : (s.step ls ev).holder ls key = some lockId := by
  cases ev with
  | advance d =>
    cases hl : s.server.lookup (ls.name key) with
    | none =>
      rw [holder, hl] at hholder
      cases hholder
    | some e =>
      have hlater : (s.server.advance d).lookup (ls.name key) = some e := by
        refine Server.lookup_advance hl ?_
        intro t ht
        refine hkept t ?_
        rw [deadline, hl]
        exact ht
      rw [holder, hl] at hholder
      rw [holder, step, hlater]
      exact hholder
  | acquireLock key' ttlSeconds => exact hholder
  | releaseLock key' lockId' => exact hholder
  | renewLock key' lockId' ttlSeconds => exact hholder
  | send i => exact holder_serveLock h.text hkept hholder
  | giveUp i =>
    dsimp only [step]
    split
    · exact hholder
    · exact hholder
  | crash i wasServed =>
    cases wasServed with
    | true => exact holder_serveLock h.text hkept hholder
    | false => exact hholder

end LockState

end Calls

end IsaCloud.Cache
