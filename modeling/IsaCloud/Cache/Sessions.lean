import IsaCloud.Cache.RedisClient
import IsaCloud.Support.Runs

/-!
# Sessions

`create_session`, `get_session` and `delete_session` of the Redis client.
`create_session` writes the hash with one request and its deadline with another.
Any number of calls of one tenant run next to each other; a request is served or
fails without being applied, a call may stop before any of its requests, and time
passes between the steps.
-/

namespace IsaCloud.Cache

set_option autoImplicit false

open Support Support.Text Support.Redis

/-! ## Calls -/

/-- `HSET` of a mapping. The reply counts the fields that are new. -/
def hsetMapping (data : Dict Str Str) (slot : Slot) : Except Failure Int × Slot :=
  match hashOf slot with
  | .error e => (.error e, slot)
  | .ok h => (.ok (data.keys.countP fun field => (h field).isNone),
      some ⟨.hash fun field => (data.get field).or (h field), deadlineOf slot⟩)

/-- What a call returns; `none` is also what `handle_error` makes of an exception. -/
inductive SessionReply where
  | created (sessionId : Str)
  | data (fields : Str → Option Str)
  | flag (b : Bool)
  | none

inductive SessionCall where
  /-- In `create_session`, before the HSET. -/
  | creating (sessionId : Str) (data : Dict Str Str) (ttlSeconds : Int)
  /-- In `create_session`, before the EXPIRE. -/
  | expiring (sessionId : Str) (data : Dict Str Str) (ttlSeconds : Int)
  | getting (sessionId : Str)
  | deleting (sessionId : Str)
  | returned (r : SessionReply)
  /-- Not begun, or stopped. -/
  | absent

/-- The tenant of the calls, and the ids that the `create_session` calls draw: UUIDs, of hexadecimal digits and
dashes. -/
structure SessionSpace where
  tenant : Tenant
  sessionId : Nat → Str
  unique : Function.Injective sessionId
  plain : ∀ i, cp ':' ∉ sessionId i

/-- `_prefix_key(f"session:{session_id}")`. -/
def SessionSpace.name (ss : SessionSpace) (sessionId : Str) : Str := ss.tenant.prefixKey (lit "session:" ++ sessionId)

structure SessionState where
  server : Server Str Data
  next : Nat
  calls : Nat → SessionCall

inductive SessionEvent where
  | advance (milliseconds : Nat)
  | createSession (data : Dict Str Str) (ttlSeconds : Int)
  | getSession (sessionId : Str)
  | deleteSession (sessionId : Str)
  /-- The next request of a call is served. -/
  | send (i : Nat)
  /-- The next request of a call raises an exception. -/
  | fail (i : Nat)
  /-- The process stops before the next request of a call. -/
  | stop (i : Nat)

/-- The texts of a request can be encoded. -/
def sendable (texts : List Str) : Bool := texts.all encodable

/-- The library refuses an empty mapping. -/
def mappable (k : Str) (data : Dict Str Str) : Bool :=
  !data.entries.isEmpty && sendable (k :: data.entries.flatMap fun e => [e.1, e.2])

/-- `get_session` after the reply to its HGETALL. A hash on the server has a field. -/
def SessionReply.ofHash : Slot → SessionReply
  | some ⟨.hash h, _⟩ => data h
  | _ => none

section Calls
variable (ss : SessionSpace)

/-- A request is served: what the server holds then, and where the call goes. -/
def serveSession (s : Server Str Data) : SessionCall → Server Str Data × SessionCall
  | .creating sessionId data ttlSeconds =>
    if mappable (ss.name sessionId) data then
      ((s.onKey (ss.name sessionId) (hsetMapping data)).2,
        match (s.onKey (ss.name sessionId) (hsetMapping data)).1 with
        | .ok _ => .expiring sessionId data ttlSeconds
        | .error _ => .returned .none)
    else (s, .returned .none)
  | .expiring sessionId _ ttlSeconds =>
    ((s.onKey (ss.name sessionId) (Redis.expire s.now ttlSeconds)).2,
      match (s.onKey (ss.name sessionId) (Redis.expire s.now ttlSeconds)).1 with
      | .ok _ => .returned (.created sessionId)
      | .error _ => .returned .none)
  | .getting sessionId =>
    if sendable [ss.name sessionId] then (s, .returned (.ofHash (s.lookup (ss.name sessionId))))
    else (s, .returned .none)
  | .deleting sessionId =>
    if sendable [ss.name sessionId] then
      ((s.onKey (ss.name sessionId) del).2,
        match (s.onKey (ss.name sessionId) del).1 with
        | .ok n => .returned (.flag (decide (0 < n)))
        | .error _ => .returned .none)
    else (s, .returned .none)
  | .returned r => (s, .returned r)
  | .absent => (s, .absent)

/-- The `except` clauses. -/
def SessionCall.failed : SessionCall → SessionCall
  | .returned r => .returned r
  | .absent => .absent
  | _ => .returned .none

/-- A call that has returned does not stop. -/
def SessionCall.stopped : SessionCall → SessionCall
  | .returned r => .returned r
  | _ => .absent

namespace SessionState

def start (now : Nat) : SessionState := ⟨Server.empty now, 0, fun _ => .absent⟩

def begin (s : SessionState) (c : SessionCall) : SessionState :=
  { s with next := s.next + 1, calls := Function.update s.calls s.next c }

def step (s : SessionState) : SessionEvent → SessionState
  | .advance d => { s with server := s.server.advance d }
  | .createSession data ttlSeconds => s.begin (.creating (ss.sessionId s.next) data ttlSeconds)
  | .getSession sessionId => s.begin (.getting sessionId)
  | .deleteSession sessionId => s.begin (.deleting sessionId)
  | .send i =>
    { s with
      server := (serveSession ss s.server (s.calls i)).1
      calls := Function.update s.calls i (serveSession ss s.server (s.calls i)).2 }
  | .fail i => { s with calls := Function.update s.calls i (s.calls i).failed }
  | .stop i => { s with calls := Function.update s.calls i (s.calls i).stopped }

/-- What Redis holds of a session. -/
def session (s : SessionState) (sessionId : Str) : Slot := s.server.lookup (ss.name sessionId)

/-- A session has a deadline, unless its `create_session` is about to set it. Redis holds nothing but sessions. -/
def Mortal (s : SessionState) : Prop :=
  ∀ k e, s.server.lookup k = some e →
    e.deadline ≠ none ∨ ∃ i sessionId data ttlSeconds, s.calls i = .expiring sessionId data ttlSeconds ∧ ss.name sessionId = k

/-- What is promised of one step. -/
structure SafeStep (s : SessionState) (ev : SessionEvent) : Prop where
  mortal : (s.step ss ev).Mortal ss
  /-- A call that returns an id has written its data under it, with the deadline it was asked for. -/
  created : ∀ i sessionId, (s.step ss ev).calls i = .returned (.created sessionId) →
    s.calls i = .returned (.created sessionId) ∨
      ∃ data ttlSeconds, s.calls i = .expiring sessionId data ttlSeconds ∧
        (s.step ss ev).session ss sessionId = some ⟨.hash data.get, some (s.server.now + (1000 * ttlSeconds).toNat)⟩

/-- A `create_session` between its two requests goes on to the EXPIRE, which is served, with a ttl of one second at least
that the server takes; if the session was deleted meanwhile, it does not come to set a deadline. -/
def Completes (s : SessionState) : SessionEvent → Prop
  | .send i => ∀ sessionId data ttlSeconds, s.calls i = .expiring sessionId data ttlSeconds →
      (s.session ss sessionId ≠ none → 0 < ttlSeconds ∧ validExpire s.server.now ttlSeconds = true) ∧
        (s.session ss sessionId = none → validExpire s.server.now ttlSeconds = false)
  | .fail i => ∀ sessionId data ttlSeconds, s.calls i = .expiring sessionId data ttlSeconds → s.session ss sessionId = none
  | .stop i => ∀ sessionId data ttlSeconds, s.calls i = .expiring sessionId data ttlSeconds → s.session ss sessionId = none
  | _ => True

end SessionState

end Calls

/-! ## Names -/

theorem SessionSpace.name_sessionId (ss : SessionSpace) (i : Nat) :
    ss.name (ss.sessionId i) = ss.tenant.getKeyPrefix ++ (lit "session:" ++ ss.sessionId i) := by
  rw [name, Tenant.prefixKey, if_neg]
  intro hprefix
  -- The prefix has two colons, the key one.
  have hcount := hprefix.sublist.count_le (cp ':')
  have hid : (ss.sessionId i).count (cp ':') = 0 := List.count_eq_zero.mpr (ss.plain i)
  have hsession : (lit "session:").count (cp ':') = 1 := by decide
  have hseparator : tenantSeparator.count (cp ':') = 1 := by decide
  simp only [Tenant.getKeyPrefix, List.count_append, hid, hsession, hseparator] at hcount
  omega

theorem SessionSpace.name_injective (ss : SessionSpace) {i j : Nat}
    (h : ss.name (ss.sessionId i) = ss.name (ss.sessionId j)) : i = j := by
  rw [ss.name_sessionId, ss.name_sessionId] at h
  exact ss.unique (List.append_cancel_left (List.append_cancel_left h))

/-! ## Serving a call -/

section Serve
variable {ss : SessionSpace} {s : Server Str Data}

/-- A served request leaves a key as it is, or deletes it, or is one of `create_session` on the key. -/
theorem lookup_serveSession (c : SessionCall) (k : Str) :
    (serveSession ss s c).1.lookup k = s.lookup k ∨ (serveSession ss s c).1.lookup k = none ∨
      ∃ sessionId data ttlSeconds, (c = .creating sessionId data ttlSeconds ∨ c = .expiring sessionId data ttlSeconds) ∧
        k = ss.name sessionId := by
  cases c with
  | creating sessionId data ttlSeconds =>
    by_cases hk : k = ss.name sessionId
    · exact .inr (.inr ⟨sessionId, data, ttlSeconds, .inl rfl, hk⟩)
    · left
      rw [serveSession]
      split
      · exact lookup_onKey_of_ne s hk
      · rfl
  | expiring sessionId data ttlSeconds =>
    by_cases hk : k = ss.name sessionId
    · exact .inr (.inr ⟨sessionId, data, ttlSeconds, .inr rfl, hk⟩)
    · exact .inl (lookup_onKey_of_ne s hk)
  | getting sessionId =>
    left
    rw [serveSession]
    split
    · rfl
    · rfl
  | deleting sessionId =>
    rw [serveSession]
    split
    · by_cases hk : k = ss.name sessionId
      · subst hk
        exact .inr (.inl (lookup_onKey_self s rfl fun e he => nomatch he))
      · exact .inl (lookup_onKey_of_ne s hk)
    · exact .inl rfl
  | returned r => exact .inl rfl
  | absent => exact .inl rfl

/-- The HSET of a new session is refused, or writes the data without a deadline. -/
theorem serveSession_creating {sessionId : Str} (data : Dict Str Str) (ttlSeconds : Int)
    (h : s.lookup (ss.name sessionId) = none) :
    ((serveSession ss s (.creating sessionId data ttlSeconds)).1 = s ∧
        (serveSession ss s (.creating sessionId data ttlSeconds)).2 = .returned .none) ∨
      ((serveSession ss s (.creating sessionId data ttlSeconds)).1.lookup (ss.name sessionId) = some ⟨.hash data.get, none⟩ ∧
        (serveSession ss s (.creating sessionId data ttlSeconds)).2 = .expiring sessionId data ttlSeconds) := by
  rw [serveSession]
  split
  · right
    have hcommand : hsetMapping data (s.lookup (ss.name sessionId)) =
        (.ok (data.keys.countP fun _ => true), some ⟨.hash data.get, none⟩) := by
      rw [h]
      simp only [hsetMapping, hashOf, Option.or_none, Option.isNone_none]
      rfl
    have hreply : (s.onKey (ss.name sessionId) (hsetMapping data)).1 = .ok (data.keys.countP fun _ => true) := by
      rw [Server.onKey, hcommand]
    refine ⟨lookup_onKey_self s (by rw [hcommand]) ?_, ?_⟩
    · intro e he
      rw [← Option.some.inj he]
      rfl
    · dsimp only
      rw [hreply]
  · exact .inl ⟨rfl, rfl⟩

/-- The EXPIRE of a session: what it leaves, and whether the call returns the id. -/
theorem serveSession_expiring (sessionId : Str) (data : Dict Str Str) (ttlSeconds : Int) :
    ((serveSession ss s (.expiring sessionId data ttlSeconds)).2 =
        if validExpire s.now ttlSeconds then .returned (.created sessionId) else .returned .none) ∧
      (serveSession ss s (.expiring sessionId data ttlSeconds)).1.lookup (ss.name sessionId) =
        if validExpire s.now ttlSeconds then
          (s.lookup (ss.name sessionId)).bind fun e =>
            if 0 < ttlSeconds then some { e with deadline := some (s.now + (1000 * ttlSeconds).toNat) } else none
        else s.lookup (ss.name sessionId) := by
  have hcommand : Redis.expire s.now ttlSeconds (s.lookup (ss.name sessionId)) =
      if validExpire s.now ttlSeconds then
        (.ok (s.lookup (ss.name sessionId)).isSome,
          (s.lookup (ss.name sessionId)).bind fun e =>
            if 0 < ttlSeconds then some { e with deadline := some (s.now + (1000 * ttlSeconds).toNat) } else none)
      else (.error .invalidExpire, s.lookup (ss.name sessionId)) := by
    unfold Redis.expire
    congr 1
    cases s.lookup (ss.name sessionId) with
    | none => rfl
    | some e =>
      rw [Option.bind_some]
      dsimp only
      split
      · rfl
      · rfl
  rw [serveSession]
  by_cases hvalid : validExpire s.now ttlSeconds = true
  · rw [if_pos hvalid] at hcommand ⊢
    rw [if_pos hvalid]
    have hreply : (s.onKey (ss.name sessionId) (Redis.expire s.now ttlSeconds)).1 =
        .ok (s.lookup (ss.name sessionId)).isSome := by rw [Server.onKey, hcommand]
    refine ⟨by rw [hreply], lookup_onKey_self s (by rw [hcommand]) ?_⟩
    intro e' he'
    obtain ⟨e, he, hkept⟩ := Option.bind_eq_some_iff.mp he'
    split at hkept
    · rename_i hpos
      rw [← Option.some.inj hkept]
      refine decide_eq_true ?_
      omega
    · cases hkept
  · rw [if_neg hvalid] at hcommand ⊢
    rw [if_neg hvalid]
    have hreply : (s.onKey (ss.name sessionId) (Redis.expire s.now ttlSeconds)).1 = .error .invalidExpire := by
      rw [Server.onKey, hcommand]
    exact ⟨by rw [hreply], lookup_onKey_same s (by rw [hcommand]) _⟩

/-- Only the EXPIRE makes a call return an id. -/
theorem serveSession_created {c : SessionCall} {sessionId : Str}
    (h : (serveSession ss s c).2 = .returned (.created sessionId)) :
    c = .returned (.created sessionId) ∨ ∃ data ttlSeconds, c = .expiring sessionId data ttlSeconds := by
  cases c with
  | creating sessionId' data ttlSeconds =>
    rw [serveSession] at h
    split at h
    · dsimp only at h
      split at h
      · cases h
      · cases h
    · cases h
  | expiring sessionId' data ttlSeconds =>
    rw [(serveSession_expiring sessionId' data ttlSeconds).1] at h
    split at h
    · cases h
      exact .inr ⟨data, ttlSeconds, rfl⟩
    · cases h
  | getting sessionId' =>
    rw [serveSession] at h
    split at h
    · rw [SessionReply.ofHash.eq_def] at h
      dsimp only at h
      split at h
      · cases h
      · cases h
    · cases h
  | deleting sessionId' =>
    rw [serveSession] at h
    split at h
    · dsimp only at h
      split at h
      · cases h
      · cases h
    · cases h
  | returned r => exact .inl h
  | absent => cases h

end Serve

/-! ## The invariant -/

/-- The id of a `create_session` call is its own, and under it Redis holds nothing before the HSET, and nothing but the
data without a deadline after it. -/
def Own (ss : SessionSpace) (server : Server Str Data) (i : Nat) : SessionCall → Prop
  | .creating sessionId _ _ => sessionId = ss.sessionId i ∧ server.lookup (ss.name sessionId) = none
  | .expiring sessionId data _ =>
    sessionId = ss.sessionId i ∧ ∀ e, server.lookup (ss.name sessionId) = some e → e = ⟨.hash data.get, none⟩
  | _ => True

theorem Own.shrink {ss : SessionSpace} {server server' : Server Str Data} {i : Nat} {c : SessionCall}
    (h : Own ss server i c) (hkey : server'.lookup (ss.name (ss.sessionId i)) = server.lookup (ss.name (ss.sessionId i)) ∨
      server'.lookup (ss.name (ss.sessionId i)) = none) : Own ss server' i c := by
  cases c with
  | creating sessionId data ttlSeconds =>
    obtain ⟨rfl, hfree⟩ := h
    refine ⟨rfl, ?_⟩
    rcases hkey with hsame | hgone
    · rw [hsame, hfree]
    · exact hgone
  | expiring sessionId data ttlSeconds =>
    obtain ⟨rfl, hdata⟩ := h
    refine ⟨rfl, ?_⟩
    intro e he
    rcases hkey with hsame | hgone
    · exact hdata e (hsame ▸ he)
    · rw [hgone] at he
      cases he
  | getting sessionId => trivial
  | deleting sessionId => trivial
  | returned r => trivial
  | absent => trivial

theorem own_update {ss : SessionSpace} {server : Server Str Data} {calls : Nat → SessionCall} {i : Nat} {c : SessionCall}
    (hc : Own ss server i c) (hrest : ∀ j, j ≠ i → Own ss server j (calls j)) (j : Nat) :
    Own ss server j (Function.update calls i c j) := by
  by_cases hji : j = i
  · subst hji
    rw [Function.update_self]
    exact hc
  · rw [Function.update_of_ne hji]
    exact hrest j hji

namespace SessionState
variable {ss : SessionSpace} {s : SessionState} {ev : SessionEvent}

structure Inv (ss : SessionSpace) (s : SessionState) : Prop where
  begun : ∀ i, s.next ≤ i → s.calls i = .absent
  fresh : ∀ i, s.next ≤ i → s.session ss (ss.sessionId i) = none
  own : ∀ i, Own ss s.server i (s.calls i)

theorem inv_start (now : Nat) : Inv ss (start now) := ⟨fun _ _ => rfl, fun _ _ => rfl, fun _ => trivial⟩

theorem inv_begin (h : Inv ss s) {c : SessionCall} (hc : Own ss s.server s.next c) : Inv ss (s.begin c) where
  begun := by
    intro i hi
    have hlater : s.next + 1 ≤ i := hi
    exact (Function.update_of_ne (by omega) _ _).trans (h.begun i (by omega))
  fresh := by
    intro i hi
    have hlater : s.next + 1 ≤ i := hi
    exact h.fresh i (by omega)
  own := own_update hc fun i _ => h.own i

/-- One call goes on, and nothing is written but under its own id. -/
theorem inv_update (h : Inv ss s) {i : Nat} {c : SessionCall} {server : Server Str Data}
    (habsent : s.calls i = .absent → c = .absent) (hc : Own ss server i c)
    (hkeys : ∀ j, j ≠ i ∨ s.calls i = .absent →
      server.lookup (ss.name (ss.sessionId j)) = s.server.lookup (ss.name (ss.sessionId j)) ∨
        server.lookup (ss.name (ss.sessionId j)) = none) :
    Inv ss { s with server := server, calls := Function.update s.calls i c } where
  begun := by
    intro j hj
    by_cases hji : j = i
    · subst hji
      exact (Function.update_self _ _ _).trans (habsent (h.begun j hj))
    · exact (Function.update_of_ne hji _ _).trans (h.begun j hj)
  fresh := by
    intro j hj
    have hfree := h.fresh j hj
    have hside : j ≠ i ∨ s.calls i = .absent := by
      by_cases hji : j = i
      · exact .inr (hji ▸ h.begun j hj)
      · exact .inl hji
    rcases hkeys j hside with hsame | hgone
    · exact hsame.trans hfree
    · exact hgone
  own := own_update hc fun j hji => (h.own j).shrink (hkeys j (.inl hji))

theorem own_serveSession {i : Nat} {c : SessionCall} (hc : Own ss s.server i c) :
    Own ss (serveSession ss s.server c).1 i (serveSession ss s.server c).2 := by
  cases c with
  | creating sessionId data ttlSeconds =>
    obtain ⟨hid, hfree⟩ := hc
    rcases serveSession_creating data ttlSeconds hfree with ⟨_, hreply⟩ | ⟨hwritten, hreply⟩
    · rw [hreply]
      trivial
    · rw [hreply]
      refine ⟨hid, ?_⟩
      intro e he
      exact (Option.some.inj (hwritten.symm.trans he)).symm
  | expiring sessionId data ttlSeconds =>
    rw [(serveSession_expiring sessionId data ttlSeconds).1]
    split
    · trivial
    · trivial
  | getting sessionId =>
    rw [serveSession]
    split
    · trivial
    · trivial
  | deleting sessionId =>
    rw [serveSession]
    split
    · trivial
    · trivial
  | returned r => trivial
  | absent => trivial

theorem inv_send (h : Inv ss s) (i : Nat) : Inv ss (s.step ss (.send i)) := by
  apply inv_update h
  · intro habsent
    rw [habsent]
    rfl
  · exact own_serveSession (h.own i)
  · intro j hj
    rcases lookup_serveSession (s.calls i) (ss.name (ss.sessionId j)) with hsame | hgone | ⟨sessionId, data, ttl, hcall, hname⟩
    · exact .inl hsame
    · exact .inr hgone
    · have hown := h.own i
      have hid : sessionId = ss.sessionId i := by
        rcases hcall with hcall | hcall
        · rw [hcall] at hown
          exact hown.1
        · rw [hcall] at hown
          exact hown.1
      rw [hid] at hname
      rcases hj with hji | habsent
      · exact absurd (ss.name_injective hname) hji
      · rw [habsent] at hcall
        rcases hcall with hcall | hcall
        · cases hcall
        · cases hcall

theorem inv_step (h : Inv ss s) (ev : SessionEvent) : Inv ss (s.step ss ev) := by
  cases ev with
  | advance d =>
    have hkeys : ∀ k, (s.server.advance d).lookup k = s.server.lookup k ∨ (s.server.advance d).lookup k = none := by
      intro k
      cases hk : (s.server.advance d).lookup k with
      | none => exact .inr rfl
      | some e => exact .inl (Server.lookup_of_lookup_advance hk).symm
    refine ⟨h.begun, ?_, fun i => (h.own i).shrink (hkeys _)⟩
    intro i hi
    rcases hkeys (ss.name (ss.sessionId i)) with hsame | hgone
    · exact hsame.trans (h.fresh i hi)
    · exact hgone
  | createSession data ttlSeconds => exact inv_begin h ⟨rfl, h.fresh s.next (Nat.le_refl _)⟩
  | getSession sessionId => exact inv_begin h trivial
  | deleteSession sessionId => exact inv_begin h trivial
  | send i => exact inv_send h i
  | fail i =>
    apply inv_update h
    · intro habsent
      rw [habsent]
      rfl
    · cases s.calls i <;> trivial
    · exact fun _ _ => .inl rfl
  | stop i =>
    apply inv_update h
    · intro habsent
      rw [habsent]
      rfl
    · cases s.calls i <;> trivial
    · exact fun _ _ => .inl rfl

/-! ## Steps -/

/-- A step that moves one call keeps the sessions mortal, if each one Redis holds then had its deadline or its
`create_session` before, or has it now, and the call leaves none without. -/
theorem mortal_update (hm : s.Mortal ss) {i : Nat} {c : SessionCall} {server : Server Str Data}
    (hkeys : ∀ k e, server.lookup k = some e → e.deadline ≠ none ∨
      (∃ sessionId data ttlSeconds, c = .expiring sessionId data ttlSeconds ∧ ss.name sessionId = k) ∨
        (s.server.lookup k = some e ∧
          ∀ sessionId data ttlSeconds, s.calls i = .expiring sessionId data ttlSeconds → ss.name sessionId ≠ k)) (next : Nat) :
    Mortal ss ⟨server, next, Function.update s.calls i c⟩ := by
  intro k e he
  rcases hkeys k e he with hdeadline | ⟨sessionId, data, ttl, rfl, hname⟩ | ⟨hbefore, hother⟩
  · exact .inl hdeadline
  · exact .inr ⟨i, sessionId, data, ttl, Function.update_self _ _ _, hname⟩
  · rcases hm k e hbefore with hdeadline | ⟨j, sessionId, data, ttl, hcall, hname⟩
    · exact .inl hdeadline
    · right
      have hji : j ≠ i := by
        rintro rfl
        exact hother sessionId data ttl hcall hname
      exact ⟨j, sessionId, data, ttl, (Function.update_of_ne hji _ _).trans hcall, hname⟩

/-- A `create_session` that ends without having set the deadline leaves its session without. -/
theorem not_mortal_update (h : Inv ss s) {i : Nat} {sessionId : Str} {data : Dict Str Str} {ttlSeconds : Int}
    (hcall : s.calls i = .expiring sessionId data ttlSeconds) {c : SessionCall} {server : Server Str Data}
    (hc : ∀ sessionId data ttlSeconds, c ≠ .expiring sessionId data ttlSeconds)
    (hkey : server.lookup (ss.name sessionId) = s.session ss sessionId) (hthere : s.session ss sessionId ≠ none)
    (next : Nat) : ¬ Mortal ss ⟨server, next, Function.update s.calls i c⟩ := by
  intro hm
  have hown := h.own i
  rw [hcall] at hown
  obtain ⟨rfl, hdata⟩ := hown
  obtain ⟨e, he⟩ := Option.ne_none_iff_exists'.mp hthere
  rcases hm _ e (hkey.trans he) with hdeadline | ⟨j, sessionId, data', ttl', hpending, hname⟩
  · rw [hdata e he] at hdeadline
    exact hdeadline rfl
  · by_cases hji : j = i
    · subst hji
      exact hc _ _ _ ((Function.update_self _ _ _).symm.trans hpending)
    · have hpending' := (Function.update_of_ne hji _ _).symm.trans hpending
      have hown' := h.own j
      rw [hpending'] at hown'
      rw [hown'.1] at hname
      exact hji (ss.name_injective hname)

/-- A call that does not come to return an id gives no new promise. -/
theorem created_update {i : Nat} {c : SessionCall} (hc : ∀ sessionId, c = .returned (.created sessionId) → s.calls i = c)
    {j : Nat} {sessionId : Str} (h : Function.update s.calls i c j = .returned (.created sessionId)) :
    s.calls j = .returned (.created sessionId) := by
  by_cases hji : j = i
  · subst hji
    rw [Function.update_self] at h
    exact (hc sessionId h).trans h
  · rw [Function.update_of_ne hji] at h
    exact h

/-- A call begins. -/
theorem safe_begin (h : Inv ss s) (hm : s.Mortal ss) {c : SessionCall}
    (hc : ∀ sessionId, c ≠ .returned (.created sessionId)) (hev : s.step ss ev = s.begin c) : SafeStep ss s ev where
  mortal := by
    rw [hev]
    apply mortal_update hm
    intro k e he
    refine .inr (.inr ⟨he, ?_⟩)
    intro sessionId data ttl hcall
    rw [h.begun s.next (Nat.le_refl _)] at hcall
    cases hcall
  created := by
    intro i sessionId hi
    rw [hev] at hi
    exact .inl (created_update (fun sessionId hcreated => absurd hcreated (hc sessionId)) hi)

/-- A call ends, by an exception or with the process. -/
theorem safe_drop_iff (h : Inv ss s) (hm : s.Mortal ss) {i : Nat} {c : SessionCall}
    (hdropped : ∀ r, c = .returned r → s.calls i = c ∨ r = .none)
    (hended : ∀ sessionId data ttlSeconds, c ≠ .expiring sessionId data ttlSeconds)
    (hev : s.step ss ev = { s with calls := Function.update s.calls i c }) :
    SafeStep ss s ev ↔ ∀ sessionId data ttlSeconds, s.calls i = .expiring sessionId data ttlSeconds →
      s.session ss sessionId = none := by
  constructor
  · intro hsafe sessionId data ttl hcall
    by_contra hthere
    have hmortal := hsafe.mortal
    rw [hev] at hmortal
    exact not_mortal_update h hcall hended rfl hthere s.next hmortal
  · intro hnone
    refine ⟨?_, ?_⟩
    · rw [hev]
      apply mortal_update hm
      intro k e he
      refine .inr (.inr ⟨he, ?_⟩)
      rintro sessionId data ttl hcall rfl
      have hgone := hnone sessionId data ttl hcall
      rw [session, he] at hgone
      cases hgone
    · intro j sessionId hj
      rw [hev] at hj
      refine .inl (created_update ?_ hj)
      intro id hcreated
      rcases hdropped _ hcreated with hsame | hno
      · exact hsame
      · cases hno

/-- A request other than an EXPIRE. -/
theorem safe_send (h : Inv ss s) (hm : s.Mortal ss) {i : Nat}
    (hcall : ∀ sessionId data ttlSeconds, s.calls i ≠ .expiring sessionId data ttlSeconds) :
    SafeStep ss s (.send i) where
  mortal := by
    apply mortal_update hm
    intro k e he
    rcases @lookup_serveSession ss s.server (s.calls i) k with hsame | hgone | ⟨sessionId, data, ttl, hcreate, rfl⟩
    · exact .inr (.inr ⟨hsame.symm.trans he, fun sessionId data ttl hex => absurd hex (hcall sessionId data ttl)⟩)
    · rw [hgone] at he
      cases he
    · have hcreating : s.calls i = .creating sessionId data ttl := hcreate.resolve_right (hcall sessionId data ttl)
      have hown := h.own i
      rw [hcreating] at hown he ⊢
      rcases serveSession_creating data ttl hown.2 with ⟨hrefused, _⟩ | ⟨_, hreply⟩
      · rw [hrefused, hown.2] at he
        cases he
      · exact .inr (.inl ⟨sessionId, data, ttl, hreply, rfl⟩)
  created := by
    intro j sessionId hj
    refine .inl (created_update ?_ hj)
    intro id hcreated
    rcases serveSession_created hcreated with hbefore | ⟨data, ttl, hex⟩
    · exact hbefore.trans hcreated.symm
    · exact absurd hex (hcall id data ttl)

/-- An EXPIRE that leaves nothing under the key of its session, or a deadline. -/
theorem mortal_expire (hm : s.Mortal ss) {i : Nat} {sessionId : Str} {data : Dict Str Str} {ttlSeconds : Int}
    (hcall : s.calls i = .expiring sessionId data ttlSeconds)
    (hafter : ∀ e, (serveSession ss s.server (.expiring sessionId data ttlSeconds)).1.lookup (ss.name sessionId) = some e →
      e.deadline ≠ none) : (s.step ss (.send i)).Mortal ss := by
  rw [step, hcall]
  apply mortal_update hm
  intro k e he
  by_cases hk : k = ss.name sessionId
  · subst hk
    exact .inl (hafter e he)
  · have hsame : (serveSession ss s.server (.expiring sessionId data ttlSeconds)).1.lookup k = s.server.lookup k :=
      lookup_onKey_of_ne s.server hk
    refine .inr (.inr ⟨hsame.symm.trans he, ?_⟩)
    rintro sessionId' data' ttl' hcall' rfl
    rw [hcall] at hcall'
    cases hcall'
    exact hk rfl

/-- The EXPIRE of a `create_session`. -/
theorem safe_expire_iff (h : Inv ss s) (hm : s.Mortal ss) {i : Nat} {sessionId : Str} {data : Dict Str Str}
    {ttlSeconds : Int} (hcall : s.calls i = .expiring sessionId data ttlSeconds) :
    SafeStep ss s (.send i) ↔
      (s.session ss sessionId ≠ none → 0 < ttlSeconds ∧ validExpire s.server.now ttlSeconds = true) ∧
        (s.session ss sessionId = none → validExpire s.server.now ttlSeconds = false) := by
  obtain ⟨hreply, hkey⟩ := @serveSession_expiring ss s.server sessionId data ttlSeconds
  have hstep : s.step ss (.send i) = ⟨(serveSession ss s.server (.expiring sessionId data ttlSeconds)).1, s.next,
      Function.update s.calls i (serveSession ss s.server (.expiring sessionId data ttlSeconds)).2⟩ := by
    rw [step, hcall]
  constructor
  · intro hsafe
    have hcreated := hsafe.created i sessionId
    have hmortal := hsafe.mortal
    rw [hstep] at hcreated hmortal
    by_cases hvalid : validExpire s.server.now ttlSeconds = true
    · rw [if_pos hvalid] at hreply hkey
      -- The id is returned, so the session has been there and has its deadline.
      rcases hcreated ((Function.update_self _ _ _).trans hreply) with hbefore | ⟨data', ttl', hcall', hsession⟩
      · rw [hcall] at hbefore
        cases hbefore
      · obtain ⟨e, he, hkept⟩ := Option.bind_eq_some_iff.mp (hkey.symm.trans hsession)
        split at hkept
        · rename_i hpos
          refine ⟨fun _ => ⟨hpos, hvalid⟩, ?_⟩
          intro hnone
          exact nomatch hnone.symm.trans he
        · cases hkept
    · rw [if_neg hvalid] at hreply hkey
      refine ⟨?_, fun _ => Bool.eq_false_iff.mpr hvalid⟩
      intro hthere
      rw [hreply] at hmortal
      exact absurd hmortal (not_mortal_update h hcall (by rintro _ _ _ ⟨⟩) hkey hthere s.next)
  · rintro ⟨hthere, hnone⟩
    have hown := h.own i
    rw [hcall] at hown
    cases hsession : s.session ss sessionId with
    | none =>
      rw [hnone hsession] at hreply hkey
      have hgone := hkey.trans hsession
      refine ⟨mortal_expire hm hcall ?_, ?_⟩
      · intro e he
        exact nomatch hgone.symm.trans he
      intro j id hj
      rw [hstep] at hj
      refine .inl (created_update ?_ hj)
      intro id' hcreated
      rw [hreply] at hcreated
      cases hcreated
    | some e =>
      obtain ⟨hpos, hvalid⟩ := hthere (by rw [hsession]; exact Option.some_ne_none e)
      have hdata := hown.2 e hsession
      have hwritten : (serveSession ss s.server (.expiring sessionId data ttlSeconds)).1.lookup (ss.name sessionId) =
          some ⟨.hash data.get, some (s.server.now + (1000 * ttlSeconds).toNat)⟩ := by
        rw [hkey, if_pos hvalid, ← session, hsession, Option.bind_some, if_pos hpos, hdata]
      constructor
      · apply mortal_expire hm hcall
        intro e' he'
        rw [← Option.some.inj (hwritten.symm.trans he')]
        exact Option.some_ne_none _
      · intro j id hj
        by_cases hji : j = i
        · subst hji
          rw [hstep] at hj
          have hid := (Function.update_self _ _ _).symm.trans hj
          rw [hreply, if_pos hvalid] at hid
          cases hid
          refine .inr ⟨data, ttlSeconds, hcall, ?_⟩
          rw [hstep]
          exact hwritten
        · rw [hstep] at hj
          exact .inl ((Function.update_of_ne hji _ _).symm.trans hj)

theorem safe_iff_completes (h : Inv ss s) (hm : s.Mortal ss) (ev : SessionEvent) :
    SafeStep ss s ev ↔ s.Completes ss ev := by
  cases ev with
  | advance d =>
    refine iff_of_true ⟨?_, fun i sessionId hi => .inl hi⟩ trivial
    intro k e he
    exact hm k e (Server.lookup_of_lookup_advance he)
  | createSession data ttl => exact iff_of_true (safe_begin h hm (by rintro _ ⟨⟩) rfl) trivial
  | getSession sessionId => exact iff_of_true (safe_begin h hm (by rintro _ ⟨⟩) rfl) trivial
  | deleteSession sessionId => exact iff_of_true (safe_begin h hm (by rintro _ ⟨⟩) rfl) trivial
  | send i =>
    by_cases hcall : ∃ sessionId data ttl, s.calls i = .expiring sessionId data ttl
    · obtain ⟨sessionId, data, ttl, hcall⟩ := hcall
      rw [safe_expire_iff h hm hcall]
      constructor
      · intro hserved sessionId' data' ttl' hcall'
        rw [hcall] at hcall'
        cases hcall'
        exact hserved
      · intro hcompletes
        exact hcompletes sessionId data ttl hcall
    · have hother : ∀ sessionId data ttl, s.calls i ≠ .expiring sessionId data ttl :=
        fun sessionId data ttl hex => hcall ⟨sessionId, data, ttl, hex⟩
      exact iff_of_true (safe_send h hm hother) fun sessionId data ttl hex => absurd hex (hother sessionId data ttl)
  | fail i =>
    apply safe_drop_iff h hm _ _ rfl
    · intro r hr
      cases hcall : s.calls i with
      | returned r' => exact .inl rfl
      | absent =>
        rw [hcall] at hr
        cases hr
      | creating | expiring | getting | deleting =>
        rw [hcall] at hr
        cases hr
        exact .inr rfl
    · intro sessionId data ttl hex
      cases hcall : s.calls i with
      | _ =>
        rw [hcall] at hex
        cases hex
  | stop i =>
    apply safe_drop_iff h hm _ _ rfl
    · intro r hr
      cases hcall : s.calls i with
      | returned r' => exact .inl rfl
      | creating | expiring | getting | deleting | absent =>
        rw [hcall] at hr
        cases hr
    · intro sessionId data ttl hex
      cases hcall : s.calls i with
      | _ =>
        rw [hcall] at hex
        cases hex

/-- In a run every session Redis holds keeps having a deadline once its `create_session` has ended, and an id is
returned with its session in place only, exactly when every `create_session` completes what it has begun. -/
theorem session_safe_iff (ss : SessionSpace) (now : Nat) (events : List SessionEvent) :
    Guarded (step ss) (SafeStep ss) (start now) events ↔ Guarded (step ss) (Completes ss) (start now) events := by
  apply guarded_congr fun s => Inv ss s ∧ s.Mortal ss
  · rintro s ev ⟨h, _⟩ hsafe
    exact ⟨inv_step h ev, hsafe.mortal⟩
  · rintro s ev ⟨h, hm⟩
    exact safe_iff_completes h hm ev
  · refine ⟨inv_start now, ?_⟩
    intro k e he
    cases he

end SessionState

/-! ## A request that fails -/

/-- One session of an hour whose EXPIRE fails. -/
def failedExpire : List SessionEvent := [.createSession (.set .empty (lit "user") (lit "u1")) 3600, .send 0, .fail 0]

def numbered : SessionSpace where
  tenant := ⟨lit "default-org", lit "default"⟩
  sessionId := natText
  unique := fun _ _ h => natText_injective h
  plain := by
    intro i hcolon
    have hdigit := isDigit_of_mem_natText hcolon
    exact absurd hdigit (by decide)

open SessionState in
theorem session_without_deadline : ¬ Guarded (step numbered) (SafeStep numbered) (start 0) failedExpire := by
  rintro ⟨-, -, hsafe, -⟩
  rcases hsafe.mortal (numbered.name (natText 0)) ⟨.hash _, none⟩ rfl with hdeadline | ⟨i, sessionId, data, ttl, hcall, -⟩
  · exact hdeadline rfl
  · cases i with
    | zero => cases hcall
    | succ i => cases hcall

end IsaCloud.Cache
