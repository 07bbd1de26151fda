import IsaCloud.Cache.Linked

/-!
# Runs of both clients

One step lemma: on linked stores a compatible call is answered alike and leaves
the stores linked. Equal answers along a whole run follow from the empty stores.
-/

namespace IsaCloud.Cache

set_option autoImplicit false

open Support Support.Text Support.Python Support.Encoding Support.Redis

/-! ## The server key by key -/

/-- The method reads and writes one key of the server, as `g` says. -/
structure SentOn (k : Str) (g : Slot → RedisReply × Slot) (s : Server Str Data)
    (r : RedisReply × Server Str Data) : Prop where
  reply : r.1 = (g (s.store k)).1
  here : r.2.store k = (g (s.store k)).2
  there : ∀ k', k' ≠ k → r.2.store k' = s.store k'

theorem lookup_of_live {s : Server Str Data} (h : ∀ k e, s.store k = some e → e.live s.now = true) (k : Str) :
    s.lookup k = s.store k := by
  cases hs : s.store k with
  | none => simp [Server.lookup, hs]
  | some e => simp [Server.lookup, hs, h k e hs]

theorem send_acts {R : Type} {s : Server Str Data} {k : Str} (hl : s.lookup k = s.store k)
    (texts : List Str) (command : Slot → Except Failure R × Slot) (failed : RedisReply)
    (reply : R → RedisReply) :
    SentOn k (sendSlot k texts command failed reply) s (send s k texts command failed reply) := by
  by_cases he : ((k :: texts).all encodable) = true
  · refine ⟨?_, ?_, ?_⟩
    · cases hc : (command (s.store k)).1 with
      | ok r => simp only [send, sendSlot, he, if_true, Server.onKey, hl, hc]
      | error e => simp only [send, sendSlot, he, if_true, Server.onKey, hl, hc]
    · simp only [send, sendSlot, he, if_true, Server.onKey, hl, Function.update_self]
    · intro k' hk
      simp only [send, he, if_true, Server.onKey, Function.update_of_ne hk]
  · refine ⟨?_, ?_, ?_⟩
    · simp only [send, sendSlot, he, Bool.false_eq_true, if_false]
    · simp only [send, sendSlot, he, Bool.false_eq_true, if_false]
    · intro k' hk
      simp only [send, he, Bool.false_eq_true, if_false]

/-- The key and the function on what the server holds there, for the methods on one key. -/
def RedisOp.touch (t : Tenant) (now : Nat) : RedisOp → Option (Str × (Slot → RedisReply × Slot))
  | .set key value ttlSeconds => some (t.prefixKey key, fun slot =>
      if 0 < ttlSeconds then
        sendSlot (t.prefixKey key) [value] (setex now ttlSeconds value) .none (fun _ => .bool true) slot
      else sendSlot (t.prefixKey key) [value] (Redis.set value) .none (fun _ => .bool true) slot)
  | .get key => some (t.prefixKey key, sendSlot (t.prefixKey key) [] Redis.get .none .ofStr)
  | .delete key => some (t.prefixKey key,
      sendSlot (t.prefixKey key) [] del .none fun n => .bool (decide (0 < n)))
  | .existsKey key => some (t.prefixKey key,
      sendSlot (t.prefixKey key) [] exist (.bool false) fun n => .bool (decide (0 < n)))
  | .incr key delta => some (t.prefixKey key, sendSlot (t.prefixKey key) [] (incrby delta) .none .int)
  | .decr key delta => some (t.prefixKey key, sendSlot (t.prefixKey key) [] (decrby delta) .none .int)
  | .expire key seconds => some (t.prefixKey key,
      sendSlot (t.prefixKey key) [] (Redis.expire now seconds) .none .bool)
  | .ttl key => some (t.prefixKey key, sendSlot (t.prefixKey key) [] (Redis.ttl now) .none .int)
  | .lpush key values => some (t.prefixKey key,
      sendSlot (t.prefixKey key) values (Redis.lpush values) .none .int)
  | .rpush key values => some (t.prefixKey key,
      sendSlot (t.prefixKey key) values (Redis.rpush values) .none .int)
  | .lrange key start stop => some (t.prefixKey key,
      sendSlot (t.prefixKey key) [] (Redis.lrange start stop) (.list []) .list)
  | .llen key => some (t.prefixKey key, sendSlot (t.prefixKey key) [] Redis.llen .none .int)
  | .hset key field value => some (t.prefixKey key,
      sendSlot (t.prefixKey key) [field, value] (Redis.hset field value) .none fun _ => .bool true)
  | .hget key field => some (t.prefixKey key,
      sendSlot (t.prefixKey key) [field] (Redis.hget field) .none .ofStr)
  | .hgetall key => some (t.prefixKey key,
      sendSlot (t.prefixKey key) [] Redis.hgetall (.dict fun _ => none) .dict)
  | .mset _ _ | .mget _ => none

theorem RedisOp.acts {t : Tenant} {s : Server Str Data} {op : RedisOp} {k : Str}
    {g : Slot → RedisReply × Slot} (h : op.touch t s.now = some (k, g))
    (hl : ∀ k, s.lookup k = s.store k) : SentOn k g s (op.perform t s) := by
  cases op with
  | set key value ttlSeconds =>
    cases h
    by_cases hpos : 0 < ttlSeconds
    · simp only [RedisOp.perform, hpos, if_true]
      exact send_acts (hl _) _ _ _ _
    · simp only [RedisOp.perform, hpos, if_false]
      exact send_acts (hl _) _ _ _ _
  | get key => cases h; exact send_acts (hl _) _ _ _ _
  | delete key => cases h; exact send_acts (hl _) _ _ _ _
  | existsKey key => cases h; exact send_acts (hl _) _ _ _ _
  | incr key delta => cases h; exact send_acts (hl _) _ _ _ _
  | decr key delta => cases h; exact send_acts (hl _) _ _ _ _
  | expire key seconds => cases h; exact send_acts (hl _) _ _ _ _
  | ttl key => cases h; exact send_acts (hl _) _ _ _ _
  | lpush key values => cases h; exact send_acts (hl _) _ _ _ _
  | rpush key values => cases h; exact send_acts (hl _) _ _ _ _
  | lrange key start stop => cases h; exact send_acts (hl _) _ _ _ _
  | llen key => cases h; exact send_acts (hl _) _ _ _ _
  | hset key field value => cases h; exact send_acts (hl _) _ _ _ _
  | hget key field => cases h; exact send_acts (hl _) _ _ _ _
  | hgetall key => cases h; exact send_acts (hl _) _ _ _ _
  | mset keyValues ttlSeconds => cases h
  | mget keys => cases h

/-! ## Several keys at once -/

/-- The dictionary `mset` builds, from what it has already built. -/
def prefixOnto (t : Tenant) (d : Dict Str Str) (es : List (Str × Str)) : Dict Str Str :=
  es.foldl (fun d e => d.set (t.prefixKey e.1) e.2) d

theorem prefixOnto_isSome {t : Tenant} {d : Dict Str Str} {k : Str} (h : (d.get k).isSome = true)
    (es : List (Str × Str)) : ((prefixOnto t d es).get k).isSome = true := by
  induction es generalizing d with
  | nil => exact h
  | cons e es ih =>
    refine ih (d := d.set (t.prefixKey e.1) e.2) ?_
    rw [Dict.get_set]
    split
    · rfl
    · exact h

theorem prefixOnto_forall {t : Tenant} {P : Str → Str → Prop} {es : List (Str × Str)}
    (hes : ∀ e ∈ es, P (t.prefixKey e.1) e.2) {d : Dict Str Str} (hd : ∀ k v, d.get k = some v → P k v)
    {k v : Str} (h : (prefixOnto t d es).get k = some v) : P k v := by
  induction es generalizing d with
  | nil => exact hd k v h
  | cons e es ih =>
    refine ih (fun x hx => hes x (List.mem_cons_of_mem e hx)) (d := d.set (t.prefixKey e.1) e.2) ?_ h
    intro k' v' hv
    rw [Dict.get_set] at hv
    split at hv
    · rename_i hk
      cases hv
      rw [hk]
      exact hes e List.mem_cons_self
    · exact hd k' v' hv

section Mset
variable {T : Type} [Clock T]

/-- A cell after the assignments collected in `d`. -/
def overlay (d : Dict Str Str) (m : Memory T) (k : Str) : Cell T :=
  match d.get k with
  | some v => ⟨some (.text v), some 0⟩
  | none => m.cell k

theorem cell_mset (t : Tenant) (m : Memory T) (mapping : Dict Str Str) (k : Str) :
    (m.mset t mapping).2.cell k = overlay (prefixed t mapping) m k := by
  have hfold : ∀ (es : List (Str × Str)) (m' : Memory T) (d : Dict Str Str),
      (∀ k, m'.cell k = overlay d m k) →
      ∀ k, (es.foldl (fun m e => ⟨m.store.set (t.prefixKey e.1) (.text e.2),
        m.expiry.set (t.prefixKey e.1) 0⟩) m').cell k = overlay (prefixOnto t d es) m k := by
    intro es
    induction es with
    | nil => exact fun m' d h k => h k
    | cons e es ih =>
      intro m' d h
      refine ih _ (d.set (t.prefixKey e.1) e.2) ?_
      intro k
      rw [Memory.cell_assign, overlay, Dict.get_set]
      by_cases hk : k = t.prefixKey e.1
      · simp [hk]
      · simp only [hk, if_false]
        exact h k
  exact hfold mapping.entries m Dict.empty (fun _ => rfl) k

end Mset

theorem store_sendAll {s : Server Str Data} {entries : List (Str × Str)}
    (hn : (entries.map Prod.fst).Nodup) (k : Str) :
    (sendAll s entries fun v => Redis.set v).store k =
      match Dict.find entries k with
      | some v => some ⟨.string v, none⟩
      | none => s.store k := by
  induction entries generalizing s with
  | nil => rfl
  | cons e entries ih =>
    rw [List.map_cons, List.nodup_cons] at hn
    have hstep : sendAll s (e :: entries) (fun v => Redis.set v) =
        sendAll (s.onKey e.1 (Redis.set e.2)).2 entries fun v => Redis.set v := rfl
    rw [hstep, ih hn.2, Dict.find]
    by_cases hk : e.1 = k
    · have hnone : Dict.find entries k = none := by
        rw [← Option.not_isSome_iff_eq_none, Dict.find_isSome, ← hk]
        exact hn.1
      rw [if_pos hk, hnone]
      simp [Server.onKey, Redis.set, hk]
    · rw [if_neg hk]
      have hk' : k ≠ e.1 := fun h => hk h.symm
      simp [Server.onKey, Function.update_of_ne hk']

/-! ## One call -/

section Step
variable {T : Type} [Clock T] [Unicode] {t : Tenant}

def Related (w : Pair T) : Prop := ∀ k, Linked k (w.memory.cell k) (w.server.store k)

/-- The operations on one key agree on linked cells. -/
theorem tallies_of_fits {w : Pair T} {c : Timed T} {op : RedisOp} (hr : Related w)
    (hop : c.call.redisOp = some op) (hq : NoneExpires t w c) (hf : Fits t w c.now c.serverNow op)
    (hone : op.touch t c.serverNow ≠ none) :
    ∃ k f g, op.counterpart.touch t c.now = some (k, f) ∧ op.touch t c.serverNow = some (k, g) ∧
      Tallies k (f (w.memory.cell k)) (g (w.server.store k)) := by
  have hlive : ∀ k, (w.memory.cell k).expired c.now = false := hq.memory
  cases op with
  | set key value ttlSeconds => exact ⟨_, _, _, rfl, rfl, tallies_set hf.1 hf.2.1 hf.2.2⟩
  | get key => exact ⟨_, _, _, rfl, rfl, tallies_get (hr _) (hlive _) hf⟩
  | delete key => exact ⟨_, _, _, rfl, rfl, tallies_delete (hr _) hf⟩
  | existsKey key => exact ⟨_, _, _, rfl, rfl, tallies_exists (hr _) (hlive _)⟩
  | incr key delta => exact ⟨_, _, _, rfl, rfl, tallies_incr (countsBy_incrby delta) (hr _) hf⟩
  | decr key delta => exact ⟨_, _, _, rfl, rfl, tallies_incr (countsBy_decrby delta) (hr _) hf⟩
  | expire key seconds =>
    exact ⟨_, _, _, rfl, rfl, tallies_expire (hr _) (hq.later key seconds hop) hf⟩
  | ttl key => exact ⟨_, _, _, rfl, rfl, tallies_ttl (hr _) (hlive _) hf.1 hf.2⟩
  | lpush key values =>
    obtain ⟨hk, hl, v, rfl, hv⟩ := hf
    exact ⟨_, _, _, rfl, rfl, tallies_push (fun l => rfl) (hr _) hk hv hl⟩
  | rpush key values =>
    obtain ⟨hk, hl, v, rfl, hv⟩ := hf
    exact ⟨_, _, _, rfl, rfl, tallies_push (fun l => by simp) (hr _) hk hv hl⟩
  | lrange key start stop => exact ⟨_, _, _, rfl, rfl, tallies_lrange (hr _) (hlive _) hf⟩
  | llen key => exact ⟨_, _, _, rfl, rfl, tallies_llen (hr _) (hlive _) hf.1 hf.2⟩
  | hset key field value =>
    exact ⟨_, _, _, rfl, rfl, tallies_hset (hr _) hf.1.1 hf.1.2.1 hf.1.2.2 hf.2⟩
  | hget key field => exact ⟨_, _, _, rfl, rfl, tallies_hget (hr _) (hlive _)⟩
  | hgetall key => exact ⟨_, _, _, rfl, rfl, tallies_hgetall (hr _) (hlive _)⟩
  | mset keyValues ttlSeconds => exact absurd rfl hone
  | mget keys => exact absurd rfl hone

omit [Unicode] in
theorem prefixed_encodable {keyValues : Dict Str Str}
    (h : ∀ e ∈ keyValues.entries, encodable (t.prefixKey e.1) = true ∧ encodable e.2 = true)
    {k v : Str} (hv : (prefixed t keyValues).get k = some v) : encodable k = true ∧ encodable v = true :=
  prefixOnto_forall (P := fun k v => encodable k = true ∧ encodable v = true) h (by simp) hv

omit [Unicode] in
/-- `MSET` with encodable texts, as the server sees it. -/
theorem performMset_fits {s : Server Str Data} {keyValues : Dict Str Str} {ttlSeconds : Int}
    (httl : ttlSeconds ≤ 0) (hne : keyValues.entries ≠ [])
    (h : ∀ e ∈ keyValues.entries, encodable (t.prefixKey e.1) = true ∧ encodable e.2 = true) :
    RedisOp.performMset t s keyValues ttlSeconds =
      (.bool true, sendAll s (prefixed t keyValues).entries fun v => Redis.set v) := by
  have hall : ((prefixed t keyValues).entries.all fun e => encodable e.1 && encodable e.2) = true := by
    rw [List.all_eq_true]
    intro e he
    have hfind := Dict.find_of_mem (prefixed t keyValues).nodup he
    rw [Bool.and_eq_true]
    exact prefixed_encodable h hfind
  have hsome : (prefixed t keyValues).entries.isEmpty = false := by
    obtain ⟨e, es, hes⟩ := List.exists_cons_of_ne_nil hne
    have hget : ((prefixed t keyValues).get (t.prefixKey e.1)).isSome = true := by
      rw [prefixed, hes]
      exact prefixOnto_isSome (d := Dict.empty.set (t.prefixKey e.1) e.2) (by simp) es
    cases hd : (prefixed t keyValues).entries with
    | nil => simp [Dict.get, hd, Dict.find] at hget
    | cons => rfl
  have hpos : ¬ 0 < ttlSeconds := by omega
  simp only [RedisOp.performMset, hall, if_true, hpos, if_false, hsome, Bool.false_eq_true]

omit [Unicode] in
theorem related_mset {w : Pair T} (hr : Related w) {keyValues : Dict Str Str}
    (h : ∀ e ∈ keyValues.entries, encodable (t.prefixKey e.1) = true ∧ encodable e.2 = true) (n : Nat) :
    Related ⟨(w.memory.mset t keyValues).2,
      sendAll { w.server with now := n } (prefixed t keyValues).entries fun v => Redis.set v⟩ := by
  intro k
  rw [cell_mset, store_sendAll (prefixed t keyValues).nodup, overlay]
  cases hv : (prefixed t keyValues).get k with
  | none =>
    have hfind : Dict.find (prefixed t keyValues).entries k = none := hv
    rw [hfind]
    exact hr k
  | some v =>
    have hfind : Dict.find (prefixed t keyValues).entries k = some v := hv
    rw [hfind]
    exact .stored (prefixed_encodable h hv).1 (.text v) le_rfl (by simp)

theorem compatible_step {w : Pair T} {c : Timed T} (hr : Related w) (hq : NoneExpires t w c)
    (hc : Compatible t w c) : Agree t w c ∧ Related (w.step t c) := by
  cases hop : c.call.redisOp with
  | none =>
    refine ⟨fun op h => ?_, ?_⟩
    · rw [hop] at h
      cases h
    · rw [Pair.step, hop]
      exact hr
  | some op =>
    obtain ⟨hmem, hf⟩ := hc op hop
    have hres : memoryResult t w c = .ok (op.counterpart.perform t c.now w.memory) := by
      rw [memoryResult, hmem]
      rfl
    have hstep : w.step t c = ⟨(op.counterpart.perform t c.now w.memory).2,
        (op.perform t { w.server with now := c.serverNow }).2⟩ := by
      rw [Pair.step, hop, hres]
    -- it is enough to look at this one operation on both sides
    suffices hboth : Same (op.counterpart.perform t c.now w.memory).1
          (op.perform t { w.server with now := c.serverNow }).1 ∧
        Related ⟨(op.counterpart.perform t c.now w.memory).2,
          (op.perform t { w.server with now := c.serverNow }).2⟩ by
      refine ⟨fun op' h => ?_, hstep ▸ hboth.2⟩
      rw [hop] at h
      cases h
      exact ⟨_, hres, hboth.1⟩
    by_cases hone : op.touch t c.serverNow = none
    · cases op with
      | mset keyValues ttlSeconds =>
        obtain ⟨httl, hne, henc⟩ := hf
        have hperform : RedisOp.perform t { w.server with now := c.serverNow }
            (.mset keyValues ttlSeconds) = (.bool true, sendAll { w.server with now := c.serverNow }
              (prefixed t keyValues).entries fun v => Redis.set v) := performMset_fits httl hne henc
        rw [hperform]
        exact ⟨rfl, related_mset hr henc c.serverNow⟩
      | mget keys => exact hf.elim
      | _ => cases hone
    · obtain ⟨k, f, g, hmf, hsg, hsame, hlink⟩ := tallies_of_fits hr hop hq hf hone
      have ha := Op.acts hmf w.memory
      have hs := RedisOp.acts (s := { w.server with now := c.serverNow }) hsg (lookup_of_live hq.server)
      refine ⟨by rw [ha.reply, hs.reply]; exact hsame, ?_⟩
      intro k'
      by_cases hk : k' = k
      · rw [hk, ha.here, hs.here]
        exact hlink
      · rw [ha.there k' hk, hs.there k' hk]
        exact hr k'

/-! ## Whole runs -/

omit [Unicode] in
theorem related_empty : Related (Pair.empty : Pair T) := fun _ => .absent

/-- Along every run of compatible calls in which no key expires, both clients return equal results
at every call. -/
theorem clients_agree (t : Tenant) (calls : List (Timed T))
    (hq : Guarded (Pair.step t) (NoneExpires t) Pair.empty calls)
    (hc : Guarded (Pair.step t) (Compatible t) Pair.empty calls) :
    Guarded (Pair.step t) (Agree t) Pair.empty calls := by
  have hrun : ∀ (calls : List (Timed T)) (w : Pair T), Related w →
      Guarded (Pair.step t) (NoneExpires t) w calls → Guarded (Pair.step t) (Compatible t) w calls →
      Guarded (Pair.step t) (Agree t) w calls := by
    intro calls
    induction calls with
    | nil => exact fun _ _ _ _ => trivial
    | cons c calls ih =>
      intro w hr hq hc
      obtain ⟨hagree, hr'⟩ := compatible_step hr hq.1 hc.1
      exact ⟨hagree, ih _ hr' hq.2 hc.2⟩
  exact hrun calls Pair.empty related_empty hq hc

end Step

section Example
attribute [local instance] wholeSeconds asciiUnicode

def droppingTenant : Tenant := makeTenant (some (lit "u")) (some (lit "o"))

def setCall : Timed Int := ⟨⟨.set, [.text (lit "k"), .text (lit "v")], Dict.empty⟩, 1, 1000⟩

def getCall : Timed Int := ⟨⟨.get, [.text (lit "k")], Dict.empty⟩, 2, 2000⟩

theorem noneExpires_of_undated {w : Pair Int} {c : Timed Int} (hm : ∀ k, w.memory.expTime k = 0)
    (hs : ∀ k e, w.server.store k = some e → e.deadline = none)
    (he : ∀ key n, c.call.redisOp ≠ some (.expire key n)) : NoneExpires droppingTenant w c where
  memory k := by simp [Memory.isExpired, hm k]
  server k e h := by simp [Entry.live, hs k e h]
  later key n h := absurd h (he key n)

theorem setCall_redisOp : setCall.call.redisOp = some (.set (lit "k") (lit "v") 0) := by decide

theorem getCall_redisOp : getCall.call.redisOp = some (.get (lit "k")) := by decide

theorem afterSet_memory : ((Pair.empty : Pair Int).step droppingTenant setCall).memory =
    ((Op.set (lit "k") (lit "v") 0).perform droppingTenant 1 Memory.empty).2 := by
  have hm : setCall.call.memoryOp = .ok (.set (lit "k") (lit "v") 0) := by decide
  rw [Pair.step, setCall_redisOp, memoryResult, hm]
  rfl

theorem afterSet_server (k : Str) (e : Entry Data)
    (h : ((Pair.empty : Pair Int).step droppingTenant setCall).server.store k = some e) : e.deadline = none := by
  rw [Pair.step, setCall_redisOp] at h
  have hs : (RedisOp.perform droppingTenant { (Pair.empty : Pair Int).server with now := setCall.serverNow }
      (.set (lit "k") (lit "v") 0)).2.store =
      Function.update (fun _ => none) (droppingTenant.prefixKey (lit "k")) (some ⟨.string (lit "v"), none⟩) := by
    have henc : ((droppingTenant.prefixKey (lit "k") :: [lit "v"]).all encodable) = true := by decide
    simp only [RedisOp.perform, send, henc, if_true]
    rfl
  rw [hs, Function.update_apply] at h
  split at h
  · cases h
    rfl
  · cases h

/-- Setting a text and reading it back. -/
theorem set_get_agree : Guarded (Pair.step droppingTenant) (Agree droppingTenant) Pair.empty
    [setCall, getCall] := by
  refine clients_agree droppingTenant [setCall, getCall] ⟨?_, ?_, trivial⟩ ⟨?_, ?_, trivial⟩
  · refine noneExpires_of_undated (fun _ => rfl) (fun _ _ h => by cases h) ?_
    intro key n
    rw [setCall_redisOp]
    simp
  · refine noneExpires_of_undated ?_ afterSet_server ?_
    · intro k
      rw [afterSet_memory]
      by_cases hk : k = droppingTenant.prefixKey (lit "k")
      · simp [Op.perform, Memory.set, Memory.expTime, hk]
      · simp [Op.perform, Memory.set, Memory.expTime, Dict.get_set, hk, Memory.empty]
    · intro key n
      rw [getCall_redisOp]
      simp
  · intro op hop
    rw [setCall_redisOp] at hop
    cases hop
    exact ⟨by decide, by decide, by decide, fun h => absurd h (by decide)⟩
  · intro op hop
    rw [getCall_redisOp] at hop
    cases hop
    refine ⟨by decide, ?_⟩
    intro v hv
    rw [afterSet_memory] at hv
    simp only [Op.perform, Memory.set] at hv
    cases hv
    exact ⟨lit "v", rfl⟩

/-- `ttl` of a missing key is -1 in memory and -2 on the server. -/
theorem missing_ttl_differs : ¬ ∀ (t : Tenant) (calls : List (Timed Int)),
    (∀ c ∈ calls, c.call.redisOp.isSome) → Guarded (Pair.step t) (NoneExpires t) Pair.empty calls →
      Guarded (Pair.step t) (Agree t) Pair.empty calls := by
  intro h
  have hop : (⟨.ttl, [.text (lit "k")], Dict.empty⟩ : Call).redisOp = some (.ttl (lit "k")) := by decide
  have hmem : (⟨.ttl, [.text (lit "k")], Dict.empty⟩ : Call).memoryOp = .ok (.ttl (lit "k")) := by
    decide
  have hrun := h droppingTenant [⟨⟨.ttl, [.text (lit "k")], Dict.empty⟩, 1, 1000⟩]
    (by
      intro c hc
      rw [List.mem_singleton] at hc
      rw [hc, hop]
      rfl)
    ⟨noneExpires_of_undated (fun _ => rfl) (fun _ _ h => by cases h) (by
      intro key n
      rw [hop]
      simp), trivial⟩
  obtain ⟨r, hr, hs⟩ := hrun.1 _ hop
  rw [memoryResult, hmem] at hr
  cases hr
  have henc : encodable (droppingTenant.prefixKey (lit "k")) = true := by decide
  have hreply : (RedisOp.perform droppingTenant { (Pair.empty : Pair Int).server with now := 1000 }
      (.ttl (lit "k"))).1 = .int (-2) := by
    simp only [RedisOp.perform, send, List.all_cons, henc, List.all_nil, Bool.and_true, if_true]
    rfl
  rw [hreply] at hs
  have hm : ((Op.ttl (lit "k")).perform droppingTenant 1 (Pair.empty : Pair Int).memory).1 = .int (-1) := rfl
  rw [hm] at hs
  have hne : (-1 : Int) = -2 := hs
  exact absurd hne (by decide)

end Example

end IsaCloud.Cache
