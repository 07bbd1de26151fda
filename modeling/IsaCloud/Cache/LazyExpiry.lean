import IsaCloud.Cache.Cells

/-!
# What a client notices of keys that expired and were not swept

Every operation is run twice from one state: as the store stands, and after the
sweeper has removed the expired keys. `Heeds` says for which operations the two
runs give the same answer and leave the same keys visible; the others write
into, extend, count or report a key that is already gone.
-/

namespace IsaCloud.Cache

set_option autoImplicit false

open Support Support.Text Support.Python Support.Glob

variable {T : Type} [Clock T]

/-! ## The swept store -/

def Cell.purge (now : T) (c : Cell T) : Cell T := if c.expired now then .absent else c

namespace Cell
variable {c : Cell T} {now : T}

theorem purge_of_expired (h : c.expired now = true) : c.purge now = absent := by simp [purge, h]

theorem purge_of_live (h : c.expired now = false) : c.purge now = c := by simp [purge, h]

theorem purge_live (c : Cell T) (now : T) : (c.purge now).expired now = false := by
  cases h : c.expired now with
  | true => rw [purge_of_expired h, absent_expired]
  | false => rw [purge_of_live h, h]

theorem visible_purge (c : Cell T) (now : T) : (c.purge now).visible now = c.visible now := by
  cases h : c.expired now with
  | true => rw [purge_of_expired h, absent_visible, visible, h, if_pos rfl]
  | false => rw [purge_of_live h]

theorem visible_of_expired (h : c.expired now = true) : c.visible now = none := by simp [visible, h]

end Cell

/-- `p` is `m` without the keys that are expired at `now`. -/
def Swept (now : T) (m p : Memory T) : Prop := ∀ k, p.cell k = (m.cell k).purge now

namespace Memory

def visible (now : T) (m : Memory T) (k : Str) : Option (Value × T) := (m.cell k).visible now

theorem mem_expired {m : Memory T} {now : T} {k : Str} :
    k ∈ m.expiry.keys.filter (m.isExpired now) ↔ (m.cell k).expired now = true := by
  rw [List.mem_filter, Dict.mem_keys]
  exact ⟨fun h => h.2, fun h => ⟨Cell.deadline_of_expired h, h⟩⟩

theorem swept_removeExpired (m : Memory T) (now : T) : Swept now m (m.removeExpired now) := by
  intro k
  rw [removeExpired, cell_foldl_drop, Cell.purge]
  by_cases h : (m.cell k).expired now = true
  · rw [if_pos (mem_expired.mpr h), if_pos h]
  · rw [if_neg (fun hk => h (mem_expired.mp hk)), if_neg h]

theorem keys_removeExpired (m : Memory T) (now : T) :
    (m.removeExpired now).store.keys = m.store.keys.filter fun k => !m.isExpired now k := by
  rw [removeExpired, keys_foldl_drop]
  apply List.filter_congr
  intro k _
  rw [isExpired_eq]
  cases h : (m.cell k).expired now with
  | true => simp only [mem_expired, h, not_true_eq_false, decide_false, Bool.not_true]
  | false => simp only [mem_expired, h, Bool.false_eq_true, not_false_eq_true, decide_true, Bool.not_false]

/-- The keys a pattern finds are the same, in the same order. -/
theorem matching_removeExpired (t : Tenant) (m : Memory T) (now : T) (pattern : Str) :
    (m.removeExpired now).matching t now pattern = m.matching t now pattern := by
  rw [matching, matching, keys_removeExpired, List.filter_filter]
  apply List.filter_congr
  intro k _
  have hlive : (m.removeExpired now).isExpired now k = false := by
    rw [isExpired_eq, swept_removeExpired m now k]
    exact Cell.purge_live _ now
  rw [hlive, Bool.not_false, Bool.and_true]

end Memory

theorem Swept.visible {now : T} {m p : Memory T} (h : Swept now m p) (k : Str) :
    p.visible now k = m.visible now k := by
  rw [Memory.visible, h k, Cell.visible_purge]
  rfl

theorem Swept.drop {now : T} {m p : Memory T} (h : Swept now m p) (k : Str) :
    Swept now (m.drop k) (p.drop k) := by
  intro k'
  rw [Memory.cell_drop, Memory.cell_drop, h k']
  split
  · simp [Cell.purge]
  · rfl

/-- Dropping an expired key changes nothing in the swept store. -/
theorem Swept.drop_expired {now : T} {m p : Memory T} (h : Swept now m p) {k : Str}
    (he : (m.cell k).expired now = true) : Swept now (m.drop k) p := by
  intro k'
  rw [Memory.cell_drop, h k']
  split
  · rename_i hk
    rw [hk, Cell.purge_of_expired he]
    simp [Cell.purge]
  · rfl

/-! ## Agreement on one cell -/

/-- The two runs agree on one cell. -/
def SameAt (now : T) (f : Cell T → Reply × Cell T) (c : Cell T) : Prop :=
  (f c).1 = (f (c.purge now)).1 ∧ (f c).2.visible now = (f (c.purge now)).2.visible now

section OneKey
variable {now : T} {f : Cell T → Reply × Cell T} {c : Cell T}

theorem sameAt_of_live (h : c.expired now = false) : SameAt now f c := by
  rw [SameAt, Cell.purge_of_live h]
  exact ⟨rfl, rfl⟩

theorem sameAt_expired (h : c.expired now = true) : SameAt now f c ↔
    (f c).1 = (f .absent).1 ∧ (f c).2.visible now = (f .absent).2.visible now := by
  rw [SameAt, Cell.purge_of_expired h]

/-- An operation that never agrees on an expired cell. -/
theorem sameAt_iff_live (hne : c.expired now = true → ¬ ((f c).1 = (f .absent).1 ∧
      (f c).2.visible now = (f .absent).2.visible now)) :
    SameAt now f c ↔ c.expired now = false := by
  constructor
  · intro h
    cases he : c.expired now with
    | false => rfl
    | true => exact absurd ((sameAt_expired he).mp h) (hne he)
  · exact sameAt_of_live

/-- An operation that may agree on an expired cell, under `P`. -/
theorem sameAt_iff {P : Prop} (h : c.expired now = true → (((f c).1 = (f .absent).1 ∧
      (f c).2.visible now = (f .absent).2.visible now) ↔ P)) :
    SameAt now f c ↔ (c.expired now = true → P) := by
  constructor
  · intro hs he
    exact (h he).mp ((sameAt_expired he).mp hs)
  · intro hp
    cases he : c.expired now with
    | false => exact sameAt_of_live he
    | true => exact (sameAt_expired he).mpr ((h he).mpr (hp he))

end OneKey

/-! ## The cells of expired keys -/

namespace Cell
section Expired
variable {c : Cell T} {now : T}

theorem same_read {gone : Reply} {found : Option Value → Reply} (h : found none = gone) :
    SameAt now (read now gone found) c := by
  cases he : c.expired now with
  | false => exact sameAt_of_live he
  | true =>
    rw [sameAt_expired he, read, read, he, absent_expired]
    simp [absent, h]

theorem same_llen : SameAt now (llen now) c := by
  cases he : c.expired now with
  | false => exact sameAt_of_live he
  | true =>
    rw [sameAt_expired he, llen, llen, he, absent_expired]
    exact ⟨rfl, by rw [visible_of_expired he, absent_visible]⟩

theorem same_delete_iff (hb : c.Backed) : SameAt now delete c ↔ c.expired now = false := by
  refine sameAt_iff_live ?_
  intro he h
  obtain ⟨v, hv⟩ := hb.value_of_expired he
  simp [delete, hv, absent] at h

theorem same_ttl_iff : SameAt now (ttl now) c ↔ c.expired now = false := by
  refine sameAt_iff_live ?_
  intro he h
  have hexp : 0 < c.expTime ∧ c.expTime < now := of_decide_eq_true he
  have hr := h.1
  rw [ttl, if_neg (ne_of_gt hexp.1), if_pos hexp.2] at hr
  simp [ttl, expTime, absent] at hr

theorem same_expire_iff {ttlSeconds : Int} (hb : c.Backed) :
    SameAt now (expire now ttlSeconds) c ↔ c.expired now = false := by
  refine sameAt_iff_live ?_
  intro he h
  obtain ⟨v, hv⟩ := hb.value_of_expired he
  have hr := h.1
  cases ha : Clock.after now ttlSeconds with
  | none => simp [expire, hv, ha, absent] at hr
  | some t => simp [expire, hv, ha, absent] at hr

theorem expired_keep (he : c.expired now = true) (v : Option Value) :
    (⟨v, c.deadline⟩ : Cell T).visible now = none :=
  visible_of_expired (c := ⟨v, c.deadline⟩) he

/-- The value written lands under the deadline that has passed. -/
theorem same_nest_iff {put : Option Value → Reply × Value} (hb : c.Backed) :
    SameAt now (nest put) c ↔ c.expired now = false := by
  refine sameAt_iff_live ?_
  intro he h
  obtain ⟨v, hv⟩ := hb.value_of_expired he
  have hr := h.2
  have hd : (nest put c).2 = ⟨some (put c.value).2, c.deadline⟩ := by simp [nest, hv]
  have h0 : (nest put absent).2 = (⟨some (put none).2, some 0⟩ : Cell T) := by simp [nest, absent]
  rw [hd, expired_keep he, h0, visible, zero_expired] at hr
  simp at hr

theorem same_set_iff {value : Str} {ttlSeconds : Int} : SameAt now (set now value ttlSeconds) c ↔
    (c.expired now = true → 0 < ttlSeconds → Clock.after now ttlSeconds ≠ none) := by
  refine sameAt_iff ?_
  intro he
  by_cases hpos : 0 < ttlSeconds
  · cases ha : Clock.after now ttlSeconds with
    | none =>
      have h1 : set now value ttlSeconds c = (.none, ⟨some (.text value), c.deadline⟩) := by
        simp [set, hpos, ha]
      have h2 : set now value ttlSeconds (absent : Cell T) = (.none, ⟨some (.text value), none⟩) := by
        simp [set, hpos, ha, absent]
      rw [h1, h2, expired_keep he, visible, undated_expired]
      simp [hpos]
    | some t => simp [set, hpos, ha]
  · simp [set, hpos]

/-- An operation that does nothing to the expired cell and nothing to an absent one. -/
theorem agree_unchanged {f : Cell T → Reply × Cell T} {r : Reply} (he : c.expired now = true)
    (hc : f c = (r, c)) (h0 : f absent = (r, absent)) :
    (f c).1 = (f absent).1 ∧ (f c).2.visible now = (f absent).2.visible now := by
  rw [hc, h0, visible_of_expired he, absent_visible]
  exact ⟨rfl, rfl⟩

theorem same_hdel_iff {field : Str} : SameAt now (hdel field) c ↔
    (c.expired now = true → ∀ h, c.value = some (.hash h) → h.contains field = false) := by
  refine sameAt_iff ?_
  intro he
  have h0 : hdel field (absent : Cell T) = (.bool false, absent) := rfl
  cases hv : c.value with
  | none => exact iff_of_true (agree_unchanged he (by simp [hdel, hv]) h0) (fun _ h => by cases h)
  | some v =>
    cases v with
    | text s => exact iff_of_true (agree_unchanged he (by simp [hdel, hv]) h0) (fun _ h => by cases h)
    | list l => exact iff_of_true (agree_unchanged he (by simp [hdel, hv]) h0) (fun _ h => by cases h)
    | hash h =>
      by_cases hc : h.contains field = true
      · simp [hdel, hv, absent, hc]
      · refine iff_of_true (agree_unchanged he (by simp [hdel, hv, hc]) h0) ?_
        intro h' hh
        cases hh
        exact Bool.eq_false_iff.mpr hc

section Counters
variable [Unicode]

omit [Clock T] in
theorem incr_absent (amount : Int) : incr amount (absent : Cell T) =
    if TooLong amount then (.none, absent) else (.int amount, ⟨some (.text (intText amount)), none⟩) := by
  simp only [incr, absent, Option.getD_none, Memory.newValue_zero, strOfInt]
  by_cases ht : TooLong amount
  · simp [ht]
  · simp [ht]

omit [Clock T] in
theorem incr_refused {amount n : Int} {v : Value} (hv : c.value = some v)
    (hn : Memory.newValue v amount = .ok n) (ht : TooLong n) : incr amount c = (.none, c) := by
  simp [incr, hv, hn, strOfInt, ht]

theorem same_incr_iff {amount : Int} (hb : c.Backed) : SameAt now (incr amount) c ↔
    (c.expired now = true → TooLong amount ∧ ∀ s n, c.value = some (.text s) → intOfStr s = .ok n →
      TooLong (n + amount)) := by
  refine sameAt_iff ?_
  intro he
  obtain ⟨v, hv⟩ := hb.value_of_expired he
  have hgone : ((incr amount c).2).visible now = none := by
    rw [incr]
    split
    · exact visible_of_expired he
    · split
      · exact visible_of_expired he
      · exact expired_keep he _
  by_cases ht : TooLong amount
  · have h0 : incr amount (absent : Cell T) = (.none, absent) := by rw [incr_absent, if_pos ht]
    cases v with
    | hash h =>
      refine iff_of_true (agree_unchanged he ?_ h0) ⟨ht, fun s n hs => ?_⟩
      · simp [incr, hv, Memory.newValue, Memory.intOfValue, typeError, ExcKind.isValueError]
      · rw [hv] at hs
        cases hs
    | list l =>
      refine iff_of_true (agree_unchanged he ?_ h0) ⟨ht, fun s n hs => ?_⟩
      · simp [incr, hv, Memory.newValue, Memory.intOfValue, typeError, ExcKind.isValueError]
      · rw [hv] at hs
        cases hs
    | text s =>
      cases hi : intOfStr s with
      | error e =>
        have hn : Memory.newValue (.text s) amount = .ok amount := by
          simp [Memory.newValue, Memory.intOfValue, hi, intOfStr_error hi]
        refine iff_of_true (agree_unchanged he (incr_refused hv hn ht) h0) ⟨ht, fun s' n hs hn' => ?_⟩
        rw [hv] at hs
        cases hs
        rw [hi] at hn'
        cases hn'
      | ok n =>
        have hn : Memory.newValue (.text s) amount = .ok (n + amount) := by
          simp [Memory.newValue, Memory.intOfValue, hi]
        by_cases hl : TooLong (n + amount)
        · refine iff_of_true (agree_unchanged he (incr_refused hv hn hl) h0) ⟨ht, fun s' n' hs hn' => ?_⟩
          rw [hv] at hs
          cases hs
          rw [hi] at hn'
          cases hn'
          exact hl
        · refine iff_of_false ?_ ?_
          · intro h
            have hr := h.1
            rw [h0] at hr
            simp [incr, hv, hn, strOfInt, hl] at hr
          · intro h
            exact hl (h.2 s n hv hi)
  · refine iff_of_false ?_ (fun h => ht h.1)
    intro h
    have hr := h.2
    rw [hgone, incr_absent, if_neg ht, visible, undated_expired] at hr
    simp at hr

end Counters

end Expired

end Cell

/-! ## When the two runs agree -/

section Operations
variable [Unicode]

/-- The operation gives the same answer and leaves the same visible keys as after a sweep. -/
def Agrees (t : Tenant) (now : T) (m : Memory T) (op : Op) : Prop :=
  (op.perform t now m).1 = (op.perform t now (m.removeExpired now)).1 ∧
    ∀ k, (op.perform t now m).2.visible now k =
      (op.perform t now (m.removeExpired now)).2.visible now k

/-- The condition on the state: what the operation does by hand about an expired key suffices. -/
def Heeds (t : Tenant) (now : T) (m : Memory T) : Op → Prop
  | .set key _ ttlSeconds =>
    m.isExpired now (t.prefixKey key) = true → 0 < ttlSeconds → Clock.after now ttlSeconds ≠ none
  | .delete key => m.isExpired now (t.prefixKey key) = false
  | .ttl key => m.isExpired now (t.prefixKey key) = false
  | .expire key _ => m.isExpired now (t.prefixKey key) = false
  | .incr key amount => m.isExpired now (t.prefixKey key) = true → TooLong amount ∧
      ∀ s n, m.store.get (t.prefixKey key) = some (.text s) → intOfStr s = .ok n → TooLong (n + amount)
  | .decr key amount => m.isExpired now (t.prefixKey key) = true → TooLong (-amount) ∧
      ∀ s n, m.store.get (t.prefixKey key) = some (.text s) → intOfStr s = .ok n → TooLong (n + -amount)
  | .deleteMany ks => ∀ key ∈ ks, m.isExpired now (t.prefixKey key) = false
  | .hset name _ _ => m.isExpired now (t.prefixKey name) = false
  | .hdel name key => m.isExpired now (t.prefixKey name) = true →
      ∀ h, m.store.get (t.prefixKey name) = some (.hash h) → h.contains key = false
  | .lpush key _ => m.isExpired now (t.prefixKey key) = false
  | .rpush key _ => m.isExpired now (t.prefixKey key) = false
  | _ => True

/-- For an operation on one key everything is decided by the cell of that key. -/
theorem agrees_iff_sameAt {t : Tenant} {now : T} {m : Memory T} {op : Op} {k : Str}
    {f : Cell T → Reply × Cell T} (h : op.touch t now = some (k, f)) : Agrees t now m op ↔ SameAt now f (m.cell k) := by
  have ha := Op.acts h m
  have hp := Op.acts h (m.removeExpired now)
  have hk := m.swept_removeExpired now k
  constructor
  · rintro ⟨hr, hv⟩
    have hvk := hv k
    rw [Memory.visible, Memory.visible, ha.here, hp.here, hk] at hvk
    rw [ha.reply, hp.reply, hk] at hr
    exact ⟨hr, hvk⟩
  · rintro ⟨hr, hv⟩
    refine ⟨by rw [ha.reply, hp.reply, hk, hr], ?_⟩
    intro k'
    by_cases he : k' = k
    · rw [he, Memory.visible, Memory.visible, ha.here, hp.here, hk, hv]
    · rw [Memory.visible, Memory.visible, ha.there k' he, hp.there k' he]
      exact ((m.swept_removeExpired now).visible k').symm

/-! ## Operations on several keys -/

omit [Unicode] in
theorem visible_mset {now : T} {m p : Memory T} (h : ∀ k, m.visible now k = p.visible now k)
    (t : Tenant) (mapping : Dict Str Str) (k : Str) :
    (m.mset t mapping).2.visible now k = (p.mset t mapping).2.visible now k := by
  simp only [Memory.mset]
  generalize mapping.entries = es
  induction es generalizing m p with
  | nil => exact h k
  | cons e es ih =>
    refine ih ?_
    intro k'
    rw [Memory.visible, Memory.visible, Memory.cell_assign, Memory.cell_assign]
    split
    · rfl
    · exact h k'

omit [Unicode] in
theorem Swept.mgetLoop {now : T} {m p : Memory T} (h : Swept now m p) (t : Tenant) (ks : List Str) :
    (Memory.mgetLoop t now ks m).1 = (Memory.mgetLoop t now ks p).1 ∧
      Swept now (Memory.mgetLoop t now ks m).2 (Memory.mgetLoop t now ks p).2 := by
  induction ks generalizing m p with
  | nil => exact ⟨rfl, h⟩
  | cons key ks ih =>
    have hp : p.isExpired now (t.prefixKey key) = false := by
      rw [Memory.isExpired_eq, h]
      exact Cell.purge_live _ now
    cases he : m.isExpired now (t.prefixKey key) with
    | true =>
      have hnone : p.store.get (t.prefixKey key) = none := by
        rw [← Memory.cell_value, h, Cell.purge_of_expired (c := m.cell (t.prefixKey key)) he]
        rfl
      obtain ⟨hr, hs⟩ := ih (h.drop_expired he)
      simp only [Memory.mgetLoop, he, hp, if_true, Bool.false_eq_true, if_false, hnone, hr]
      exact ⟨trivial, hs⟩
    | false =>
      have hsame : p.store.get (t.prefixKey key) = m.store.get (t.prefixKey key) := by
        rw [← Memory.cell_value, h, Cell.purge_of_live (c := m.cell (t.prefixKey key)) he]
        rfl
      obtain ⟨hr, hs⟩ := ih h
      simp only [Memory.mgetLoop, he, hp, Bool.false_eq_true, if_false, hsame, hr]
      exact ⟨trivial, hs⟩

omit [Unicode] in
/-- The two counts of `delete_many` differ by the listed keys that were expired. -/
theorem Swept.deleteLoop {now : T} {m p : Memory T} (h : Swept now m p) (hb : m.Backed) (t : Tenant)
    (ks : List Str) (a b : Nat) :
    ∃ ghosts, (Memory.deleteLoop t ks a m).1 + b = (Memory.deleteLoop t ks b p).1 + a + ghosts ∧
      (ghosts = 0 ↔ ∀ key ∈ ks, m.isExpired now (t.prefixKey key) = false) ∧
      Swept now (Memory.deleteLoop t ks a m).2 (Memory.deleteLoop t ks b p).2 := by
  induction ks generalizing m p a b with
  | nil => exact ⟨0, by simp [Memory.deleteLoop, Nat.add_comm], by simp, h⟩
  | cons key ks ih =>
    have hdrop : ∀ key', (m.drop (t.prefixKey key)).isExpired now (t.prefixKey key') =
        if t.prefixKey key' = t.prefixKey key then false else m.isExpired now (t.prefixKey key') := by
      intro key'
      rw [Memory.isExpired_eq, Memory.cell_drop]
      split
      · exact Cell.absent_expired now
      · rfl
    cases he : m.isExpired now (t.prefixKey key) with
    | true =>
      -- the expired key is counted here and nowhere in the swept store
      obtain ⟨v, hv⟩ := (hb (t.prefixKey key)).value_of_expired he
      have hm : m.store.contains (t.prefixKey key) = true := by
        rw [Dict.contains, ← Memory.cell_value, hv]
        rfl
      have hp : p.store.contains (t.prefixKey key) = false := by
        rw [Dict.contains, ← Memory.cell_value, h,
          Cell.purge_of_expired (c := m.cell (t.prefixKey key)) he]
        rfl
      obtain ⟨g, hg, -, hs⟩ := ih (h.drop_expired he) (hb.drop _) (a + 1) b
      refine ⟨g + 1, ?_, ?_, ?_⟩
      · simp only [Memory.deleteLoop, hm, hp, if_true, Bool.false_eq_true, if_false]
        omega
      · simp [he]
      · simpa only [Memory.deleteLoop, hm, hp, if_true, Bool.false_eq_true, if_false] using hs
    | false =>
      have hsame : p.store.contains (t.prefixKey key) = m.store.contains (t.prefixKey key) := by
        rw [Dict.contains, Dict.contains, ← Memory.cell_value, h,
          Cell.purge_of_live (c := m.cell (t.prefixKey key)) he]
        rfl
      cases hm : m.store.contains (t.prefixKey key) with
      | true =>
        obtain ⟨g, hg, hz, hs⟩ := ih (h.drop (t.prefixKey key)) (hb.drop _) (a + 1) (b + 1)
        refine ⟨g, ?_, ?_, ?_⟩
        · simp only [Memory.deleteLoop, hsame, hm, if_true]
          omega
        · rw [hz]
          simp only [hdrop, List.forall_mem_cons, he, true_and]
          refine forall₂_congr ?_
          intro key' _
          by_cases hk : t.prefixKey key' = t.prefixKey key
          · rw [if_pos hk, hk]
            exact iff_of_true rfl he
          · rw [if_neg hk]
        · simpa only [Memory.deleteLoop, hsame, hm, if_true] using hs
      | false =>
        obtain ⟨g, hg, hz, hs⟩ := ih h hb a b
        refine ⟨g, ?_, ?_, ?_⟩
        · simpa only [Memory.deleteLoop, hsame, hm, Bool.false_eq_true, if_false] using hg
        · simp only [hz, List.forall_mem_cons, he, true_and]
        · simpa only [Memory.deleteLoop, hsame, hm, Bool.false_eq_true, if_false] using hs

omit [Unicode] in
theorem visible_flush (t : Tenant) (m : Memory T) (now : T) (k : Str) :
    (m.flush t).2.visible now k = if t.getKeyPrefix <+: k then none else m.visible now k := by
  rw [Memory.visible, Memory.flush, Memory.cell_foldl_drop]
  by_cases hp : t.getKeyPrefix <+: k
  · simp only [List.mem_filter, decide_eq_true_eq, hp, and_true, if_true]
    split
    · exact Cell.absent_visible now
    · rename_i hk
      have hv : (m.cell k).value = none := by
        rwa [Dict.mem_keys, Option.not_isSome_iff_eq_none] at hk
      simp [Cell.visible, hv]
  · simp [hp, Memory.visible]

/-! ## Every operation -/

/-- In every reachable state, sweeping first makes no difference exactly when the operation heeds
the expired keys. -/
theorem lazy_expiry_unobservable_iff {m : Memory T} (hm : m.Reachable) (t : Tenant) (now : T)
    (op : Op) : Agrees t now m op ↔ Heeds t now m op := by
  have hb := hm.backed
  have hswept := m.swept_removeExpired now
  have hvis : ∀ k, m.visible now k = (m.removeExpired now).visible now k :=
    fun k => (hswept.visible k).symm
  cases op with
  | set key value ttlSeconds => exact (agrees_iff_sameAt rfl).trans Cell.same_set_iff
  | get key =>
    refine iff_of_true ((agrees_iff_sameAt rfl).mpr (Cell.same_read ?_)) trivial
    rfl
  | delete key => exact (agrees_iff_sameAt rfl).trans (Cell.same_delete_iff (hb _))
  | existsKey key =>
    refine iff_of_true ((agrees_iff_sameAt rfl).mpr (Cell.same_read ?_)) trivial
    rfl
  | ttl key => exact (agrees_iff_sameAt rfl).trans Cell.same_ttl_iff
  | expire key ttlSeconds => exact (agrees_iff_sameAt rfl).trans (Cell.same_expire_iff (hb _))
  | incr key amount => exact (agrees_iff_sameAt rfl).trans (Cell.same_incr_iff (hb _))
  | decr key amount => exact (agrees_iff_sameAt rfl).trans (Cell.same_incr_iff (hb _))
  | hset name key value => exact (agrees_iff_sameAt rfl).trans (Cell.same_nest_iff (hb _))
  | hget name key =>
    refine iff_of_true ((agrees_iff_sameAt rfl).mpr (Cell.same_read ?_)) trivial
    rfl
  | hgetall name =>
    refine iff_of_true ((agrees_iff_sameAt rfl).mpr (Cell.same_read ?_)) trivial
    rfl
  | hdel name key => exact (agrees_iff_sameAt rfl).trans Cell.same_hdel_iff
  | lpush key values => exact (agrees_iff_sameAt rfl).trans (Cell.same_nest_iff (hb _))
  | rpush key values => exact (agrees_iff_sameAt rfl).trans (Cell.same_nest_iff (hb _))
  | lrange key start stop =>
    refine iff_of_true ((agrees_iff_sameAt rfl).mpr (Cell.same_read ?_)) trivial
    simp [Memory.listData, slice, sliceFrom]
  | llen key => exact iff_of_true ((agrees_iff_sameAt rfl).mpr Cell.same_llen) trivial
  | mset mapping =>
    exact iff_of_true ⟨rfl, visible_mset hvis t mapping⟩ trivial
  | mget ks =>
    obtain ⟨hr, hs⟩ := hswept.mgetLoop t ks
    exact iff_of_true ⟨congrArg Reply.values hr, fun k => (hs.visible k).symm⟩ trivial
  | deleteMany ks =>
    obtain ⟨g, hg, hz, hs⟩ := hswept.deleteLoop hb t ks 0 0
    constructor
    · intro h
      have hc := h.1
      simp only [Op.perform, Memory.deleteMany, Reply.int.injEq, Nat.cast_inj] at hc
      exact hz.mp (by omega)
    · intro h
      have h0 := hz.mpr h
      refine ⟨?_, fun k => (hs.visible k).symm⟩
      simp only [Op.perform, Memory.deleteMany, Reply.int.injEq, Nat.cast_inj]
      omega
  | keys pattern =>
    refine iff_of_true ⟨?_, hvis⟩ trivial
    simp only [Op.perform, Memory.keys, Memory.matching_removeExpired]
  | scan cursor pattern count =>
    refine iff_of_true ⟨?_, hvis⟩ trivial
    simp only [Op.perform, Memory.scan, Memory.matching_removeExpired]
  | flush =>
    refine iff_of_true ⟨rfl, ?_⟩ trivial
    intro k
    simp only [Op.perform, visible_flush, hvis]
  | flushAll => exact iff_of_true ⟨rfl, fun _ => rfl⟩ trivial

end Operations

section Example
attribute [local instance] wholeSeconds asciiUnicode

def someTenant : Tenant := makeTenant (some (lit "u")) (some (lit "o"))

/-- A counter that was set to 5 for one second at 100. -/
def countedStore : Memory Int :=
  ((Op.set (lit "c") (lit "5") 1).perform someTenant (100 : Int) Memory.empty).2

theorem countedStore_reachable : countedStore.Reachable :=
  ⟨[.operation someTenant 100 (.set (lit "c") (lit "5") 1)], rfl⟩

theorem get_agrees_on_countedStore : Agrees someTenant 200 countedStore (.get (lit "c")) :=
  (lazy_expiry_unobservable_iff countedStore_reachable someTenant 200 (.get (lit "c"))).mpr trivial

/-- At 200 the next `incr` answers 6 from the dead counter and 1 after a sweep. -/
theorem expired_counter_continues : ¬ ∀ m : Memory Int, m.Reachable → ∀ t now op, Agrees t now m op := by
  intro h
  have hr := (h countedStore countedStore_reachable someTenant 200 (.incr (lit "c") 1)).1
  exact absurd hr (by decide)

end Example

/-! ## What the statistics count

`get_stats` takes the number of stored keys and subtracts the expired entries of
the other dictionary. The difference counts visible keys because an entry with a
deadline always belongs to a stored key.
-/

structure CacheStats where
  totalKeys : Int
  activeKeys : Int
  expiredPending : Int
  storageType : Str

namespace Memory
variable {T : Type} [Clock T] (m : Memory T) (clock : Str → T)

/-- The entries that are expired when the clock is read for them. -/
def expiredKeys : List Str := m.expiry.keys.filter fun k => m.isExpired (clock k) k

/-- `get_stats`, which reads the clock anew for every key that has an expiry entry. -/
def getStats : CacheStats where
  totalKeys := m.store.size
  activeKeys := m.store.size - (m.expiredKeys clock).length
  expiredPending := (m.expiredKeys clock).length
  storageType := lit "in-memory"

/-- The keys a client can see, each at the time its entry is looked at. -/
def visibleKeys : List Str := m.store.keys.filter fun k => (m.visible (clock k) k).isSome

variable {m}

omit [Clock T] in
theorem Backed.stored_of_deadline (h : m.Backed) {k : Str} (hk : k ∈ m.expiry.keys) : k ∈ m.store.keys :=
  Dict.mem_keys.mpr (h k (Dict.mem_keys.mp hk))

theorem visible_isSome_iff {now : T} {k : Str} (hk : k ∈ m.store.keys) :
    (m.visible now k).isSome = !m.isExpired now k := by
  rw [visible, Cell.visible, isExpired_eq]
  cases (m.cell k).expired now with
  | true => rfl
  | false => simpa [cell] using Dict.mem_keys.mp hk

/-- Either dictionary lists the same expired keys. -/
theorem Backed.perm_expiredKeys (h : m.Backed) :
    (m.expiredKeys clock).Perm (m.store.keys.filter fun k => m.isExpired (clock k) k) := by
  apply (List.perm_ext_iff_of_nodup (m.expiry.keys_nodup.filter _) (m.store.keys_nodup.filter _)).mpr
  intro k
  rw [List.mem_filter, List.mem_filter, and_congr_left_iff]
  intro he
  constructor
  · exact h.stored_of_deadline
  · intro _
    exact Dict.mem_keys.mpr (Cell.deadline_of_expired (c := m.cell k) he)

theorem Backed.size_eq (h : m.Backed) :
    m.store.size = (m.expiredKeys clock).length + (m.visibleKeys clock).length := by
  have hvisible : m.visibleKeys clock = m.store.keys.filter fun k => !m.isExpired (clock k) k :=
    List.filter_congr fun k hk => visible_isSome_iff hk
  rw [(h.perm_expiredKeys clock).length_eq, hvisible, ← Dict.keys_length]
  exact List.length_eq_length_filter_add _

end Memory

theorem stats_count_visible {T : Type} [Clock T] [Unicode] (events : List (Event T)) (clock : Str → T) :
    let m := run Event.apply Memory.empty events
    (∀ k ∈ m.expiry.keys, k ∈ m.store.keys) ∧
      (m.getStats clock).activeKeys = (m.visibleKeys clock).length ∧ 0 ≤ (m.getStats clock).activeKeys ∧
        (m.getStats clock).totalKeys = (m.getStats clock).activeKeys + (m.getStats clock).expiredPending := by
  intro m
  have hbacked : m.Backed := Memory.Reachable.backed ⟨events, rfl⟩
  have hsize := hbacked.size_eq clock
  have hactive : (m.getStats clock).activeKeys = (m.visibleKeys clock).length := by
    simp only [Memory.getStats, hsize]
    omega
  refine ⟨fun k hk => hbacked.stored_of_deadline hk, hactive, ?_, ?_⟩
  · rw [hactive]
    exact Int.natCast_nonneg _
  · simp only [Memory.getStats]
    omega

end IsaCloud.Cache
