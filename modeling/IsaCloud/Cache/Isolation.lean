import IsaCloud.Cache.LazyExpiry
import IsaCloud.Cache.Scan
import IsaCloud.Support.Runs

/-!
# Tenants on one store

Two clients with different tenants share the store. If neither tenant's prefix
begins with the other's, the operations of the first touch no key of the second;
if besides the second tenant's prefix means itself in a pattern, its listings are
made of its own keys only.
-/

namespace IsaCloud.Cache

set_option autoImplicit false

open Support Support.Text Support.Python Support.Glob

namespace Tenant

/-- A stored key of the tenant. -/
def owns (t : Tenant) (k : Str) : Bool := decide (t.getKeyPrefix <+: k)

theorem owns_prefixKey (t : Tenant) (key : Str) : t.owns (t.prefixKey key) = true := by
  rw [owns, decide_eq_true_eq, prefixKey]
  split
  · assumption
  · exact List.prefix_append _ _

theorem ne_prefixKey (t : Tenant) {k : Str} (h : t.owns k = false) (key : Str) : k ≠ t.prefixKey key := by
  rintro rfl
  rw [t.owns_prefixKey] at h
  cases h

theorem prefixKey_unprefixKey {t : Tenant} {k : Str} (h : t.owns k = true) :
    t.getKeyPrefix ++ t.unprefixKey k = k := by
  rw [owns, decide_eq_true_eq] at h
  obtain ⟨rest, rfl⟩ := h
  rw [unprefixKey, if_pos (List.prefix_append _ _), List.drop_left]

/-- A pattern is a name behind the prefix, whether or not it was given with it. -/
theorem prefixKey_eq (t : Tenant) (pattern : Str) :
    t.prefixKey pattern = t.getKeyPrefix ++ t.unprefixKey pattern := by
  by_cases h : t.getKeyPrefix <+: pattern
  · obtain ⟨rest, rfl⟩ := h
    rw [prefixKey, unprefixKey, if_pos (List.prefix_append _ _), if_pos (List.prefix_append _ _),
      List.drop_left]
  · rw [prefixKey, unprefixKey, if_neg h, if_neg h]

/-- Neither prefix begins with the other. -/
def Apart (t u : Tenant) : Prop :=
  ¬ t.getKeyPrefix <+: u.getKeyPrefix ∧ ¬ u.getKeyPrefix <+: t.getKeyPrefix

theorem Apart.not_both {t u : Tenant} (h : t.Apart u) {k : Str} (ht : t.owns k = true) : u.owns k = false := by
  rw [owns, decide_eq_false_iff_not]
  intro hu
  rw [owns, decide_eq_true_eq] at ht
  rcases List.prefix_or_prefix_of_prefix ht hu with htu | hut
  · exact h.1 htu
  · exact h.2 hut

end Tenant

/-! ## What an operation can change -/

section Confined
variable {T : Type} [Clock T]

theorem cell_mset_confined {t : Tenant} (m : Memory T) (mapping : Dict Str Str) {k : Str}
    (h : t.owns k = false) : (m.mset t mapping).2.cell k = m.cell k := by
  simp only [Memory.mset]
  generalize mapping.entries = es
  induction es generalizing m with
  | nil => rfl
  | cons e es ih =>
    rw [List.foldl_cons, ih, Memory.cell_assign, if_neg (t.ne_prefixKey h e.1)]

theorem cell_mgetLoop_confined {t : Tenant} (now : T) (ks : List Str) (m : Memory T) {k : Str}
    (h : t.owns k = false) : (Memory.mgetLoop t now ks m).2.cell k = m.cell k := by
  induction ks generalizing m with
  | nil => rfl
  | cons key ks ih =>
    rw [Memory.mgetLoop]
    split
    · rw [ih, Memory.cell_drop, if_neg (t.ne_prefixKey h key)]
    · rw [ih]

omit [Clock T] in
theorem cell_deleteLoop_confined {t : Tenant} (ks : List Str) (n : Nat) (m : Memory T) {k : Str}
    (h : t.owns k = false) : (Memory.deleteLoop t ks n m).2.cell k = m.cell k := by
  induction ks generalizing m n with
  | nil => rfl
  | cons key ks ih =>
    rw [Memory.deleteLoop]
    split
    · rw [ih, Memory.cell_drop, if_neg (t.ne_prefixKey h key)]
    · rw [ih]

variable [Unicode]

theorem Op.key_owned {t : Tenant} {now : T} {op : Op} {k : Str} {f : Cell T → Reply × Cell T}
    (h : op.touch t now = some (k, f)) : t.owns k = true := by
  have hk : ∃ key, k = t.prefixKey key := by
    cases op <;> cases h <;> exact ⟨_, rfl⟩
  obtain ⟨key, rfl⟩ := hk
  exact t.owns_prefixKey key

/-- Only `flush_all` changes a cell outside the tenant's own keys. -/
theorem Op.confined {t : Tenant} {now : T} {op : Op} (hop : op ≠ .flushAll) (m : Memory T) {k : Str}
    (h : t.owns k = false) : (op.perform t now m).2.cell k = m.cell k := by
  cases ht : op.touch t now with
  | some kf =>
    obtain ⟨k', f⟩ := kf
    refine (Op.acts ht m).there k ?_
    rintro rfl
    rw [Op.key_owned ht] at h
    cases h
  | none =>
    cases op with
    | mset mapping => exact cell_mset_confined m mapping h
    | mget ks => exact cell_mgetLoop_confined now ks m h
    | deleteMany ks => exact cell_deleteLoop_confined ks 0 m h
    | keys pattern => rfl
    | scan cursor pattern count => rfl
    | flush =>
      simp only [Op.perform, Memory.flush]
      rw [Memory.cell_foldl_drop, if_neg]
      intro hk
      rw [Tenant.owns, (List.mem_filter.mp hk).2] at h
      cases h
    | flushAll => exact absurd rfl hop
    | _ => cases ht

end Confined

/-! ## What a tenant can see -/

section Seen
variable {T : Type} [Clock T]

/-- The two stores hold the same keys of the tenant, in the same order, with the same cells. -/
structure Seen (t : Tenant) (m m' : Memory T) : Prop where
  cells : ∀ k, t.owns k = true → m.cell k = m'.cell k
  order : m.store.keys.filter t.owns = m'.store.keys.filter t.owns

omit [Clock T] in
theorem Seen.refl (t : Tenant) (m : Memory T) : Seen t m m := ⟨fun _ _ => rfl, rfl⟩

omit [Clock T] in
theorem mem_keys_iff (m : Memory T) (k : Str) : k ∈ m.store.keys ↔ (m.cell k).value.isSome = true :=
  Dict.mem_keys

omit [Clock T] in
/-- A foreign operation that leaves the cells alone leaves the listing alone. -/
theorem Seen.foreign {t : Tenant} {m m' n : Memory T} (h : Seen t m m')
    (hk : KeepsOrder m.store.keys n.store.keys) (hc : ∀ k, t.owns k = true → n.cell k = m.cell k) :
    Seen t n m' := by
  refine ⟨fun k ho => (hc k ho).trans (h.cells k ho), ?_⟩
  rw [hk.filter_eq n.store.keys_nodup ?_, h.order]
  intro k ho
  rw [mem_keys_iff, mem_keys_iff, hc k ho]

omit [Clock T] in
/-- Both sides change the cell of one own key, and only that, in the same way. -/
theorem Seen.both {t : Tenant} {m m' n n' : Memory T} {k : Str} (h : Seen t m m') (ho : t.owns k = true)
    (hk : KeepsOrder m.store.keys n.store.keys) (hk' : KeepsOrder m'.store.keys n'.store.keys)
    (hc : ∀ x, x ≠ k → n.cell x = m.cell x) (hc' : ∀ x, x ≠ k → n'.cell x = m'.cell x)
    (hnew : n.cell k = n'.cell k) : Seen t n n' := by
  refine ⟨?_, ?_⟩
  · intro x hx
    by_cases hxk : x = k
    · rw [hxk, hnew]
    · rw [hc x hxk, hc' x hxk, h.cells x hx]
  · have hn := hk.eq_place n.store.keys_nodup (k := k)
      (fun x hx => by rw [mem_keys_iff, mem_keys_iff, hc x hx]) (mem_keys_iff n k).symm
    have hn' := hk'.eq_place n'.store.keys_nodup (k := k)
      (fun x hx => by rw [mem_keys_iff, mem_keys_iff, hc' x hx]) (mem_keys_iff n' k).symm
    rw [hn, hn', filter_place ho, filter_place ho, h.order, hnew]

omit [Clock T] in
theorem Seen.drop {t : Tenant} {m m' : Memory T} {k : Str} (h : Seen t m m') (ho : t.owns k = true) :
    Seen t (m.drop k) (m'.drop k) := by
  refine h.both ho (Memory.keys_foldl [k] m) (Memory.keys_foldl [k] m') ?_ ?_ ?_
  · exact fun x hx => by rw [Memory.cell_drop, if_neg hx]
  · exact fun x hx => by rw [Memory.cell_drop, if_neg hx]
  · rw [Memory.cell_drop, Memory.cell_drop, if_pos rfl, if_pos rfl]

omit [Clock T] in
theorem Seen.foldl_drop {t : Tenant} {m m' : Memory T} {ks : List Str} (h : Seen t m m')
    (ho : ∀ k ∈ ks, t.owns k = true) : Seen t (ks.foldl Memory.drop m) (ks.foldl Memory.drop m') := by
  induction ks generalizing m m' with
  | nil => exact h
  | cons k ks ih =>
    exact ih (h.drop (ho k List.mem_cons_self)) fun x hx => ho x (List.mem_cons_of_mem k hx)

theorem Seen.isExpired {t : Tenant} {m m' : Memory T} {k : Str} (h : Seen t m m') (ho : t.owns k = true)
    (now : T) : m.isExpired now k = m'.isExpired now k := by
  rw [Memory.isExpired_eq, Memory.isExpired_eq, h.cells k ho]

omit [Clock T] in
theorem Seen.get {t : Tenant} {m m' : Memory T} {k : Str} (h : Seen t m m') (ho : t.owns k = true) :
    m.store.get k = m'.store.get k := congrArg Cell.value (h.cells k ho)

theorem Seen.mset {t : Tenant} {m m' : Memory T} (h : Seen t m m') (mapping : Dict Str Str) :
    Seen t (m.mset t mapping).2 (m'.mset t mapping).2 := by
  simp only [Memory.mset]
  generalize mapping.entries = es
  induction es generalizing m m' with
  | nil => exact h
  | cons e es ih =>
    refine ih (h.both (t.owns_prefixKey e.1) (Memory.keepsOrder_set _ _ _) (Memory.keepsOrder_set _ _ _) ?_ ?_ ?_)
    · exact fun x hx => by rw [Memory.cell_assign, if_neg hx]
    · exact fun x hx => by rw [Memory.cell_assign, if_neg hx]
    · rw [Memory.cell_assign, Memory.cell_assign, if_pos rfl, if_pos rfl]

theorem Seen.mgetLoop {t : Tenant} {m m' : Memory T} (h : Seen t m m') (now : T) (ks : List Str) :
    (Memory.mgetLoop t now ks m).1 = (Memory.mgetLoop t now ks m').1 ∧
      Seen t (Memory.mgetLoop t now ks m).2 (Memory.mgetLoop t now ks m').2 := by
  induction ks generalizing m m' with
  | nil => exact ⟨rfl, h⟩
  | cons key ks ih =>
    have ho := t.owns_prefixKey key
    have hexp := h.isExpired ho now
    cases he : m.isExpired now (t.prefixKey key) with
    | true =>
      rw [he] at hexp
      obtain ⟨hr, hs⟩ := ih (h.drop ho)
      simp only [Memory.mgetLoop, he, ← hexp, if_true, hr]
      exact ⟨trivial, hs⟩
    | false =>
      rw [he] at hexp
      obtain ⟨hr, hs⟩ := ih h
      simp only [Memory.mgetLoop, he, ← hexp, Bool.false_eq_true, if_false, hr, h.get ho]
      exact ⟨trivial, hs⟩

omit [Clock T] in
theorem Seen.deleteLoop {t : Tenant} {m m' : Memory T} (h : Seen t m m') (ks : List Str) (n : Nat) :
    (Memory.deleteLoop t ks n m).1 = (Memory.deleteLoop t ks n m').1 ∧
      Seen t (Memory.deleteLoop t ks n m).2 (Memory.deleteLoop t ks n m').2 := by
  induction ks generalizing m m' n with
  | nil => exact ⟨rfl, h⟩
  | cons key ks ih =>
    have ho := t.owns_prefixKey key
    have hc : m.store.contains (t.prefixKey key) = m'.store.contains (t.prefixKey key) := by
      rw [Dict.contains, Dict.contains, h.get ho]
    cases hm : m.store.contains (t.prefixKey key) with
    | true =>
      rw [hm] at hc
      simp only [Memory.deleteLoop, hm, ← hc, if_true]
      exact ih (h.drop ho) (n + 1)
    | false =>
      rw [hm] at hc
      simp only [Memory.deleteLoop, hm, ← hc, Bool.false_eq_true, if_false]
      exact ih h n

/-! ## Listings -/

/-- The matches of a pattern, if the prefix means itself, are own keys. -/
theorem matching_owned {t : Tenant} (hp : Plain t.getKeyPrefix) (m : Memory T) (now : T) (pattern : Str) :
    m.matching t now pattern = (m.store.keys.filter t.owns).filter fun k =>
      fnmatch k (t.prefixKey pattern) && !m.isExpired now k := by
  rw [Memory.matching, List.filter_filter]
  apply List.filter_congr
  intro k _
  cases hm : fnmatch k (t.prefixKey pattern) with
  | false => simp
  | true =>
    rw [t.prefixKey_eq] at hm
    obtain ⟨rest, rfl, -⟩ := (fnmatch_append_plain hp _ _).mp hm
    have ho : t.owns (t.getKeyPrefix ++ rest) = true := by simp [Tenant.owns]
    simp [ho]

theorem Seen.matching {t : Tenant} {m m' : Memory T} (h : Seen t m m') (hp : Plain t.getKeyPrefix)
    (now : T) (pattern : Str) : m.matching t now pattern = m'.matching t now pattern := by
  rw [matching_owned hp, matching_owned hp, h.order]
  apply List.filter_congr
  intro k hk
  rw [h.isExpired (List.mem_filter.mp hk).2]

/-- A listing is exactly the tenant's own unexpired names that match, each once. -/
theorem keys_exact {t : Tenant} (hp : Plain t.getKeyPrefix) (m : Memory T) (now : T) (pattern : Str) :
    ∃ l, m.keys t now pattern = .names l ∧ l.Nodup ∧ ∀ n, n ∈ l ↔
      t.getKeyPrefix ++ n ∈ m.store.keys ∧ m.isExpired now (t.getKeyPrefix ++ n) = false ∧
        fnmatch n (t.unprefixKey pattern) = true := by
  refine ⟨_, rfl, ?_, ?_⟩
  · refine List.Nodup.map_on ?_ (matching_nodup t pattern m now)
    intro x hx y hy hxy
    rw [matching_owned hp] at hx hy
    have hox := (List.mem_filter.mp (List.mem_filter.mp hx).1).2
    have hoy := (List.mem_filter.mp (List.mem_filter.mp hy).1).2
    rw [← Tenant.prefixKey_unprefixKey hox, ← Tenant.prefixKey_unprefixKey hoy, hxy]
  · intro n
    rw [List.mem_map]
    constructor
    · rintro ⟨k, hk, rfl⟩
      obtain ⟨hkeys, hmatch, hlive⟩ := (mem_matching t pattern).mp hk
      rw [t.prefixKey_eq, fnmatch_append_plain hp] at hmatch
      obtain ⟨rest, rfl, hrest⟩ := hmatch
      have hun : t.unprefixKey (t.getKeyPrefix ++ rest) = rest := by
        rw [Tenant.unprefixKey, if_pos (List.prefix_append _ _), List.drop_left]
      rw [hun]
      exact ⟨hkeys, hlive, hrest⟩
    · rintro ⟨hkeys, hlive, hmatch⟩
      refine ⟨t.getKeyPrefix ++ n, (mem_matching t pattern).mpr ⟨hkeys, ?_, hlive⟩, ?_⟩
      · rw [t.prefixKey_eq, fnmatch_append_plain hp]
        exact ⟨n, rfl, hmatch⟩
      · rw [Tenant.unprefixKey, if_pos (List.prefix_append _ _), List.drop_left]

end Seen

/-! ## Runs of two tenants -/

section Runs
variable {T : Type} [Clock T]

/-- An operation of one of the two clients, or the sweeper. -/
inductive Act (T : Type) where
  | first (now : T) (op : Op)
  | second (now : T) (op : Op)
  | sweep (now : T)

def Act.hidden : Act T → Bool
  | .first _ _ => true
  | _ => false

theorem Seen.sweep {t : Tenant} {m m' : Memory T} (h : Seen t m m') (now : T) :
    Seen t (m.removeExpired now) (m'.removeExpired now) := by
  refine ⟨?_, ?_⟩
  · intro k ho
    rw [m.swept_removeExpired now k, m'.swept_removeExpired now k, h.cells k ho]
  · rw [Memory.keys_removeExpired, Memory.keys_removeExpired, List.filter_filter, List.filter_filter]
    have hcomm : ∀ n : Memory T, (n.store.keys.filter fun k => t.owns k && !n.isExpired now k) =
        (n.store.keys.filter t.owns).filter fun k => !n.isExpired now k := by
      intro n
      rw [List.filter_filter]
      apply List.filter_congr
      intro k _
      exact Bool.and_comm _ _
    rw [hcomm m, hcomm m', h.order]
    apply List.filter_congr
    intro k hk
    rw [h.isExpired (List.mem_filter.mp hk).2]

variable [Unicode] (t u : Tenant)

def Act.apply (m : Memory T) : Act T → Memory T
  | .first now op => (op.perform t now m).2
  | .second now op => (op.perform u now m).2
  | .sweep now => m.removeExpired now

/-- What the second client gets to see. -/
def Act.answer (m : Memory T) : Act T → Option Reply
  | .second now op => some (op.perform u now m).1
  | _ => none

variable {t u}

/-- An operation of the tenant depends on what it can see, and nothing else. -/
theorem Seen.perform {m m' : Memory T} (h : Seen u m m') (hp : Plain u.getKeyPrefix) (now : T) (op : Op) :
    (op.perform u now m).1 = (op.perform u now m').1 ∧
      Seen u (op.perform u now m).2 (op.perform u now m').2 := by
  cases ht : op.touch u now with
  | some kf =>
    obtain ⟨k, f⟩ := kf
    have ho := Op.key_owned ht
    have ha := Op.acts ht m
    have ha' := Op.acts ht m'
    refine ⟨by rw [ha.reply, ha'.reply, h.cells k ho], ?_⟩
    refine h.both ho (Memory.keepsOrder_perform u now m op) (Memory.keepsOrder_perform u now m' op)
      ha.there ha'.there ?_
    rw [ha.here, ha'.here, h.cells k ho]
  | none =>
    cases op with
    | mset mapping => exact ⟨rfl, h.mset mapping⟩
    | mget ks =>
      obtain ⟨hr, hs⟩ := h.mgetLoop now ks
      exact ⟨congrArg Reply.values hr, hs⟩
    | deleteMany ks =>
      obtain ⟨hr, hs⟩ := h.deleteLoop ks 0
      exact ⟨congrArg (fun n : Nat => Reply.int n) hr, hs⟩
    | keys pattern =>
      refine ⟨?_, h⟩
      simp only [Op.perform, Memory.keys, h.matching hp]
    | scan cursor pattern count =>
      refine ⟨?_, h⟩
      simp only [Op.perform, Memory.scan, h.matching hp]
    | flush =>
      refine ⟨rfl, ?_⟩
      have hsame : (m.store.keys.filter fun k => decide (u.getKeyPrefix <+: k)) =
          m'.store.keys.filter fun k => decide (u.getKeyPrefix <+: k) := h.order
      simp only [Op.perform, Memory.flush, hsame]
      exact h.foldl_drop fun k hk => (List.mem_filter.mp hk).2
    | flushAll => exact ⟨rfl, .refl u _⟩
    | _ => cases ht

/-- The first tenant without `flush_all`. -/
def Act.Mild : Act T → Prop
  | .first _ op => op ≠ .flushAll
  | _ => True

/-- Tenants with prefixes apart: whatever the first does, the second gets the answers it would get
without it; and the second's listings are exactly its own names. -/
theorem tenants_isolated (hapart : t.Apart u) (hp : Plain u.getKeyPrefix) :
    (∀ (m : Memory T) (acts : List (Act T)), (∀ a ∈ acts, a.Mild) →
      observe (Act.apply t u) (Act.answer u) Act.hidden m acts =
        observe (Act.apply t u) (Act.answer u) Act.hidden m (acts.filter fun a => !a.hidden)) ∧
    (∀ (m : Memory T) (now : T) (pattern : Str), ∃ l, m.keys u now pattern = .names l ∧ l.Nodup ∧
      ∀ n, n ∈ l ↔ u.getKeyPrefix ++ n ∈ m.store.keys ∧
        m.isExpired now (u.getKeyPrefix ++ n) = false ∧ fnmatch n (u.unprefixKey pattern) = true) := by
  refine ⟨?_, fun m now pattern => keys_exact hp m now pattern⟩
  intro m acts hmild
  refine observe_filter (R := Seen u) (P := Act.Mild) ?_ ?_ hmild (.refl u m)
  · intro s s' a hidden hm h
    cases a with
    | first now op =>
      refine h.foreign (Memory.keepsOrder_perform t now s op) ?_
      intro k ho
      refine Op.confined hm s ?_
      cases ht : t.owns k with
      | false => rfl
      | true =>
        rw [hapart.not_both ht] at ho
        cases ho
    | second now op => cases hidden
    | sweep now => cases hidden
  · intro s s' a visible h
    cases a with
    | first now op => cases visible
    | second now op =>
      obtain ⟨hr, hs⟩ := h.perform hp now op
      exact ⟨congrArg some hr, hs⟩
    | sweep now => exact ⟨rfl, h.sweep now⟩

end Runs

section Example
attribute [local instance] wholeSeconds asciiUnicode

def userOne : Tenant := makeTenant (some (lit "u1")) (some (lit "o"))

def userTwo : Tenant := makeTenant (some (lit "u2")) (some (lit "o"))

theorem users_of_one_organization_isolated :
    observe (Act.apply userOne userTwo) (Act.answer userTwo) Act.hidden (Memory.empty : Memory Int)
        [.first 0 (.set (lit "k") (lit "1") 0), .second 0 (.keys (lit "*"))] =
      observe (Act.apply userOne userTwo) (Act.answer userTwo) Act.hidden Memory.empty
        ([.second 0 (.keys (lit "*"))] : List (Act Int)) := by
  have hapart : userOne.Apart userTwo := by
    unfold Tenant.Apart
    decide
  have hplain : Plain userTwo.getKeyPrefix := by decide
  refine (tenants_isolated (T := Int) hapart hplain).1 Memory.empty
    [.first 0 (.set (lit "k") (lit "1") 0), .second 0 (.keys (lit "*"))] ?_
  intro a ha
  rw [List.mem_cons, List.mem_singleton] at ha
  rcases ha with rfl | rfl
  · exact Op.noConfusion
  · trivial

/-- The user `b:c` of an organization shares its keys with the keys `c:…` of the user `b`. -/
theorem separator_in_user_id_leaks : ¬ ∀ t u : Tenant, t ≠ u → t.organizationId ≠ [] → t.userId ≠ [] →
    u.organizationId ≠ [] → u.userId ≠ [] →
    ∀ (m : Memory Int) (acts : List (Act Int)), (∀ a ∈ acts, a.Mild) →
      observe (Act.apply t u) (Act.answer u) Act.hidden m acts =
        observe (Act.apply t u) (Act.answer u) Act.hidden m (acts.filter fun a => !a.hidden) := by
  intro h
  have hrun := h ⟨lit "a", lit "b"⟩ ⟨lit "a", lit "b:c"⟩ (by decide) (by decide) (by decide) (by decide)
    (by decide) Memory.empty [.first 0 (.set (lit "c:k") (lit "1") 0), .second 0 (.get (lit "k"))] (by
      intro a ha
      rw [List.mem_cons, List.mem_singleton] at ha
      rcases ha with rfl | rfl
      · exact Op.noConfusion
      · trivial)
  exact absurd hrun (by decide)

end Example

end IsaCloud.Cache
