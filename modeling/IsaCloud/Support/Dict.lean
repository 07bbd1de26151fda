import Mathlib.Data.List.Induction
import Mathlib.Data.List.Nodup
import Mathlib.Data.List.Basic

/-!
# Dictionaries that remember insertion order

A Python `dict`: each key occurs once, an assignment to a present key keeps its
place, a new key goes to the end. Lookups are described by `get`, iteration by
`keys`.
-/

namespace Support

set_option autoImplicit false

universe u v

structure Dict (K : Type u) (V : Type v) where
  entries : List (K × V)
  nodup : (entries.map Prod.fst).Nodup
  deriving DecidableEq

namespace Dict
variable {K : Type u} {V : Type v}

/-! ## The list of entries -/

section Entries
variable [DecidableEq K]

def find : List (K × V) → K → Option V
  | [], _ => none
  | (k', v) :: rest, k => if k' = k then some v else find rest k

def assign : List (K × V) → K → V → List (K × V)
  | [], k, v => [(k, v)]
  | (k', v') :: rest, k, v => if k' = k then (k', v) :: rest else (k', v') :: assign rest k v

theorem find_isSome {es : List (K × V)} {k : K} :
    (find es k).isSome ↔ k ∈ es.map Prod.fst := by
  induction es with
  | nil => simp [find]
  | cons e es ih =>
    by_cases h : e.1 = k
    · simp [find, h]
    · have h' : k ≠ e.1 := fun hk => h hk.symm
      simp only [find, h, if_false, ih, List.map_cons, List.mem_cons, h', false_or]

theorem find_assign (es : List (K × V)) (k k' : K) (v : V) :
    find (assign es k v) k' = if k' = k then some v else find es k' := by
  induction es with
  | nil =>
    by_cases h : k' = k
    · simp [assign, find, h]
    · have hk : k ≠ k' := fun hk => h hk.symm
      simp [assign, find, h, hk]
  | cons e es ih =>
    by_cases h : e.1 = k
    · by_cases h' : k' = k
      · simp [assign, find, h, h']
      · have hk : k ≠ k' := fun hk => h' hk.symm
        simp [assign, find, h, h', hk]
    · rw [assign, if_neg h, find, find, ih]
      by_cases h' : k' = k
      · have hne : e.1 ≠ k' := fun he => h (he.trans h')
        simp [h', h]
      · simp [h']

theorem keys_assign (es : List (K × V)) (k : K) (v : V) :
    (assign es k v).map Prod.fst =
      if k ∈ es.map Prod.fst then es.map Prod.fst else es.map Prod.fst ++ [k] := by
  induction es with
  | nil => simp [assign]
  | cons e es ih =>
    by_cases h : e.1 = k
    · simp [assign, h]
    · have h' : k ≠ e.1 := fun hk => h hk.symm
      rw [assign, if_neg h, List.map_cons, ih, List.map_cons]
      by_cases hm : k ∈ es.map Prod.fst
      · rw [if_pos hm, if_pos (List.mem_cons_of_mem e.1 hm)]
      · rw [if_neg hm, if_neg (by simpa [h'] using hm), List.cons_append]

theorem find_filter (es : List (K × V)) (p : K → Bool) (k : K) :
    find (es.filter fun e => p e.1) k = if p k then find es k else none := by
  induction es with
  | nil => simp [find]
  | cons e es ih =>
    cases hp : p e.1 with
    | true =>
      simp only [List.filter_cons, hp, if_true, find, ih]
      by_cases h : e.1 = k
      · simp [← h, hp]
      · simp [h]
    | false =>
      simp only [List.filter_cons, hp, Bool.false_eq_true, if_false, find, ih]
      by_cases h : e.1 = k
      · simp [← h, hp]
      · simp [h]

theorem find_of_mem {es : List (K × V)} (hn : (es.map Prod.fst).Nodup) {e : K × V} (h : e ∈ es) :
    find es e.1 = some e.2 := by
  induction es with
  | nil => cases h
  | cons x es ih =>
    rw [List.map_cons, List.nodup_cons] at hn
    rcases List.mem_cons.mp h with rfl | h
    · simp [find]
    · have hne : x.1 ≠ e.1 := fun hx => hn.1 (hx ▸ List.mem_map_of_mem h)
      rw [find, if_neg hne]
      exact ih hn.2 h

theorem mem_of_find {es : List (K × V)} {k : K} {v : V} (h : find es k = some v) : (k, v) ∈ es := by
  induction es with
  | nil => cases h
  | cons e es ih =>
    rw [find] at h
    by_cases he : e.1 = k
    · rw [if_pos he] at h
      rw [← he, ← Option.some.inj h]
      exact List.mem_cons_self
    · rw [if_neg he] at h
      exact List.mem_cons_of_mem e (ih h)

end Entries

/-! ## Operations -/

def empty : Dict K V := ⟨[], List.nodup_nil⟩

def keys (d : Dict K V) : List K := d.entries.map Prod.fst

def size (d : Dict K V) : Nat := d.entries.length

theorem keys_nodup (d : Dict K V) : d.keys.Nodup := d.nodup

@[simp] theorem keys_empty : (empty : Dict K V).keys = [] := rfl

@[simp] theorem keys_length (d : Dict K V) : d.keys.length = d.size := List.length_map _

section Operations
variable [DecidableEq K]

def get (d : Dict K V) (k : K) : Option V := find d.entries k

def contains (d : Dict K V) (k : K) : Bool := (d.get k).isSome

/-- `d[k] = v`. -/
def set (d : Dict K V) (k : K) (v : V) : Dict K V where
  entries := assign d.entries k v
  nodup := by
    rw [keys_assign]
    split
    · exact d.nodup
    · rename_i h
      rw [List.nodup_append]
      refine ⟨d.nodup, List.nodup_singleton k, ?_⟩
      intro a ha b hb hab
      rw [List.mem_singleton] at hb
      exact h (hb ▸ hab ▸ ha)

/-- The entries whose key passes the test. -/
def restrict (d : Dict K V) (p : K → Bool) : Dict K V where
  entries := d.entries.filter fun e => p e.1
  nodup := (List.filter_sublist.map Prod.fst).nodup d.nodup

/-- `d.pop(k, None)`. -/
def pop (d : Dict K V) (k : K) : Dict K V := d.restrict fun k' => !decide (k' = k)

@[simp] theorem get_empty (k : K) : (empty : Dict K V).get k = none := rfl

theorem mem_keys {d : Dict K V} {k : K} : k ∈ d.keys ↔ (d.get k).isSome := find_isSome.symm

theorem contains_iff {d : Dict K V} {k : K} : d.contains k = true ↔ k ∈ d.keys := mem_keys.symm

theorem get_set (d : Dict K V) (k k' : K) (v : V) :
    (d.set k v).get k' = if k' = k then some v else d.get k' := find_assign d.entries k k' v

@[simp] theorem get_set_self (d : Dict K V) (k : K) (v : V) : (d.set k v).get k = some v := by
  simp [get_set]

theorem get_set_of_ne (d : Dict K V) {k k' : K} (v : V) (h : k' ≠ k) :
    (d.set k v).get k' = d.get k' := by simp [get_set, h]

theorem get_restrict (d : Dict K V) (p : K → Bool) (k : K) :
    (d.restrict p).get k = if p k then d.get k else none := find_filter d.entries p k

omit [DecidableEq K] in
theorem keys_restrict (d : Dict K V) (p : K → Bool) : (d.restrict p).keys = d.keys.filter p := by
  simp [keys, restrict, List.filter_map, Function.comp_def]

theorem get_pop (d : Dict K V) (k k' : K) :
    (d.pop k).get k' = if k' = k then none else d.get k' := by
  rw [pop, get_restrict]
  by_cases h : k' = k <;> simp [h]

@[simp] theorem get_pop_self (d : Dict K V) (k : K) : (d.pop k).get k = none := by simp [get_pop]

theorem get_pop_of_ne (d : Dict K V) {k k' : K} (h : k' ≠ k) : (d.pop k).get k' = d.get k' := by
  simp [get_pop, h]

theorem keys_set_of_mem {d : Dict K V} {k : K} (v : V) (h : k ∈ d.keys) :
    (d.set k v).keys = d.keys := (keys_assign d.entries k v).trans (if_pos h)

theorem keys_set_of_not_mem {d : Dict K V} {k : K} (v : V) (h : k ∉ d.keys) :
    (d.set k v).keys = d.keys ++ [k] := (keys_assign d.entries k v).trans (if_neg h)

theorem entries_set_of_not_mem {d : Dict K V} {k : K} (v : V) (h : k ∉ d.keys) :
    (d.set k v).entries = d.entries ++ [(k, v)] := by
  show assign d.entries k v = d.entries ++ [(k, v)]
  replace h : k ∉ d.entries.map Prod.fst := h
  generalize d.entries = es at h
  induction es with
  | nil => rfl
  | cons e es ih =>
    rw [List.map_cons, List.mem_cons, not_or] at h
    rw [assign, if_neg (Ne.symm h.1), ih h.2, List.cons_append]

/-! ## Values one by one -/

section Values
variable {W E : Type v}

/-- `for k, v in items: result[k] = f(v)`, up to the first exception. -/
def assignEach (f : V → Except E W) (result : Dict K W) : List (K × V) → Except E (Dict K W)
  | [] => .ok result
  | (k, v) :: rest =>
    match f v with
    | .error e => .error e
    | .ok w => assignEach f (result.set k w) rest

/-- `{k: f(v) for k, v in d.items()}`. -/
def mapValues (f : V → Except E W) (d : Dict K V) : Except E (Dict K W) := assignEach f empty d.entries

/-- The same key, with the value that `f` makes of the value. -/
def Becomes (f : V → Except E W) (e : K × V) (e' : K × W) : Prop := e'.1 = e.1 ∧ f e.2 = .ok e'.2

omit [DecidableEq K] in
theorem keys_of_becomes {f : V → Except E W} {es : List (K × V)} {es' : List (K × W)}
    (h : List.Forall₂ (Becomes f) es es') : es'.map Prod.fst = es.map Prod.fst := by
  induction h with
  | nil => rfl
  | cons he _ ih => rw [List.map_cons, List.map_cons, he.1, ih]

theorem assignEach_ok_iff {f : V → Except E W} {result r : Dict K W} {es : List (K × V)}
    (hnodup : (es.map Prod.fst).Nodup) (hnew : ∀ k ∈ es.map Prod.fst, k ∉ result.keys) :
    assignEach f result es = .ok r ↔ ∃ es', List.Forall₂ (Becomes f) es es' ∧ r.entries = result.entries ++ es' := by
  induction es generalizing result with
  | nil =>
    constructor
    · intro h
      cases h
      exact ⟨[], .nil, (List.append_nil _).symm⟩
    · rintro ⟨es', h, hr⟩
      cases h
      rw [List.append_nil] at hr
      exact congrArg Except.ok (by cases r; cases result; cases hr; rfl)
  | cons e es ih =>
    obtain ⟨k, v⟩ := e
    obtain ⟨hk, hrest⟩ := List.nodup_cons.mp hnodup
    have hfresh := hnew k List.mem_cons_self
    rw [assignEach]
    cases hv : f v with
    | error x =>
      refine iff_of_false (fun h => nomatch h) ?_
      rintro ⟨es', h, -⟩
      cases h with
      | cons he _ => exact nomatch hv.symm.trans he.2
    | ok w =>
      have hkeys : ∀ k' ∈ es.map Prod.fst, k' ∉ (result.set k w).keys := by
        intro k' hk' hmem
        rw [keys_set_of_not_mem w hfresh, List.mem_append, List.mem_singleton] at hmem
        rcases hmem with hmem | rfl
        · exact hnew k' (List.mem_cons_of_mem k hk') hmem
        · exact hk hk'
      dsimp only
      rw [ih hrest hkeys, entries_set_of_not_mem w hfresh]
      constructor
      · rintro ⟨es', h, hr⟩
        exact ⟨(k, w) :: es', .cons ⟨rfl, hv⟩ h, by rw [hr, List.append_assoc, List.singleton_append]⟩
      · rintro ⟨es', h, hr⟩
        cases h with
        | @cons _ e' _ es' he h =>
          obtain ⟨k', w'⟩ := e'
          obtain ⟨rfl, hw⟩ := he
          obtain rfl := Except.ok.inj (hv.symm.trans hw)
          exact ⟨es', h, by rw [hr, List.append_assoc, List.singleton_append]⟩

theorem mapValues_ok_iff {f : V → Except E W} {d : Dict K V} {r : Dict K W} :
    mapValues f d = .ok r ↔ List.Forall₂ (Becomes f) d.entries r.entries := by
  rw [mapValues, assignEach_ok_iff d.nodup fun k _ hk => List.not_mem_nil hk]
  constructor
  · rintro ⟨es', h, hr⟩
    rw [hr]
    exact h
  · intro h
    exact ⟨r.entries, h, rfl⟩

theorem mapValues_total_iff {f : V → Except E W} {d : Dict K V} :
    (∃ r, mapValues f d = .ok r) ↔ ∀ e ∈ d.entries, ∃ w, f e.2 = .ok w := by
  simp only [mapValues_ok_iff]
  constructor
  · rintro ⟨r, h⟩
    generalize d.entries = es at h ⊢
    generalize r.entries = es' at h
    induction h with
    | nil => exact fun e he => nomatch he
    | cons he _ ih => exact List.forall_mem_cons.mpr ⟨⟨_, he.2⟩, ih⟩
  · intro h
    have hmade : ∃ es', List.Forall₂ (Becomes f) d.entries es' := by
      generalize d.entries = es at h
      induction es with
      | nil => exact ⟨[], .nil⟩
      | cons e es ih =>
        obtain ⟨w, hw⟩ := h e List.mem_cons_self
        obtain ⟨es', hes'⟩ := ih fun e' he' => h e' (List.mem_cons_of_mem e he')
        exact ⟨(e.1, w) :: es', .cons ⟨rfl, hw⟩ hes'⟩
    obtain ⟨es', hes'⟩ := hmade
    exact ⟨⟨es', keys_of_becomes hes' ▸ d.nodup⟩, hes'⟩

/-- Two passes give the dictionary back exactly when they give every value back. -/
theorem mapValues_back_iff {f : V → Except E W} {g : W → Except E V} {d : Dict K V} :
    (∃ r, mapValues f d = .ok r ∧ mapValues g r = .ok d) ↔ ∀ e ∈ d.entries, ∃ w, f e.2 = .ok w ∧ g w = .ok e.2 := by
  simp only [mapValues_ok_iff]
  constructor
  · rintro ⟨r, hf, hg⟩
    generalize d.entries = es at hf hg ⊢
    generalize r.entries = es' at hf hg
    induction hf with
    | nil => exact fun e he => nomatch he
    | cons he _ ih =>
      cases hg with
      | cons he' hg =>
        refine List.forall_mem_cons.mpr ⟨⟨_, he.2, he'.2⟩, ih hg⟩
  · intro h
    have hmade : ∃ es', List.Forall₂ (Becomes f) d.entries es' ∧ List.Forall₂ (Becomes g) es' d.entries := by
      generalize d.entries = es at h
      induction es with
      | nil => exact ⟨[], .nil, .nil⟩
      | cons e es ih =>
        obtain ⟨w, hw, hback⟩ := h e List.mem_cons_self
        obtain ⟨es', hf, hg⟩ := ih fun e' he' => h e' (List.mem_cons_of_mem e he')
        exact ⟨(e.1, w) :: es', .cons ⟨rfl, hw⟩ hf, .cons ⟨rfl, hback⟩ hg⟩
    obtain ⟨es', hf, hg⟩ := hmade
    exact ⟨⟨es', keys_of_becomes hf ▸ d.nodup⟩, hf, hg⟩

end Values

/-! ## Merging -/

/-- `{**d, **d'}`. -/
def update (d d' : Dict K V) : Dict K V := d'.entries.foldl (fun d e => d.set e.1 e.2) d

theorem get_update (d d' : Dict K V) (k : K) : (d.update d').get k = (d'.get k).or (d.get k) := by
  have hgeneral : ∀ (es : List (K × V)) (d : Dict K V), (es.map Prod.fst).Nodup →
      (es.foldl (fun d e => d.set e.1 e.2) d).get k = (find es k).or (d.get k) := by
    intro es
    induction es with
    | nil => exact fun _ _ => rfl
    | cons e es ih =>
      intro d hn
      rw [List.map_cons, List.nodup_cons] at hn
      rw [List.foldl_cons, ih _ hn.2, find, get_set]
      by_cases h : e.1 = k
      · subst h
        have hnone : find es e.1 = none := by
          rw [← Option.not_isSome_iff_eq_none, find_isSome]
          exact hn.1
        rw [hnone, if_pos rfl, if_pos rfl]
        rfl
      · rw [if_neg h, if_neg (Ne.symm h)]
  exact hgeneral d'.entries d d'.nodup

section Comprehension
variable {A : Type u} (key : A → K) (value : A → V)

/-- `{key(x): value(x) for x in xs}`. -/
def comprehension (xs : List A) : Dict K V := xs.foldl (fun d x => d.set (key x) (value x)) empty

theorem comprehension_append (xs : List A) (x : A) :
    comprehension key value (xs ++ [x]) = (comprehension key value xs).set (key x) (value x) := by
  simp [comprehension]

theorem get_comprehension {xs : List A} {x : A} (h : x ∈ xs) :
    ∃ y ∈ xs, key y = key x ∧ (comprehension key value xs).get (key x) = some (value y) := by
  induction xs using List.reverseRecOn with
  | nil => cases h
  | append_singleton xs z ih =>
    rw [comprehension_append, get_set]
    by_cases hz : key x = key z
    · rw [if_pos hz]
      exact ⟨z, by simp, hz.symm, rfl⟩
    · rw [if_neg hz]
      have hx : x ∈ xs := by
        rcases List.mem_append.mp h with hx | hx
        · exact hx
        · exact absurd (congrArg key (List.mem_singleton.mp hx)) hz
      obtain ⟨y, hy, hkey, hget⟩ := ih hx
      exact ⟨y, List.mem_append_left [z] hy, hkey, hget⟩

/-- Distinct keys make one entry each, in their order. -/
theorem entries_comprehension {xs : List A} (h : (xs.map key).Nodup) :
    (comprehension key value xs).entries = xs.map fun x => (key x, value x) := by
  induction xs using List.reverseRecOn with
  | nil => rfl
  | append_singleton xs z ih =>
    rw [List.map_append, List.map_singleton, List.nodup_append] at h
    obtain ⟨hxs, _, hdisjoint⟩ := h
    have hentries := ih hxs
    have hnew : key z ∉ (comprehension key value xs).keys := by
      rw [keys, hentries, List.map_map]
      intro hmem
      exact hdisjoint _ hmem _ List.mem_cons_self rfl
    rw [comprehension_append, entries_set_of_not_mem _ hnew, hentries, List.map_append, List.map_singleton]

/-- One entry for each of the given ones, exactly when no key is given twice. -/
theorem comprehension_perm_iff {xs : List A} :
    (comprehension key value xs).entries.Perm (xs.map fun x => (key x, value x)) ↔ (xs.map key).Nodup := by
  constructor
  · intro h
    have hkeys := h.map Prod.fst
    rw [List.map_map] at hkeys
    exact hkeys.nodup_iff.mp (comprehension key value xs).nodup
  · intro h
    rw [entries_comprehension key value h]

end Comprehension

end Operations

end Dict

end Support
