import IsaCloud.Support.Dict

/-!
# Grouping by a key

A dictionary of groups is filled in one pass: an item whose key is new starts a group,
which keeps what the item says about the whole group, and every item adds its values
to the group of its key.
-/

namespace Support

set_option autoImplicit false

universe u v w x

structure Group (G : Type u) (V : Type v) where
  head : G
  values : List V
  deriving DecidableEq

namespace Grouping
variable {K : Type w} {G : Type u} {V : Type v} [DecidableEq K]

def add (groups : Dict K (Group G V)) (k : K) (head : G) (values : List V) : Dict K (Group G V) :=
  let group := (groups.get k).getD ⟨head, []⟩
  groups.set k { group with values := group.values ++ values }

/-! ## One item -/

theorem get_add (groups : Dict K (Group G V)) (k k' : K) (head : G) (values : List V) :
    (add groups k head values).get k' =
      if k' = k then
        some ⟨((groups.get k).getD ⟨head, []⟩).head, ((groups.get k).getD ⟨head, []⟩).values ++ values⟩
      else groups.get k' := Dict.get_set ..

theorem flatMap_assign_perm {es : List (K × Group G V)} {k : K} {group : Group G V} (values : List V)
    (h : Dict.find es k = some group) :
    ((Dict.assign es k { group with values := group.values ++ values }).flatMap fun e => e.2.values).Perm
      (es.flatMap (fun e => e.2.values) ++ values) := by
  induction es with
  | nil => cases h
  | cons e es ih =>
    by_cases hk : e.1 = k
    · rw [Dict.find, if_pos hk] at h
      cases h
      rw [Dict.assign, if_pos hk, List.flatMap_cons, List.flatMap_cons, List.append_assoc, List.append_assoc]
      exact List.perm_append_comm.append_left _
    · rw [Dict.find, if_neg hk] at h
      rw [Dict.assign, if_neg hk, List.flatMap_cons, List.flatMap_cons, List.append_assoc]
      exact (ih h).append_left _

theorem flatMap_add_perm (groups : Dict K (Group G V)) (k : K) (head : G) (values : List V) :
    ((add groups k head values).entries.flatMap fun e => e.2.values).Perm
      (groups.entries.flatMap (fun e => e.2.values) ++ values) := by
  rw [add]
  cases hget : groups.get k with
  | some group => exact flatMap_assign_perm values hget
  | none =>
    have hnew : k ∉ groups.keys := by
      rw [Dict.mem_keys, hget]
      exact Bool.false_ne_true
    rw [Dict.entries_set_of_not_mem _ hnew, List.flatMap_append]
    exact .of_eq (congrArg _ (List.append_nil values))

/-! ## All items -/

section Collect
variable {A : Type x} (key : A → K) (head : A → G) (values : A → List V)

def collect (items : List A) : Dict K (Group G V) :=
  items.foldl (fun groups a => add groups (key a) (head a) (values a)) Dict.empty

theorem collect_append (items : List A) (a : A) :
    collect key head values (items ++ [a]) = add (collect key head values items) (key a) (head a) (values a) :=
  List.foldl_append

/-- The group of a key has the head of the first item with that key, and the values of all. -/
theorem get_collect (items : List A) (k : K) :
    (collect key head values items).get k =
      (items.find? fun a => decide (key a = k)).map fun a =>
        ⟨head a, (items.filter fun a => decide (key a = k)).flatMap values⟩ := by
  induction items using List.reverseRecOn with
  | nil => rfl
  | append_singleton items a ih =>
    rw [collect_append, get_add]
    by_cases hk : key a = k
    · subst hk
      rw [if_pos rfl, ih, List.find?_append, List.filter_append, List.flatMap_append]
      cases hfind : items.find? fun a' => decide (key a' = key a) with
      | some b => simp
      | none =>
        have hnone : (items.filter fun a' => decide (key a' = key a)) = [] := by
          rw [List.filter_eq_nil_iff]
          exact List.find?_eq_none.mp hfind
        simp [hnone]
    · rw [if_neg (Ne.symm hk), ih, List.find?_append, List.filter_append]
      simp [hk]

/-- No value is lost and none is doubled. -/
theorem collect_perm (items : List A) :
    ((collect key head values items).entries.flatMap fun e => e.2.values).Perm (items.flatMap values) := by
  induction items using List.reverseRecOn with
  | nil => exact .nil
  | append_singleton items a ih =>
    rw [collect_append, List.flatMap_append, List.flatMap_singleton]
    exact (flatMap_add_perm ..).trans (ih.append_right _)

theorem mem_collect {items : List A} {k : K} {group : Group G V}
    (h : (k, group) ∈ (collect key head values items).entries) :
    ∃ a ∈ items, key a = k ∧ group = ⟨head a, (items.filter fun a => decide (key a = k)).flatMap values⟩ := by
  have hget := Dict.find_of_mem (Dict.nodup _) h
  obtain ⟨a, hfind, rfl⟩ := Option.map_eq_some_iff.mp ((get_collect key head values items k).symm.trans hget)
  have hkey := List.find?_some hfind
  exact ⟨a, List.mem_of_find?_eq_some hfind, of_decide_eq_true hkey, rfl⟩

/-- Every item has its group. -/
theorem exists_group {items : List A} {a : A} (h : a ∈ items) :
    ∃ group, (key a, group) ∈ (collect key head values items).entries := by
  cases hfind : items.find? fun b => decide (key b = key a) with
  | none => exact absurd (decide_eq_true rfl) (List.find?_eq_none.mp hfind a h)
  | some b =>
    have hget := get_collect key head values items (key a)
    rw [hfind] at hget
    exact ⟨_, Dict.mem_of_find hget⟩

end Collect

end Grouping

end Support
