import IsaCloud.Support.Dict
import IsaCloud.Support.Table

/-!
# Property graphs

Nodes with labels and properties, and directed relationships of a type between
them. `merge` is Cypher's `MERGE` of one node: it rewrites every node that matches
and adds one if none does. `follow` is `MATCH (a)-[:T]->(b) RETURN b`.
-/

namespace Support

set_option autoImplicit false

namespace PropertyGraph

structure Node (L K V : Type) where
  id : Nat
  labels : List L
  properties : Dict K V

structure Relationship (L K V : Type) where
  id : Nat
  start : Nat
  stop : Nat
  type : L
  properties : Dict K V

end PropertyGraph

open PropertyGraph

structure PropertyGraph (L K V : Type) where
  nodes : List (Node L K V)
  relationships : List (Relationship L K V)
  nextNode : Nat
  nextRelationship : Nat

namespace PropertyGraph
variable {L K V : Type} [DecidableEq K]

/-- `SET n += map`; a null takes its property away. -/
def assignAll (properties : Dict K V) (map : Dict K (Option V)) : Dict K V :=
  map.entries.foldl (fun d e =>
    match e.2 with
    | some v => d.set e.1 v
    | none => d.pop e.1) properties

theorem get_assignAll (properties : Dict K V) (map : Dict K (Option V)) (k : K) :
    (assignAll properties map).get k = (map.get k).getD (properties.get k) := by
  have hgeneral : ∀ (es : List (K × Option V)) (d : Dict K V), (es.map Prod.fst).Nodup →
      (es.foldl (fun d e =>
        match e.2 with
        | some v => d.set e.1 v
        | none => d.pop e.1) d).get k = (Dict.find es k).getD (d.get k) := by
    intro es
    induction es with
    | nil =>
      intro d _
      rfl
    | cons e es ih =>
      intro d hn
      rw [List.map_cons, List.nodup_cons] at hn
      rw [List.foldl_cons, ih _ hn.2, Dict.find]
      by_cases h : e.1 = k
      · subst h
        have hnone : Dict.find es e.1 = none := by
          cases hf : Dict.find es e.1 with
          | none => rfl
          | some v => exact absurd (Dict.find_isSome.mp (by rw [hf]; rfl)) hn.1
        rw [hnone, if_pos rfl]
        cases e.2 with
        | none => simp
        | some v => simp
      · have h' : k ≠ e.1 := fun hk => h hk.symm
        rw [if_neg h]
        cases e.2 with
        | none => rw [Dict.get_pop_of_ne _ h']
        | some v => rw [Dict.get_set_of_ne _ _ h']
  exact hgeneral map.entries properties map.nodup

def Node.setAll (n : Node L K V) (map : Dict K (Option V)) : Node L K V :=
  { n with properties := assignAll n.properties map }

def Node.get (n : Node L K V) (k : K) : Option V := n.properties.get k

@[simp] theorem Node.setAll_id (n : Node L K V) (map : Dict K (Option V)) : (n.setAll map).id = n.id := rfl

@[simp] theorem Node.setAll_labels (n : Node L K V) (map : Dict K (Option V)) :
    (n.setAll map).labels = n.labels := rfl

@[simp] theorem Node.get_setAll (n : Node L K V) (map : Dict K (Option V)) (k : K) :
    (n.setAll map).get k = (map.get k).getD (n.get k) := get_assignAll n.properties map k

/-! ## Requests -/

section Requests
omit [DecidableEq K]
variable [DecidableEq L] (g : PropertyGraph L K V)

def empty : PropertyGraph L K V := ⟨[], [], 0, 0⟩

def node? (i : Nat) : Option (Node L K V) := Table.find Node.id g.nodes i

/-- `CREATE` of one node. -/
def create (fresh : Nat → Node L K V) : PropertyGraph L K V :=
  { g with nodes := g.nodes ++ [fresh g.nextNode], nextNode := g.nextNode + 1 }

/-- `MERGE` of one node: the pattern, the node it creates, what it does with each that matches. -/
def merge (pattern : Node L K V → Bool) (fresh : Nat → Node L K V) (onMatch : Node L K V → Node L K V) :
    PropertyGraph L K V :=
  if g.nodes.any pattern then { g with nodes := g.nodes.map fun n => if pattern n then onMatch n else n }
  else g.create fresh

/-- `MATCH (a), (b) WHERE id(a) = … AND id(b) = … CREATE (a)-[r:T $props]->(b) RETURN id(r)`. -/
def relate (start stop : Nat) (type : L) (properties : Dict K V) : PropertyGraph L K V × Option Nat :=
  match g.node? start, g.node? stop with
  | some _, some _ =>
    ({ g with
      relationships := g.relationships ++ [⟨g.nextRelationship, start, stop, type, properties⟩]
      nextRelationship := g.nextRelationship + 1 }, some g.nextRelationship)
  | _, _ => (g, none)

/-- The node a relationship of the type leads to, if both ends fit. -/
def target (p q : Node L K V → Bool) (type : L) (r : Relationship L K V) : Option (Node L K V) :=
  if r.type = type ∧ (g.node? r.start).any p = true then (g.node? r.stop).filter q else none

/-- `MATCH (a)-[:T]->(b) RETURN b`. -/
def follow (p q : Node L K V → Bool) (type : L) : List (Node L K V) :=
  g.relationships.filterMap (g.target p q type)

end Requests

/-! ## Graphs with identities -/

section Sound
omit [DecidableEq K]

/-- Identities are unique and below the counter, and relationships have no end that was never there. -/
structure Sound (g : PropertyGraph L K V) : Prop where
  keyed : Table.Keyed Node.id g.nodes
  node_lt : ∀ n ∈ g.nodes, n.id < g.nextNode
  start_lt : ∀ r ∈ g.relationships, r.start < g.nextNode
  stop_lt : ∀ r ∈ g.relationships, r.stop < g.nextNode

theorem sound_empty : Sound (empty : PropertyGraph L K V) where
  keyed := List.nodup_nil
  node_lt _ hn := nomatch hn
  start_lt _ hr := nomatch hr
  stop_lt _ hr := nomatch hr

variable {g : PropertyGraph L K V} {pattern : Node L K V → Bool} {fresh : Nat → Node L K V}
  {onMatch : Node L K V → Node L K V}

theorem node?_lt (h : Sound g) {i : Nat} {n : Node L K V} (hn : g.node? i = some n) : i < g.nextNode := by
  obtain ⟨hmem, rfl⟩ := Table.mem_of_find hn
  exact h.node_lt n hmem

theorem node?_eq_some_iff (h : Sound g) {i : Nat} {n : Node L K V} : g.node? i = some n ↔ n ∈ g.nodes ∧ n.id = i :=
  Table.find_eq_some_iff h.keyed

theorem next_fresh (h : Sound g) : g.nextNode ∉ g.nodes.map Node.id := by
  intro hmem
  obtain ⟨n, hn, hid⟩ := List.mem_map.mp hmem
  exact absurd (h.node_lt n hn) (hid ▸ Nat.lt_irrefl _)

section Merge
variable (hfresh : ∀ i, (fresh i).id = i) (hmatch : ∀ n, (onMatch n).id = n.id)
include hfresh hmatch

theorem sound_merge (h : Sound g) : Sound (g.merge pattern fresh onMatch) := by
  unfold merge
  split
  · have hids : (g.nodes.map fun n => if pattern n then onMatch n else n).map Node.id = g.nodes.map Node.id := by
      rw [List.map_map]
      apply List.map_congr_left
      intro n _
      simp only [Function.comp_apply]
      split
      · exact hmatch n
      · rfl
    refine ⟨?_, ?_, h.start_lt, h.stop_lt⟩
    · rw [Table.Keyed, hids]
      exact h.keyed
    · intro n hn
      obtain ⟨m, hm, hid⟩ := List.mem_map.mp (hids ▸ List.mem_map_of_mem hn)
      exact hid ▸ h.node_lt m hm
  · refine ⟨?_, ?_, fun r hr => Nat.lt_succ_of_lt (h.start_lt r hr), fun r hr => Nat.lt_succ_of_lt (h.stop_lt r hr)⟩
    · exact Table.keyed_append h.keyed (by rw [hfresh]; exact next_fresh h)
    · intro n hn
      rcases List.mem_append.mp hn with hn | hn
      · exact Nat.lt_succ_of_lt (h.node_lt n hn)
      · rw [List.mem_singleton.mp hn, hfresh]
        exact Nat.lt_succ_self _

omit hfresh in
/-- A merge that matched rewrites the nodes of the pattern. -/
theorem node?_merge_matched (hany : g.nodes.any pattern = true) (i : Nat) :
    (g.merge pattern fresh onMatch).node? i = (g.node? i).map fun n => if pattern n then onMatch n else n := by
  have hid : ∀ n : Node L K V, (if pattern n then onMatch n else n).id = n.id := by
    intro n
    split
    · exact hmatch n
    · rfl
  rw [merge, if_pos hany, node?, node?, Table.find, Table.find, List.find?_map]
  simp only [Function.comp_def, hid]

omit hmatch in
/-- A merge that found nothing adds one node. -/
theorem node?_merge_created (h : Sound g) (hany : ¬ g.nodes.any pattern = true) (i : Nat) :
    (g.merge pattern fresh onMatch).node? i = if g.nextNode = i then some (fresh g.nextNode) else g.node? i := by
  have hnew : (fresh g.nextNode).id ∉ g.nodes.map Node.id := by
    rw [hfresh]
    exact next_fresh h
  rw [merge, if_neg hany, create, node?, node?, Table.find_append_fresh hnew, hfresh]

end Merge

theorem sound_relate [DecidableEq L] (h : Sound g) (start stop : Nat) (type : L) (properties : Dict K V) :
    Sound (g.relate start stop type properties).1 := by
  unfold relate
  split
  · rename_i hstart hstop
    refine ⟨h.keyed, h.node_lt, ?_, ?_⟩
    · intro r hr
      rcases List.mem_append.mp hr with hr | hr
      · exact h.start_lt r hr
      · rw [List.mem_singleton.mp hr]
        exact node?_lt h hstart
    · intro r hr
      rcases List.mem_append.mp hr with hr | hr
      · exact h.stop_lt r hr
      · rw [List.mem_singleton.mp hr]
        exact node?_lt h hstop
  · exact h

end Sound

/-! ## Following relationships -/

section Follow
omit [DecidableEq K]
variable [DecidableEq L] {g : PropertyGraph L K V} {p q : Node L K V → Bool} {type : L}

theorem target_eq_some_iff {r : Relationship L K V} {n : Node L K V} :
    g.target p q type r = some n ↔
      r.type = type ∧ (∃ m, g.node? r.start = some m ∧ p m = true) ∧ g.node? r.stop = some n ∧ q n = true := by
  have hany : (g.node? r.start).any p = true ↔ ∃ m, g.node? r.start = some m ∧ p m = true := by
    cases g.node? r.start with
    | none => simp
    | some m => simp
  unfold target
  split
  · rename_i h
    rw [Option.filter_eq_some_iff]
    exact ⟨fun hn => ⟨h.1, hany.mp h.2, hn⟩, fun hn => hn.2.2⟩
  · rename_i h
    exact iff_of_false (Option.some_ne_none n).symm fun hn => h ⟨hn.1, hany.mpr hn.2.1⟩

theorem mem_follow_iff {n : Node L K V} : n ∈ g.follow p q type ↔ ∃ r ∈ g.relationships, r.type = type ∧
    (∃ m, g.node? r.start = some m ∧ p m = true) ∧ g.node? r.stop = some n ∧ q n = true := by
  rw [follow, List.mem_filterMap]
  exact exists_congr fun r => and_congr_right fun _ => target_eq_some_iff

/-- When no two relationships end in the same node, none is found twice. -/
theorem nodup_follow (h : (g.relationships.map Relationship.stop).Nodup) : (g.follow p q type).Nodup := by
  unfold follow
  generalize g.relationships = rs at h
  induction rs with
  | nil => exact List.nodup_nil
  | cons r rs ih =>
    rw [List.map_cons, List.nodup_cons] at h
    cases ht : g.target p q type r with
    | none =>
      rw [List.filterMap_cons_none ht]
      exact ih h.2
    | some n =>
      rw [List.filterMap_cons_some ht, List.nodup_cons]
      refine ⟨fun hmem => ?_, ih h.2⟩
      obtain ⟨r', hr', ht'⟩ := List.mem_filterMap.mp hmem
      have hid := (Table.mem_of_find (target_eq_some_iff.mp ht).2.2.1).2
      have hid' := (Table.mem_of_find (target_eq_some_iff.mp ht').2.2.1).2
      exact h.1 (List.mem_map.mpr ⟨r', hr', hid'.symm.trans hid⟩)

end Follow

end PropertyGraph

end Support
