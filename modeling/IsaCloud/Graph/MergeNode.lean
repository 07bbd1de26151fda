import IsaCloud.Graph.Neo4jClient

/-!
# Merging a node

`merge_node` with any labels and maps. The values to match and the map to set travel
as parameters of one request, in one namespace with the arguments of `session.run`.
The request marks the node with `_created` to learn whether it is new; the method
takes the mark out of its result, not out of the graph.
-/

namespace IsaCloud.Graph

set_option autoImplicit false

open Support Support.Text Support.PropertyGraph

/-! ## The request -/

/-- A value of a map of properties. -/
inductive Given (E O : Type) where
  | null
  | value (v : Value E O)
  /-- What cannot be stored, such as a map; with the pairs that `dict` reads from it, if it is not an error. -/
  | other (pairs : Option (List (Str × Given E O)))

section Request
variable {E O : Type}

/-- `dict(parameters or {})`. What can be stored is an error here, or does not name any `$parameters`. -/
def Given.pairs : Given E O → Option (List (Str × Given E O))
  | null => some []
  | value _ => none
  | other pairs => pairs

/-- A value in the map of `SET n +=`. -/
def Given.assigned : Given E O → Except Unit (Option (Value E O))
  | null => .ok none
  | value v => .ok (some v)
  | other _ => .error ()

/-- The arguments of `merge_node`. -/
structure MergeCall (E O : Type) where
  labels : List Str
  matchProperties : Dict Str (Given E O)
  setProperties : Option (Dict Str (Given E O))

namespace MergeCall
variable (c : MergeCall E O)

/-- `set_properties or {}`. -/
def setProps : Dict Str (Given E O) := c.setProperties.getD Dict.empty

/-- `{**match_properties, "set_props": set_properties or {}}`. -/
def params : Dict Str (Given E O) := c.matchProperties.set (lit "set_props") (.other (some c.setProps.entries))

/-- `session.run(cypher, **params)`, whose own arguments are `self`, `query` and `parameters`. -/
def bound : Option (Dict Str (Given E O)) :=
  if c.params.contains (lit "self") || c.params.contains (lit "query") then none
  else
    match c.params.get (lit "parameters") with
    | none => some c.params
    | some given => given.pairs.map fun pairs =>
        (Dict.comprehension Prod.fst Prod.snd pairs).update (c.params.pop (lit "parameters"))

end MergeCall

/-- The pattern `{k: $k, …}`; the server takes a value that it can store. -/
def patternOf (parameters : Dict Str (Given E O)) : List Str → Option (List (Str × Value E O))
  | [] => some []
  | key :: keys =>
    match parameters.get key with
    | some (.value v) => (patternOf parameters keys).map fun pattern => (key, v) :: pattern
    | _ => none

/-- What the server is asked to merge. -/
structure MergeRequest (E O : Type) where
  labels : List Str
  pattern : List (Str × Value E O)
  assignments : Props E O

/-- The request, if it is sent and is no error. A keyword wins over `parameters`, so `$set_props` is the map to set. -/
def MergeCall.request (c : MergeCall E O) : Option (MergeRequest E O) :=
  if c.labels = [] then none
  else
    match c.bound with
    | none => none
    | some parameters =>
      match patternOf parameters c.matchProperties.keys, Dict.mapValues Given.assigned c.setProps with
      | some pattern, .ok assignments => some ⟨c.labels, pattern, assignments⟩
      | _, _ => none

end Request

/-! ## The server -/

section Merge
variable {E O : Type} (equal : Value E O → Value E O → Bool)

namespace MergeRequest
variable (r : MergeRequest E O)

def fits (n : NeoNode E O) : Bool :=
  r.labels.all (fun label => decide (label ∈ n.labels)) && r.pattern.all fun e => (n.get e.1).any fun v => equal v e.2

/-- `MERGE … ON CREATE SET …`. -/
def created (id : Nat) : NeoNode E O :=
  marked r.assignments true ⟨id, r.labels.dedup, Dict.comprehension Prod.fst Prod.snd r.pattern⟩

def effect (g : NeoGraph E O) : NeoGraph E O := g.merge (r.fits equal) r.created (marked r.assignments false)

/-- The nodes of `RETURN n`. -/
def rows (g : NeoGraph E O) : List (NeoNode E O) :=
  if g.nodes.any (r.fits equal) then (g.nodes.filter (r.fits equal)).map (marked r.assignments false)
  else [r.created g.nextNode]

end MergeRequest

/-! ## The methods -/

/-- What `merge_node` returns. -/
structure MergedNode (E O : Type) where
  id : Nat
  labels : List Str
  properties : Dict Str (Value E O)
  created : Value E O

/-- `node_dict.pop("_created", False)`. -/
def mergedNode (n : NeoNode E O) : MergedNode E O :=
  ⟨n.id, n.labels, n.properties.pop (lit "_created"), (n.get (lit "_created")).getD (.flag false)⟩

def MergeCall.mergeNode (c : MergeCall E O) (outcome : Outcome) (g : NeoGraph E O) :
    NeoGraph E O × Option (MergedNode E O) :=
  match c.request with
  | none => (g, none)
  | some r =>
    match outcome with
    | .failed => (g, none)
    | .lost => (r.effect equal g, none)
    | .served => (r.effect equal g, (r.rows equal g).head?.map mergedNode)

/-- What `get_node` returns, when its request is served. -/
structure NodeData (E O : Type) where
  id : Nat
  labels : List Str
  properties : Dict Str (Value E O)

def getNode (nodeId : Nat) (g : NeoGraph E O) : Option (NodeData E O) :=
  (g.node? nodeId).map fun n => ⟨n.id, n.labels, n.properties⟩

/-! ## What is promised -/

/-- A node with the labels and the properties to match. -/
def MergeCall.Describes (c : MergeCall E O) (n : NeoNode E O) : Prop :=
  (∀ label ∈ c.labels, label ∈ n.labels) ∧
    ∀ e ∈ c.matchProperties.entries, ∃ v w, e.2 = .value v ∧ n.get e.1 = some w ∧ equal w v = true

/-- The previous properties, updated with the map to match and with the map to set; a null takes a property away. -/
def MergeCall.updated (c : MergeCall E O) (previous : Str → Option (Value E O)) (key : Str) : Option (Value E O) :=
  match c.setProps.get key with
  | some (.value v) => some v
  | some _ => none
  | none =>
    match c.matchProperties.get key with
    | some (.value v) => some v
    | some _ => none
    | none => previous key

structure WritesExactly (c : MergeCall E O) (g g' : NeoGraph E O) (r : MergedNode E O) : Prop where
  same : ∃ n, getNode r.id g' = some n ∧ n.labels = r.labels ∧ ∀ key, n.properties.get key = r.properties.get key
  stored : ∀ n, getNode r.id g' = some n →
    ∀ key, n.properties.get key = c.updated (fun key => (g.node? r.id).bind fun n => n.get key) key
  created : r.created = .flag true ↔ ∀ n ∈ g.nodes, ¬ c.Describes equal n

/-- The call comes to a request the server takes. -/
structure MergeCall.Accepted (c : MergeCall E O) : Prop where
  labels : c.labels ≠ []
  names : ∀ name ∈ [lit "self", lit "query", lit "set_props"], name ∉ c.matchProperties.keys
  values : ∀ key given, c.matchProperties.get key = some given → key ≠ lit "parameters" → ∃ v, given = .value v
  /-- A value under `parameters` is taken apart, and has to name itself. -/
  parameters : ∀ given, c.matchProperties.get (lit "parameters") = some given → ∃ pairs v, given.pairs = some pairs ∧
    (Dict.comprehension Prod.fst Prod.snd pairs).get (lit "parameters") = some (.value v)
  assignments : ∀ key pairs, c.setProps.get key ≠ some (.other pairs)

end Merge

/-! ## When a request is taken -/

section Accepted
variable {E O : Type} {c : MergeCall E O}

theorem patternOf_isSome {parameters : Dict Str (Given E O)} {keys : List Str} :
    (∃ pattern, patternOf parameters keys = some pattern) ↔ ∀ key ∈ keys, ∃ v, parameters.get key = some (.value v) := by
  induction keys with
  | nil => exact iff_of_true ⟨[], rfl⟩ fun _ hkey => nomatch hkey
  | cons key keys ih =>
    rw [List.forall_mem_cons, ← ih, patternOf]
    constructor
    · rintro ⟨pattern, hpattern⟩
      split at hpattern
      · rename_i v hget
        obtain ⟨rest, hrest, -⟩ := Option.map_eq_some_iff.mp hpattern
        exact ⟨⟨v, hget⟩, rest, hrest⟩
      · cases hpattern
    · rintro ⟨⟨v, hget⟩, rest, hrest⟩
      rw [hget, hrest]
      exact ⟨_, rfl⟩

theorem get_params (c : MergeCall E O) (key : Str) :
    c.params.get key = if key = lit "set_props" then some (.other (some c.setProps.entries)) else c.matchProperties.get key :=
  Dict.get_set _ _ _ _

/-- The session takes the keywords, and what `parameters` brings where no keyword is. -/
theorem bound_eq_some_iff {parameters : Dict Str (Given E O)} : c.bound = some parameters ↔
    lit "self" ∉ c.matchProperties.keys ∧ lit "query" ∉ c.matchProperties.keys ∧
      ((c.matchProperties.get (lit "parameters") = none ∧ parameters = c.params) ∨
        ∃ given pairs, c.matchProperties.get (lit "parameters") = some given ∧ given.pairs = some pairs ∧
          parameters = (Dict.comprehension Prod.fst Prod.snd pairs).update (c.params.pop (lit "parameters"))) := by
  have hself : c.params.contains (lit "self") = true ↔ lit "self" ∈ c.matchProperties.keys := by
    rw [Dict.contains_iff, Dict.mem_keys, Dict.mem_keys, get_params, if_neg (by decide)]
  have hquery : c.params.contains (lit "query") = true ↔ lit "query" ∈ c.matchProperties.keys := by
    rw [Dict.contains_iff, Dict.mem_keys, Dict.mem_keys, get_params, if_neg (by decide)]
  have hparameters : c.params.get (lit "parameters") = c.matchProperties.get (lit "parameters") := by
    rw [get_params, if_neg (by decide)]
  rw [MergeCall.bound, hparameters]
  split
  · rename_i hown
    rw [Bool.or_eq_true, hself, hquery] at hown
    refine iff_of_false (fun h => nomatch h) ?_
    rintro ⟨hno, hno', -⟩
    exact hown.elim hno hno'
  · rename_i hown
    rw [Bool.or_eq_true, hself, hquery, not_or] at hown
    cases hgiven : c.matchProperties.get (lit "parameters") with
    | none =>
      constructor
      · intro h
        exact ⟨hown.1, hown.2, .inl ⟨rfl, (Option.some.inj h).symm⟩⟩
      · rintro ⟨-, -, ⟨-, rfl⟩ | ⟨given, pairs, hsome, -⟩⟩
        · rfl
        · cases hsome
    | some given =>
      dsimp only
      rw [Option.map_eq_some_iff]
      constructor
      · rintro ⟨pairs, hpairs, rfl⟩
        exact ⟨hown.1, hown.2, .inr ⟨given, pairs, rfl, hpairs, rfl⟩⟩
      · rintro ⟨-, -, ⟨hnone, -⟩ | ⟨given', pairs, hsome, hpairs, rfl⟩⟩
        · cases hnone
        · cases hsome
          exact ⟨pairs, hpairs, rfl⟩

theorem bound_get {parameters : Dict Str (Given E O)} (h : c.bound = some parameters) {key : Str} {given : Given E O}
    (hkey : c.matchProperties.get key = some given) (hother : key ≠ lit "parameters") :
    parameters.get key = c.params.get key := by
  obtain ⟨-, -, ⟨-, rfl⟩ | ⟨_, pairs, -, -, rfl⟩⟩ := bound_eq_some_iff.mp h
  · rfl
  · have hkeyword : (c.params.get key).isSome = true := by
      rw [get_params]
      split
      · rfl
      · rw [hkey]
        rfl
    rw [Dict.get_update, Dict.get_pop_of_ne _ hother, Option.or_of_isSome hkeyword]

theorem assigned_ok_iff {props : Dict Str (Given E O)} :
    (∃ r, Dict.mapValues Given.assigned props = .ok r) ↔ ∀ key pairs, props.get key ≠ some (.other pairs) := by
  rw [Dict.mapValues_total_iff]
  constructor
  · intro h key pairs hget
    obtain ⟨w, hw⟩ := h (key, .other pairs) (Dict.mem_of_find hget)
    cases hw
  · intro h e he
    cases hvalue : e.2 with
    | null => exact ⟨none, rfl⟩
    | value v => exact ⟨some v, rfl⟩
    | other pairs => exact absurd (hvalue ▸ Dict.find_of_mem props.nodup he) (h e.1 pairs)

/-- What is matched is bound to what can be stored. -/
theorem bound_values_iff {parameters : Dict Str (Given E O)} (h : c.bound = some parameters) :
    (∀ key ∈ c.matchProperties.keys, ∃ v, parameters.get key = some (.value v)) ↔
      lit "set_props" ∉ c.matchProperties.keys ∧
        (∀ key given, c.matchProperties.get key = some given → key ≠ lit "parameters" → ∃ v, given = .value v) ∧
        ∀ given, c.matchProperties.get (lit "parameters") = some given → ∃ pairs v, given.pairs = some pairs ∧
          (Dict.comprehension Prod.fst Prod.snd pairs).get (lit "parameters") = some (.value v) := by
  have hmem : ∀ {key}, key ∈ c.matchProperties.keys ↔ ∃ given, c.matchProperties.get key = some given := by
    intro key
    rw [Dict.mem_keys, Option.isSome_iff_exists]
  have hset : ∀ {given}, c.matchProperties.get (lit "set_props") = some given →
      parameters.get (lit "set_props") = some (.other (some c.setProps.entries)) := by
    intro given hgiven
    rw [bound_get h hgiven (by decide), get_params, if_pos rfl]
  have hown : ∀ {key given}, c.matchProperties.get key = some given → key ≠ lit "set_props" → key ≠ lit "parameters" →
      parameters.get key = some given := by
    intro key given hgiven hkey hother
    rw [bound_get h hgiven hother, get_params, if_neg hkey, hgiven]
  have hspread : ∀ {given}, c.matchProperties.get (lit "parameters") = some given → ∃ pairs, given.pairs = some pairs ∧
      parameters.get (lit "parameters") = (Dict.comprehension Prod.fst Prod.snd pairs).get (lit "parameters") := by
    intro given hgiven
    obtain ⟨-, -, ⟨hnone, -⟩ | ⟨given', pairs, hsome, hpairs, rfl⟩⟩ := bound_eq_some_iff.mp h
    · rw [hgiven] at hnone
      cases hnone
    · rw [hgiven] at hsome
      cases hsome
      exact ⟨pairs, hpairs, by rw [Dict.get_update, Dict.get_pop_self, Option.none_or]⟩
  constructor
  · intro hall
    have hno : lit "set_props" ∉ c.matchProperties.keys := by
      intro hin
      obtain ⟨v, hv⟩ := hall _ hin
      obtain ⟨given, hgiven⟩ := hmem.mp hin
      rw [hset hgiven] at hv
      cases hv
    refine ⟨hno, ?_, ?_⟩
    · intro key given hgiven hother
      have hin := hmem.mpr ⟨given, hgiven⟩
      have hkey : key ≠ lit "set_props" := by
        rintro rfl
        exact hno hin
      obtain ⟨v, hv⟩ := hall key hin
      rw [hown hgiven hkey hother] at hv
      exact ⟨v, Option.some.inj hv⟩
    · intro given hgiven
      obtain ⟨v, hv⟩ := hall _ (hmem.mpr ⟨given, hgiven⟩)
      obtain ⟨pairs, hpairs, hget⟩ := hspread hgiven
      exact ⟨pairs, v, hpairs, hget ▸ hv⟩
  · rintro ⟨hno, hvalues, hparameters⟩ key hin
    obtain ⟨given, hgiven⟩ := hmem.mp hin
    by_cases hother : key = lit "parameters"
    · subst hother
      obtain ⟨pairs, v, hpairs, hv⟩ := hparameters given hgiven
      obtain ⟨pairs', hpairs', hget⟩ := hspread hgiven
      rw [hpairs] at hpairs'
      cases hpairs'
      exact ⟨v, hget.trans hv⟩
    · have hkey : key ≠ lit "set_props" := by
        rintro rfl
        exact hno hin
      obtain ⟨v, rfl⟩ := hvalues key given hgiven hother
      exact ⟨v, hown hgiven hkey hother⟩

theorem request_isSome_iff (c : MergeCall E O) : (∃ r, c.request = some r) ↔ c.Accepted := by
  rw [MergeCall.request]
  constructor
  · rintro ⟨r, hr⟩
    split at hr
    · cases hr
    · rename_i hlabels
      split at hr
      · cases hr
      · rename_i parameters hbound
        split at hr
        · rename_i pattern assignments hpattern hassigned
          obtain ⟨hself, hquery, -⟩ := bound_eq_some_iff.mp hbound
          obtain ⟨hset, hvalues, hparameters⟩ := (bound_values_iff hbound).mp (patternOf_isSome.mp ⟨pattern, hpattern⟩)
          refine ⟨hlabels, ?_, hvalues, hparameters, assigned_ok_iff.mp ⟨assignments, hassigned⟩⟩
          intro name hname
          simp only [List.mem_cons, List.not_mem_nil, or_false] at hname
          rcases hname with rfl | rfl | rfl
          · exact hself
          · exact hquery
          · exact hset
        · cases hr
  · intro h
    have hbound : ∃ parameters, c.bound = some parameters := by
      have hself := h.names (lit "self") (by simp)
      have hquery := h.names (lit "query") (by simp)
      cases hgiven : c.matchProperties.get (lit "parameters") with
      | none => exact ⟨_, bound_eq_some_iff.mpr ⟨hself, hquery, .inl ⟨hgiven, rfl⟩⟩⟩
      | some given =>
        obtain ⟨pairs, v, hpairs, -⟩ := h.parameters given hgiven
        exact ⟨_, bound_eq_some_iff.mpr ⟨hself, hquery, .inr ⟨given, pairs, hgiven, hpairs, rfl⟩⟩⟩
    obtain ⟨parameters, hbound⟩ := hbound
    obtain ⟨pattern, hpattern⟩ := patternOf_isSome.mpr
      ((bound_values_iff hbound).mpr ⟨h.names (lit "set_props") (by simp), h.values, h.parameters⟩)
    obtain ⟨assignments, hassigned⟩ := assigned_ok_iff.mpr h.assignments
    rw [if_neg h.labels, hbound]
    dsimp only
    rw [hpattern, hassigned]
    exact ⟨_, rfl⟩

end Accepted

/-! ## What a merge leaves -/

section Result
variable {E O : Type} {equal : Value E O → Value E O → Bool} {c : MergeCall E O} {r : MergeRequest E O}
  {g : NeoGraph E O}

theorem sound_effect (h : Sound g) : Sound (r.effect equal g) := sound_merge (fun _ => rfl) (fun _ => rfl) h

/-- The node that is read is in the graph, with the mark that tells whether it is new. -/
theorem head_rows (equal : Value E O → Value E O → Bool) (r : MergeRequest E O) (g : NeoGraph E O) :
    ∃ n ∈ (r.effect equal g).nodes, (r.rows equal g).head? = some n ∧
      n.get (lit "_created") = some (.flag (!g.nodes.any (r.fits equal))) := by
  rw [MergeRequest.effect, MergeRequest.rows, merge]
  cases hany : g.nodes.any (r.fits equal) with
  | false => exact ⟨_, List.mem_append_right _ List.mem_cons_self, rfl, Dict.get_set_self _ _ _⟩
  | true =>
    rw [if_pos rfl, if_pos rfl]
    obtain ⟨m, hm, hfits⟩ := List.any_eq_true.mp hany
    cases hmatched : g.nodes.filter (r.fits equal) with
    | nil => exact absurd (List.mem_filter.mpr ⟨hm, hfits⟩) (hmatched ▸ List.not_mem_nil)
    | cons n ns =>
      obtain ⟨hn, hn'⟩ := List.mem_filter.mp (hmatched ▸ List.mem_cons_self : n ∈ g.nodes.filter (r.fits equal))
      refine ⟨marked r.assignments false n, List.mem_map.mpr ⟨n, hn, by rw [if_pos hn']⟩, rfl, ?_⟩
      exact Dict.get_set_self _ _ _

theorem mergeNode_eq_some_iff {outcome : Outcome} {result : MergedNode E O} :
    (c.mergeNode equal outcome g).2 = some result ↔
      outcome = .served ∧ ∃ r, c.request = some r ∧ (r.rows equal g).head?.map mergedNode = some result := by
  rw [MergeCall.mergeNode]
  cases c.request with
  | none => exact iff_of_false (fun h => nomatch h) fun ⟨_, r, hr, _⟩ => nomatch hr
  | some r =>
    cases outcome with
    | failed => exact iff_of_false (fun h => nomatch h) fun ⟨h, _⟩ => nomatch h
    | lost => exact iff_of_false (fun h => nomatch h) fun ⟨h, _⟩ => nomatch h
    | served =>
      constructor
      · exact fun h => ⟨rfl, r, rfl, h⟩
      · rintro ⟨-, r', hr', h⟩
        cases hr'
        exact h

/-- But for the mark, the result is the node that is stored; and the mark is the flag of the result. -/
theorem stored_of_merged (h : Sound g) {outcome : Outcome} {result : MergedNode E O}
    (hresult : (c.mergeNode equal outcome g).2 = some result) :
    ∃ n, getNode result.id (c.mergeNode equal outcome g).1 = some n ∧ n.labels = result.labels ∧
      n.properties.get (lit "_created") = some result.created ∧
      ∀ key, key ≠ lit "_created" → n.properties.get key = result.properties.get key := by
  obtain ⟨rfl, r, hr, hhead⟩ := mergeNode_eq_some_iff.mp hresult
  obtain ⟨n, hn, hrow, hmark⟩ := head_rows equal r g
  rw [hrow, Option.map_some] at hhead
  obtain rfl := Option.some.inj hhead
  have hgraph : (c.mergeNode equal .served g).1 = r.effect equal g := by rw [MergeCall.mergeNode, hr]
  have hfound : (r.effect equal g).node? n.id = some n := (node?_eq_some_iff (sound_effect h)).mpr ⟨hn, rfl⟩
  refine ⟨⟨n.id, n.labels, n.properties⟩, ?_, rfl, ?_, ?_⟩
  · rw [hgraph, getNode]
    exact congrArg (Option.map _) hfound
  · rw [mergedNode, hmark]
    exact hmark
  · intro key hkey
    exact (Dict.get_pop_of_ne _ hkey).symm

/-- A merge writes more than it was given, whenever it returns a result. -/
theorem merge_node_exact_iff (equal : Value E O → Value E O → Bool) (c : MergeCall E O) (outcome : Outcome)
    (g : {g : NeoGraph E O // Sound g}) :
    (∀ result, (c.mergeNode equal outcome g.1).2 = some result →
        WritesExactly equal c g.1 (c.mergeNode equal outcome g.1).1 result) ↔
      ¬ (outcome = .served ∧ c.Accepted) := by
  constructor
  · rintro hexact ⟨rfl, haccepted⟩
    obtain ⟨r, hr⟩ := (request_isSome_iff c).mpr haccepted
    obtain ⟨n, -, hrow, -⟩ := head_rows equal r g.1
    have hresult : (c.mergeNode equal .served g.1).2 = some (mergedNode n) :=
      mergeNode_eq_some_iff.mpr ⟨rfl, r, hr, by rw [hrow, Option.map_some]⟩
    obtain ⟨stored, hstored, -, hmark, -⟩ := stored_of_merged g.2 hresult
    obtain ⟨stored', hstored', -, hsame⟩ := (hexact _ hresult).same
    obtain rfl := Option.some.inj (hstored.symm.trans hstored')
    have hunmarked : stored.properties.get (lit "_created") = none :=
      (hsame (lit "_created")).trans (Dict.get_pop_self _ _)
    rw [hmark] at hunmarked
    cases hunmarked
  · intro hno result hresult
    obtain ⟨hserved, r, hr, -⟩ := mergeNode_eq_some_iff.mp hresult
    exact absurd ⟨hserved, (request_isSome_iff c).mp ⟨r, hr⟩⟩ hno

theorem patternOf_forall {parameters : Dict Str (Given E O)} {P : Str × Value E O → Prop} {keys : List Str}
    {pattern : List (Str × Value E O)} (h : patternOf parameters keys = some pattern) :
    (∀ e ∈ pattern, P e) ↔ ∀ key ∈ keys, ∃ v, parameters.get key = some (.value v) ∧ P (key, v) := by
  induction keys generalizing pattern with
  | nil =>
    cases h
    exact iff_of_true (fun _ he => nomatch he) fun _ hkey => nomatch hkey
  | cons key keys ih =>
    rw [patternOf] at h
    split at h
    · rename_i v hget
      obtain ⟨rest, hrest, rfl⟩ := Option.map_eq_some_iff.mp h
      rw [List.forall_mem_cons, List.forall_mem_cons, ih hrest]
      apply and_congr_left
      intro _
      constructor
      · exact fun hv => ⟨v, hget, hv⟩
      · rintro ⟨w, hw, hP⟩
        rw [hget] at hw
        cases hw
        exact hP
    · cases h

/-- Without `parameters` in the way, the request asks for the nodes that the call describes. -/
theorem fits_iff_describes (hr : c.request = some r) (hown : lit "parameters" ∉ c.matchProperties.keys) (n : NeoNode E O) :
    r.fits equal n = true ↔ c.Describes equal n := by
  rw [MergeCall.request] at hr
  split at hr
  · cases hr
  · split at hr
    · cases hr
    · rename_i parameters hbound
      split at hr
      · rename_i pattern assignments hpattern hassigned
        cases hr
        obtain ⟨hset, -, -⟩ := (bound_values_iff hbound).mp (patternOf_isSome.mp ⟨pattern, hpattern⟩)
        rw [MergeRequest.fits, Bool.and_eq_true, List.all_eq_true, List.all_eq_true, patternOf_forall hpattern]
        simp only [decide_eq_true_eq, Option.any_eq_true]
        apply and_congr_right
        intro _
        have hget : ∀ {key given}, c.matchProperties.get key = some given → parameters.get key = some given := by
          intro key given hgiven
          have hin : key ∈ c.matchProperties.keys := Dict.mem_keys.mpr (by rw [hgiven]; rfl)
          have hkey : key ≠ lit "set_props" := fun heq => hset (heq ▸ hin)
          have hother : key ≠ lit "parameters" := fun heq => hown (heq ▸ hin)
          rw [bound_get hbound hgiven hother, get_params, if_neg hkey, hgiven]
        constructor
        · intro hall e he
          obtain ⟨v, hv, w, hw, hequal⟩ := hall e.1 (List.mem_map_of_mem he)
          have hsame := (hget (Dict.find_of_mem c.matchProperties.nodup he)).symm.trans hv
          exact ⟨v, w, Option.some.inj hsame, hw, hequal⟩
        · intro hall key hkey
          obtain ⟨e, he, rfl⟩ := List.mem_map.mp hkey
          obtain ⟨v, w, hv, hw, hequal⟩ := hall e he
          exact ⟨v, hv ▸ hget (Dict.find_of_mem c.matchProperties.nodup he), w, hw, hequal⟩
      · cases hr

/-- The flag of the result is right. -/
theorem created_iff {outcome : Outcome} {result : MergedNode E O} (hown : lit "parameters" ∉ c.matchProperties.keys)
    (hresult : (c.mergeNode equal outcome g).2 = some result) :
    result.created = .flag true ↔ ∀ n ∈ g.nodes, ¬ c.Describes equal n := by
  obtain ⟨-, r, hr, hhead⟩ := mergeNode_eq_some_iff.mp hresult
  obtain ⟨n, -, hrow, hmark⟩ := head_rows equal r g
  rw [hrow, Option.map_some] at hhead
  obtain rfl := Option.some.inj hhead
  rw [mergedNode, hmark, Option.getD_some, Value.flag.injEq, Bool.not_eq_true', List.any_eq_false]
  apply forall₂_congr
  intro n _
  rw [fits_iff_describes hr hown]

/-- With one label and one property it is the merge of the Graph-RAG methods. -/
theorem mergeNode_one [DecidableEq E] [DecidableEq O] {label key : Str} {value : Value E O} {props : Props E O}
    (hr : c.request = some ⟨[label], [(key, value)], props⟩) (outcome : Outcome) :
    (c.mergeNode (fun v w => decide (v = w)) outcome g).1 = (mergeNode label key value props outcome g).1 ∧
      (c.mergeNode (fun v w => decide (v = w)) outcome g).2.map (fun m => (m.id, m.created)) =
        (mergeNode label key value props outcome g).2.map fun m => (m.id, .flag m.created) := by
  have hfits : MergeRequest.fits (fun v w => decide (v = w)) ⟨[label], [(key, value)], props⟩ = fits label key value := by
    funext n
    simp only [MergeRequest.fits, fits, List.all_cons, List.all_nil, Bool.and_true]
    congr 1
    cases n.get key with
    | none => rfl
    | some v => simp
  have heffect : MergeRequest.effect (fun v w => decide (v = w)) ⟨[label], [(key, value)], props⟩ g =
      mergeEffect label key value props g := by
    rw [MergeRequest.effect, hfits]
    rfl
  rw [MergeCall.mergeNode, hr]
  cases outcome with
  | failed => exact ⟨rfl, rfl⟩
  | lost => exact ⟨heffect, rfl⟩
  | served =>
    refine ⟨heffect, ?_⟩
    rw [mergeNode]
    dsimp only
    rw [MergeRequest.rows, hfits]
    cases hmatched : g.nodes.filter (fits label key value) with
    | nil =>
      have hnone : ¬ g.nodes.any (fits label key value) = true := by
        intro hany
        obtain ⟨n, hn, hn'⟩ := List.any_eq_true.mp hany
        exact absurd (List.mem_filter.mpr ⟨hn, hn'⟩) (hmatched ▸ List.not_mem_nil)
      rw [if_neg hnone]
      simp [mergedNode, MergeRequest.created, marked, Node.get]
    | cons n ns =>
      have hmem := List.mem_filter.mp (hmatched ▸ List.mem_cons_self : n ∈ g.nodes.filter (fits label key value))
      rw [if_pos (List.any_eq_true.mpr ⟨n, hmem⟩)]
      simp [mergedNode, marked, Node.get]

end Result

/-! ## A person -/

/-- `merge_node(["Person"], {"name": "Ada"})`. -/
def mergeAda : MergeCall Nat Empty :=
  ⟨[lit "Person"], Dict.empty.set (lit "name") (.value (.text (lit "Ada"))), none⟩

theorem mark_stays_on_node : ¬ ∀ result, (mergeAda.mergeNode (fun v w => decide (v = w)) .served .empty).2 = some result →
    WritesExactly (fun v w => decide (v = w)) mergeAda .empty
      (mergeAda.mergeNode (fun v w => decide (v = w)) .served .empty).1 result := by
  intro hexact
  obtain ⟨n, hn, -, hsame⟩ := (hexact _ rfl).same
  obtain rfl := Option.some.inj hn
  have hmark := hsame (lit "_created")
  exact absurd hmark (by decide)

end IsaCloud.Graph
