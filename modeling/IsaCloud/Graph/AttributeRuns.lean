import IsaCloud.Graph.Attributes

/-!
# Runs of entity and attribute calls

Every call that is clear keeps the wiring, and so what the log says is what is read.
-/

namespace IsaCloud.Graph

set_option autoImplicit false

open Support Support.Text Support.PropertyGraph

variable {E O : Type} [DecidableEq E] [DecidableEq O]

section Steps
variable {g : NeoGraph E O} {c : AttributeCall E O}

/-! ## What an attribute call does -/

theorem mem_of_findNodes {label key : Str} {value : Value E O} {outcome : Outcome} {n : NeoNode E O}
    {ns : List (NeoNode E O)} (h : findNodes label key value outcome g = some (n :: ns)) :
    outcome = .served ∧ n ∈ g.nodes ∧ fits label key value n = true := by
  unfold findNodes at h
  split at h
  · injection h with h
    have hmem : n ∈ (g.nodes.filter (fits label key value)).take 100 := h ▸ List.mem_cons_self
    obtain ⟨hn, hfit⟩ := List.mem_filter.mp (List.mem_of_mem_take hmem)
    exact ⟨rfl, hn, hfit⟩
  · cases h

/-- Nothing, or a merge of a node that is there, or of a new node, which is linked unless the answer is lost. -/
theorem storeAttribute_cases (c : AttributeCall E O) (g : NeoGraph E O) :
    storeAttribute c g = (g, false) ∨
      c.Reaches g ∧
        ((∃ n ∈ g.nodes, isAttribute (attrId c.entityName c.attributeName) n = true) ∧
            (storeAttribute c g).1 = c.merged g ∨
          (∀ n ∈ g.nodes, isAttribute (attrId c.entityName c.attributeName) n = false) ∧
            (storeAttribute c g = (c.merged g, false) ∨
              c.merge = .served ∧ ∃ m ∈ g.nodes, isEntity c.entityName m = true ∧
                storeAttribute c g = ((createRelationship m.id g.nextNode hasAttribute c.relate (c.merged g)).1, true))) := by
  unfold storeAttribute
  cases hfind : findNodes (lit "Entity") (lit "name") (.text c.entityName) c.find g with
  | none => exact Or.inl rfl
  | some found =>
    cases found with
    | nil => exact Or.inl rfl
    | cons m ms =>
      obtain ⟨hserved, hmem, hentity⟩ := mem_of_findNodes hfind
      dsimp only
      cases hmerge : c.merge with
      | failed => exact Or.inl rfl
      | lost =>
        refine Or.inr ⟨⟨hserved, ⟨m, hmem, hentity⟩, by rw [hmerge]; exact Outcome.noConfusion⟩, ?_⟩
        by_cases hany : ∃ n ∈ g.nodes, isAttribute (attrId c.entityName c.attributeName) n = true
        · exact Or.inl ⟨hany, rfl⟩
        · refine Or.inr ⟨?_, Or.inl rfl⟩
          intro n hn
          by_contra hf
          exact hany ⟨n, hn, by simpa using hf⟩
      | served =>
        refine Or.inr ⟨⟨hserved, ⟨m, hmem, hentity⟩, by rw [hmerge]; exact Outcome.noConfusion⟩, ?_⟩
        unfold mergeNode
        cases hfit : g.nodes.filter (fits (lit "Attribute") (lit "attr_id") (.text (attrId c.entityName c.attributeName))) with
        | nil =>
          refine Or.inr ⟨?_, Or.inr ⟨rfl, m, hmem, hentity, rfl⟩⟩
          intro n hn
          exact Bool.not_eq_true _ ▸ List.filter_eq_nil_iff.mp hfit n hn
        | cons n ns =>
          have hn : n ∈ g.nodes.filter
              (fits (lit "Attribute") (lit "attr_id") (.text (attrId c.entityName c.attributeName))) :=
            hfit ▸ List.mem_cons_self
          exact Or.inl ⟨⟨n, (List.mem_filter.mp hn).1, (List.mem_filter.mp hn).2⟩, rfl⟩

/-! ## The wiring afterwards -/

theorem wired_merged (h : Wired g) (hp : c.Plain) : Wired (c.merged g) where
  sound := sound_mergeEffect h.sound
  single _ := single_merged h
  ids _ hm _ hn _ := ids_merged h hp hm hn
  stops := by
    rw [AttributeCall.merged, relationships_mergeEffect]
    exact h.stops
  kind := by
    rw [AttributeCall.merged, relationships_mergeEffect]
    exact h.kind

/-- The relationship that is created for a new node. -/
def AttributeCall.link (g : NeoGraph E O) (start : Nat) : Relationship Str Str (Value E O) :=
  ⟨g.nextRelationship, start, g.nextNode, hasAttribute, Dict.empty⟩

/-- The graph with the new node and its relationship. -/
def AttributeCall.linked (c : AttributeCall E O) (g : NeoGraph E O) (start : Nat) : NeoGraph E O :=
  { c.merged g with
    relationships := g.relationships ++ [AttributeCall.link g start]
    nextRelationship := g.nextRelationship + 1 }

theorem node?_created (h : Sound g)
    (hno : ∀ n ∈ g.nodes, isAttribute (attrId c.entityName c.attributeName) n = false) :
    (c.merged g).node? g.nextNode = some (marked c.props true ⟨g.nextNode, [lit "Attribute"],
      Dict.empty.set (lit "attr_id") (.text (attrId c.entityName c.attributeName))⟩) := by
  have hany : ¬ g.nodes.any
      (fits (lit "Attribute") (lit "attr_id") (.text (attrId c.entityName c.attributeName))) = true := by
    intro hany
    obtain ⟨n, hn, hfit⟩ := List.any_eq_true.mp hany
    exact Bool.false_ne_true ((hno n hn).symm.trans hfit)
  have hfresh : ∀ i, (marked c.props true (⟨i, [lit "Attribute"], Dict.empty.set (lit "attr_id")
      (.text (attrId c.entityName c.attributeName))⟩ : NeoNode E O)).id = i := fun _ => rfl
  exact (node?_merge_created hfresh h hany g.nextNode).trans (if_pos rfl)

theorem relate_merged (h : Wired g) (hno : ∀ n ∈ g.nodes, isAttribute (attrId c.entityName c.attributeName) n = false)
    {m : NeoNode E O} (hm : m ∈ g.nodes) (he : isEntity c.entityName m = true) :
    ((c.merged g).relate m.id g.nextNode hasAttribute Dict.empty).1 = c.linked g m.id := by
  have hstart := entity_merged (c := c) h ((node?_eq_some_iff h.sound).mpr ⟨hm, rfl⟩) he
  have hnext : (c.merged g).nextRelationship = g.nextRelationship := by
    unfold AttributeCall.merged mergeEffect merge
    split
    · rfl
    · rfl
  unfold relate
  rw [hstart, node?_created h.sound hno, AttributeCall.linked, AttributeCall.link]
  dsimp only
  rw [hnext, AttributeCall.merged, relationships_mergeEffect]

theorem createRelationship_eq (h : Wired g)
    (hno : ∀ n ∈ g.nodes, isAttribute (attrId c.entityName c.attributeName) n = false)
    {m : NeoNode E O} (hm : m ∈ g.nodes) (he : isEntity c.entityName m = true) (hrelate : c.relate ≠ .failed) :
    (createRelationship m.id g.nextNode hasAttribute c.relate (c.merged g)).1 = c.linked g m.id := by
  unfold createRelationship
  cases hr : c.relate with
  | failed => exact absurd hr hrelate
  | lost => exact relate_merged h hno hm he
  | served => exact relate_merged h hno hm he

theorem wired_linked (h : Wired g) (hp : c.Plain)
    (hno : ∀ n ∈ g.nodes, isAttribute (attrId c.entityName c.attributeName) n = false)
    {m : NeoNode E O} (hm : m ∈ g.nodes) (he : isEntity c.entityName m = true) : Wired (c.linked g m.id) where
  sound := relate_merged h hno hm he ▸ sound_relate (sound_mergeEffect h.sound) _ _ _ _
  single _ := single_merged h
  ids _ hm _ hn _ := ids_merged h hp hm hn
  stops := by
    have hfresh : g.nextNode ∉ g.relationships.map Relationship.stop := by
      intro hmem
      obtain ⟨r, hr, hstop⟩ := List.mem_map.mp hmem
      exact absurd (h.sound.stop_lt r hr) (hstop ▸ lt_irrefl _)
    change ((g.relationships ++ [AttributeCall.link g m.id]).map Relationship.stop).Nodup
    rw [List.map_append, List.nodup_append]
    refine ⟨h.stops, List.nodup_singleton _, ?_⟩
    intro i hi j hj heq
    rw [heq, List.mem_singleton.mp hj] at hi
    exact hfresh hi
  kind := by
    intro r hr
    rcases List.mem_append.mp hr with hr | hr
    · exact h.kind r hr
    · rw [List.mem_singleton.mp hr]
      rfl

theorem lists_link (h : Wired g) (hp : c.Plain)
    (hno : ∀ n ∈ g.nodes, isAttribute (attrId c.entityName c.attributeName) n = false)
    {m : NeoNode E O} (hm : m ∈ g.nodes) (he : isEntity c.entityName m = true) :
    Lists (c.linked g m.id) c.entityName c.attributeName c.value (AttributeCall.link g m.id) :=
  ⟨m, _, entity_merged (c := c) h ((node?_eq_some_iff h.sound).mpr ⟨hm, rfl⟩) he, he, node?_created h.sound hno,
    isAttribute_marked hp (List.mem_singleton.mpr rfl) true, get_marked (by decide) hp.name true _,
    get_marked (by decide) hp.value true _⟩

/-- Nothing else is listed under a new `attr_id`. -/
theorem attrId_ne_of_new (h : Wired g) (hno : ∀ n ∈ g.nodes, isAttribute (attrId c.entityName c.attributeName) n = false)
    {e a v : Str} {r : Relationship Str Str (Value E O)} (hl : Lists g e a v r) :
    attrId e a ≠ attrId c.entityName c.attributeName := by
  obtain ⟨m, n, -, -, hn, hid, -, -⟩ := hl
  intro heq
  rw [heq, hno n ((node?_eq_some_iff h.sound).mp hn).1] at hid
  cases hid

end Steps

/-! ## A step of a run -/

namespace History

theorem step_entity (s : History E O) (c : EntityCall E O) :
    s.step (.entity c) = { s with graph := (storeEntity c s.graph).1 } := rfl

theorem step_attr (s : History E O) (c : AttributeCall E O) :
    s.step (.attr c) = ⟨(storeAttribute c s.graph).1, (c, (storeAttribute c s.graph).2) :: s.log⟩ := rfl

omit [DecidableEq E] [DecidableEq O] in
theorem latest_cons (g : NeoGraph E O) (c : AttributeCall E O) (success : Bool) (log : List (AttributeCall E O × Bool))
    (e a : Str) : latest ⟨g, (c, success) :: log⟩ e a =
      if c.entityName = e ∧ c.attributeName = a then some (c.value, success) else latest ⟨g, log⟩ e a := by
  unfold latest
  rw [List.find?_cons]
  by_cases h : c.entityName = e ∧ c.attributeName = a
  · rw [if_pos h, decide_eq_true h]
    rfl
  · rw [if_neg h, decide_eq_false h]

omit [DecidableEq E] [DecidableEq O] in
/-- The call was for this attribute, or the one before it counts. -/
theorem latest_cons_cases {g g' : NeoGraph E O} {c : AttributeCall E O} {success : Bool}
    {log : List (AttributeCall E O × Bool)} {e a v : Str}
    (h : latest ⟨g', (c, success) :: log⟩ e a = some (v, true)) :
    (c.entityName = e ∧ c.attributeName = a ∧ c.value = v ∧ success = true) ∨
      ¬ (c.entityName = e ∧ c.attributeName = a) ∧ latest ⟨g, log⟩ e a = some (v, true) := by
  rw [latest_cons] at h
  split at h
  · rename_i hthis
    injection h with h
    injection h with hvalue hsuccess
    exact Or.inl ⟨hthis.1, hthis.2, hvalue, hsuccess⟩
  · rename_i hother
    exact Or.inr ⟨hother, h⟩

theorem kept_start : Kept (start : History E O) where
  wired := by
    refine ⟨sound_empty, ?_, ?_, List.nodup_nil, ?_⟩
    · intro n hn
      nomatch hn
    · intro m hm
      nomatch hm
    · intro r hr
      nomatch hr
  stored _ hr := nomatch hr
  current _ _ _ h := nomatch h

theorem kept_entity {s : History E O} (h : Kept s) {c : EntityCall E O} (hc : Clear s (.entity c)) :
    Kept (s.step (.entity c)) := by
  by_cases hmerge : c.merge = .failed
  · have hsame : s.step (.entity c) = s := by
      rw [step_entity, storeEntity, hmerge]
      rfl
    rw [hsame]
    exact h
  · have hgraph : (storeEntity c s.graph).1 =
        mergeEffect (lit "Entity") (lit "name") (.text c.name) c.props s.graph := by
      unfold storeEntity mergeNode
      cases hm : c.merge with
      | failed => exact absurd hm hmerge
      | lost => rfl
      | served => rfl
    rw [step_entity, hgraph]
    refine ⟨wired_entityMerge h.wired _ _, ?_, ?_⟩
    · intro r hr
      rw [relationships_mergeEffect] at hr
      obtain ⟨x, hx, hl⟩ := h.stored r hr
      exact ⟨x, hx, lists_entityMerge h.wired (hc hmerge) hr hl⟩
    · intro e a v hlast
      obtain ⟨r, hr, hl⟩ := h.current e a v hlast
      refine ⟨r, ?_, lists_entityMerge h.wired (hc hmerge) hr hl⟩
      rw [relationships_mergeEffect]
      exact hr

/-- A call without effect, which reports failure. -/
theorem kept_failed {s : History E O} (h : Kept s) (c : AttributeCall E O) : Kept ⟨s.graph, (c, false) :: s.log⟩ where
  wired := h.wired
  stored r hr := by
    obtain ⟨x, hx, hl⟩ := h.stored r hr
    exact ⟨x, List.mem_cons_of_mem _ hx, hl⟩
  current e a v hlast := by
    rcases latest_cons_cases (g := s.graph) hlast with ⟨-, -, -, hfalse⟩ | ⟨-, hbefore⟩
    · cases hfalse
    · exact h.current e a v hbefore

theorem kept_updated {s : History E O} (h : Kept s) {c : AttributeCall E O} (success : Bool) (hp : c.Plain)
    (howner : ∀ n ∈ s.graph.nodes, isAttribute (attrId c.entityName c.attributeName) n = true →
      LinkedFrom s.graph c.entityName n)
    (hany : ∃ n ∈ s.graph.nodes, isAttribute (attrId c.entityName c.attributeName) n = true) :
    Kept ⟨c.merged s.graph, (c, success) :: s.log⟩ := by
  have hrels : (c.merged s.graph).relationships = s.graph.relationships := relationships_mergeEffect
  refine ⟨wired_merged h.wired hp, ?_, ?_⟩
  · intro r hr
    rw [hrels] at hr
    obtain ⟨x, hx, hl⟩ := h.stored r hr
    by_cases heq : attrId x.1.entityName x.1.attributeName = attrId c.entityName c.attributeName
    · exact ⟨(c, success), List.mem_cons_self, (lists_updated h.wired hp howner hr hl heq).2.2⟩
    · exact ⟨x, List.mem_cons_of_mem _ hx, lists_other h.wired hl heq⟩
  · intro e a v hlast
    rw [hrels]
    rcases latest_cons_cases (g := s.graph) hlast with ⟨rfl, rfl, rfl, -⟩ | ⟨hother, hbefore⟩
    · obtain ⟨n, hn, hid⟩ := hany
      obtain ⟨r, hr, hstop, -⟩ := howner n hn hid
      obtain ⟨x, -, hl⟩ := h.stored r hr
      refine ⟨r, hr, (lists_updated h.wired hp howner hr hl ?_).2.2⟩
      obtain ⟨-, n', -, -, hn', hid', -, -⟩ := hl
      obtain ⟨hmem, hstop'⟩ := (node?_eq_some_iff h.wired.sound).mp hn'
      obtain rfl := Table.eq_of_mem h.wired.sound.keyed hn hmem (hstop.symm.trans hstop'.symm)
      exact isAttribute_id_unique hid' hid
    · obtain ⟨r, hr, hl⟩ := h.current e a v hbefore
      refine ⟨r, hr, lists_other h.wired hl fun heq => hother ?_⟩
      obtain ⟨he, ha, -⟩ := lists_updated h.wired hp howner hr hl heq
      exact ⟨he.symm, ha.symm⟩

/-- A node that nothing leads to, as the answer of its merge was lost. -/
theorem kept_unlinked {s : History E O} (h : Kept s) {c : AttributeCall E O} (hp : c.Plain)
    (hno : ∀ n ∈ s.graph.nodes, isAttribute (attrId c.entityName c.attributeName) n = false) :
    Kept ⟨c.merged s.graph, (c, false) :: s.log⟩ := by
  have hrels : (c.merged s.graph).relationships = s.graph.relationships := relationships_mergeEffect
  refine ⟨wired_merged h.wired hp, ?_, ?_⟩
  · intro r hr
    rw [hrels] at hr
    obtain ⟨x, hx, hl⟩ := h.stored r hr
    exact ⟨x, List.mem_cons_of_mem _ hx, lists_other h.wired hl (attrId_ne_of_new h.wired hno hl)⟩
  · intro e a v hlast
    rw [hrels]
    rcases latest_cons_cases (g := s.graph) hlast with ⟨-, -, -, hfalse⟩ | ⟨-, hbefore⟩
    · cases hfalse
    · obtain ⟨r, hr, hl⟩ := h.current e a v hbefore
      exact ⟨r, hr, lists_other h.wired hl (attrId_ne_of_new h.wired hno hl)⟩

theorem kept_created {s : History E O} (h : Kept s) {c : AttributeCall E O} (hp : c.Plain)
    (hno : ∀ n ∈ s.graph.nodes, isAttribute (attrId c.entityName c.attributeName) n = false)
    {m : NeoNode E O} (hm : m ∈ s.graph.nodes) (he : isEntity c.entityName m = true) :
    Kept ⟨c.linked s.graph m.id, (c, true) :: s.log⟩ := by
  have hold : ∀ {e a v r}, Lists s.graph e a v r → Lists (c.linked s.graph m.id) e a v r := fun hl =>
    lists_other h.wired hl (attrId_ne_of_new h.wired hno hl)
  have hlink := lists_link h.wired hp hno hm he
  refine ⟨wired_linked h.wired hp hno hm he, ?_, ?_⟩
  · intro r hr
    rcases List.mem_append.mp hr with hr | hr
    · obtain ⟨x, hx, hl⟩ := h.stored r hr
      exact ⟨x, List.mem_cons_of_mem _ hx, hold hl⟩
    · rw [List.mem_singleton.mp hr]
      exact ⟨(c, true), List.mem_cons_self, hlink⟩
  · intro e a v hlast
    rcases latest_cons_cases (g := s.graph) hlast with ⟨rfl, rfl, rfl, -⟩ | ⟨-, hbefore⟩
    · exact ⟨_, List.mem_append.mpr (Or.inr (List.mem_singleton.mpr rfl)), hlink⟩
    · obtain ⟨r, hr, hl⟩ := h.current e a v hbefore
      exact ⟨r, List.mem_append.mpr (Or.inl hr), hold hl⟩

theorem kept_attribute {s : History E O} (h : Kept s) {c : AttributeCall E O} (hc : Clear s (.attr c)) :
    Kept (s.step (.attr c)) := by
  rw [step_attr]
  rcases storeAttribute_cases c s.graph with hnone | ⟨hreaches, ⟨hany, hgraph⟩ | ⟨hno, hlost | ⟨hmerge, m, hm, he, heq⟩⟩⟩
  · rw [hnone]
    exact kept_failed h c
  · obtain ⟨hp, howner, -⟩ := hc hreaches
    rw [hgraph]
    exact kept_updated h _ hp howner hany
  · rw [hlost]
    exact kept_unlinked h (hc hreaches).1 hno
  · obtain ⟨hp, -, hlinks⟩ := hc hreaches
    rw [heq, createRelationship_eq h.wired hno hm he (hlinks hno hmerge)]
    exact kept_created h hp hno hm he

theorem kept_step (s : History E O) (c : ContextCall E O) (hc : Clear s c) (h : Kept s) : Kept (s.step c) := by
  cases c with
  | entity c => exact kept_entity h hc
  | attr c => exact kept_attribute h hc

/-- Whatever the calls and the failures of their requests: when all are clear, what was stored is read. -/
theorem attributes_readable {calls : List (ContextCall E O)} (h : Guarded step Clear start calls) :
    (run step start calls).Readable :=
  readable_of_kept (guarded_invariant Kept kept_step h kept_start)

/-! ## Berlin -/

def berlin : ContextCall Nat Empty :=
  .entity ⟨lit "Berlin", lit "CITY", Dict.empty, none, [], lit "2024-05-01T00:00:00", .served⟩

def population (relate : Outcome) : ContextCall Nat Empty :=
  .attr ⟨lit "Berlin", lit "population", lit "3645000", lit "NUMBER", Dict.empty, none, lit "2024-05-01T00:00:00",
    .served, .served, relate⟩

theorem population_is_read : (run step start [berlin, population .served]).Readable := by
  refine attributes_readable ⟨fun _ => Or.inl rfl, fun _ => ⟨⟨rfl, rfl, rfl⟩, ?_, ?_⟩, trivial⟩
  · intro n hn hfit
    refine absurd hfit ?_
    revert n
    decide
  · intro _ _
    decide

/-- The call that creates the relationship fails, and success is reported: the attribute is not listed. -/
theorem population_is_lost : latest (run step start [berlin, population .failed]) (lit "Berlin") (lit "population") =
      some (lit "3645000", true) ∧
    contextAttributes (lit "Berlin") (run step start [berlin, population .failed]).graph = some [] ∧
    ¬ (run step start [berlin, population .failed]).Readable := by
  have hlast : latest (run step start [berlin, population .failed]) (lit "Berlin") (lit "population") =
      some (lit "3645000", true) := by decide
  have hempty : contextAttributes (lit "Berlin") (run step start [berlin, population .failed]).graph = some [] := by
    decide
  refine ⟨hlast, hempty, fun h => ?_⟩
  obtain ⟨entries, hentries, type, hlisted⟩ := h.listed _ _ _ hlast
  obtain rfl := Option.some.inj (hempty.symm.trans hentries)
  exact List.cons_ne_nil _ _ hlisted.symm

end History

end IsaCloud.Graph
