import IsaCloud.Graph.Neo4jClient
import IsaCloud.Support.Runs

/-!
# Attributes of entities

An attribute is a node of its own, merged by `attr_id` and linked to its entity by a
`HAS_ATTRIBUTE` relationship. In a run, the wiring of entities and attributes is kept
as long as no call renames what others point to, no two attributes share an `attr_id`,
and each node that is created gets its relationship too.
-/

namespace IsaCloud.Graph

set_option autoImplicit false

open Support Support.Text Support.PropertyGraph

variable {E O : Type} [DecidableEq E] [DecidableEq O]

inductive ContextCall (E O : Type) where
  | entity (c : EntityCall E O)
  | attr (c : AttributeCall E O)

/-- The graph, and the attribute calls with the success they reported, the last one first. -/
structure History (E O : Type) where
  graph : NeoGraph E O
  log : List (AttributeCall E O × Bool)

namespace History

def start : History E O := ⟨.empty, []⟩

def step (s : History E O) : ContextCall E O → History E O
  | .entity c => { s with graph := (storeEntity c s.graph).1 }
  | .attr c => ⟨(storeAttribute c s.graph).1, (c, (storeAttribute c s.graph).2) :: s.log⟩

/-- Value and success of the last call for the attribute. -/
def latest (s : History E O) (e a : Str) : Option (Str × Bool) :=
  (s.log.find? fun x => decide (x.1.entityName = e ∧ x.1.attributeName = a)).map fun x => (x.1.value, x.2)

/-- What has been stored is listed once, and what is listed has been stored for the entity. -/
structure Readable (s : History E O) : Prop where
  listed : ∀ e a v, s.latest e a = some (v, true) → ∃ entries, contextAttributes e s.graph = some entries ∧
    ∃ type, entries.filter (fun x => decide (x.name = some (.text a))) = [⟨some (.text a), some (.text v), type⟩]
  ofEntity : ∀ e entries, contextAttributes e s.graph = some entries → ∀ x ∈ entries, ∃ c ∈ s.log,
    c.1.entityName = e ∧ x.name = some (.text c.1.attributeName) ∧ x.value = some (.text c.1.value)

end History

/-! ## The condition on a call -/

def isEntity (name : Str) (n : NeoNode E O) : Bool := fits (lit "Entity") (lit "name") (.text name) n

def isAttribute (id : Str) (n : NeoNode E O) : Bool := fits (lit "Attribute") (lit "attr_id") (.text id) n

def EntityCall.KeepsName (c : EntityCall E O) : Prop := c.props.get (lit "name") = some (textProp c.name)

structure AttributeCall.Plain (c : AttributeCall E O) : Prop where
  id : c.props.get (lit "attr_id") = some (textProp (attrId c.entityName c.attributeName))
  name : c.props.get (lit "name") = some (textProp c.attributeName)
  value : c.props.get (lit "value") = some (textProp c.value)

def LinkedFrom (g : NeoGraph E O) (e : Str) (n : NeoNode E O) : Prop :=
  ∃ r ∈ g.relationships, r.stop = n.id ∧ ∃ m, g.node? r.start = some m ∧ isEntity e m = true

/-- The entity is found, and the merge takes place. -/
def AttributeCall.Reaches (c : AttributeCall E O) (g : NeoGraph E O) : Prop :=
  c.find = .served ∧ (∃ m ∈ g.nodes, isEntity c.entityName m = true) ∧ c.merge ≠ .failed

/-- A call that renames no entity with attributes; or one that leaves the properties of an attribute
as they are, takes over only what is linked from its entity, and links what it creates. -/
def Clear (s : History E O) : ContextCall E O → Prop
  | .entity c => c.merge ≠ .failed → c.KeepsName ∨
      ∀ m ∈ s.graph.nodes, isEntity c.name m = true → ∀ r ∈ s.graph.relationships, r.start ≠ m.id
  | .attr c => c.Reaches s.graph → c.Plain ∧
      (∀ n ∈ s.graph.nodes, isAttribute (attrId c.entityName c.attributeName) n = true →
        LinkedFrom s.graph c.entityName n) ∧
      ((∀ n ∈ s.graph.nodes, isAttribute (attrId c.entityName c.attributeName) n = false) →
        c.merge = .served → c.relate ≠ .failed)

/-! ## The wiring -/

/-- The relationship lists the attribute `a` of the entity `e` with the value `v`. -/
def Lists (g : NeoGraph E O) (e a v : Str) (r : Relationship Str Str (Value E O)) : Prop :=
  ∃ m n, g.node? r.start = some m ∧ isEntity e m = true ∧ g.node? r.stop = some n ∧
    isAttribute (attrId e a) n = true ∧ n.get (lit "name") = some (.text a) ∧ n.get (lit "value") = some (.text v)

structure Wired (g : NeoGraph E O) : Prop where
  sound : Sound g
  single : ∀ n ∈ g.nodes, lit "Entity" ∈ n.labels → lit "Attribute" ∉ n.labels
  ids : ∀ m ∈ g.nodes, ∀ n ∈ g.nodes, ∀ id, isAttribute id m = true → isAttribute id n = true → m.id = n.id
  stops : (g.relationships.map Relationship.stop).Nodup
  kind : ∀ r ∈ g.relationships, r.type = hasAttribute

structure Kept (s : History E O) : Prop where
  wired : Wired s.graph
  stored : ∀ r ∈ s.graph.relationships, ∃ c ∈ s.log, Lists s.graph c.1.entityName c.1.attributeName c.1.value r
  current : ∀ e a v, s.latest e a = some (v, true) → ∃ r ∈ s.graph.relationships, Lists s.graph e a v r

theorem isEntity_iff {name : Str} {n : NeoNode E O} :
    isEntity name n = true ↔ lit "Entity" ∈ n.labels ∧ n.get (lit "name") = some (.text name) := by
  rw [isEntity, fits, Bool.and_eq_true, decide_eq_true_iff, decide_eq_true_iff]

theorem isAttribute_iff {id : Str} {n : NeoNode E O} :
    isAttribute id n = true ↔ lit "Attribute" ∈ n.labels ∧ n.get (lit "attr_id") = some (.text id) := by
  rw [isAttribute, fits, Bool.and_eq_true, decide_eq_true_iff, decide_eq_true_iff]

theorem isEntity_name_unique {e e' : Str} {n : NeoNode E O} (h : isEntity e n = true) (h' : isEntity e' n = true) :
    e = e' := by
  have hget := (isEntity_iff.mp h).2.symm.trans (isEntity_iff.mp h').2
  injection hget with hget
  injection hget

theorem isAttribute_id_unique {i i' : Str} {n : NeoNode E O} (h : isAttribute i n = true) (h' : isAttribute i' n = true) :
    i = i' := by
  have hget := (isAttribute_iff.mp h).2.symm.trans (isAttribute_iff.mp h').2
  injection hget with hget
  injection hget

theorem attrId_injective (e : Str) {a a' : Str} (h : attrId e a = attrId e a') : a = a' :=
  List.append_cancel_left h

/-! ## What is read from the wiring -/

theorem mem_attributeNodes_iff {g : NeoGraph E O} (h : Wired g) {e : Str} {n : NeoNode E O} :
    n ∈ attributeNodes e g ↔ lit "Attribute" ∈ n.labels ∧
      ∃ r ∈ g.relationships, g.node? r.stop = some n ∧ ∃ m, g.node? r.start = some m ∧ isEntity e m = true := by
  rw [attributeNodes, mem_follow_iff]
  constructor
  · rintro ⟨r, hr, -, hstart, hstop, hlabel⟩
    exact ⟨of_decide_eq_true hlabel, r, hr, hstop, hstart⟩
  · rintro ⟨hlabel, r, hr, hstop, hstart⟩
    exact ⟨r, hr, h.kind r hr, hstart, hstop, decide_eq_true hlabel⟩

/-- Each attribute that is read was stored for the entity. -/
theorem stored_of_mem {s : History E O} (h : Kept s) {e : Str} {n : NeoNode E O} (hn : n ∈ attributeNodes e s.graph) :
    ∃ c ∈ s.log, c.1.entityName = e ∧ isAttribute (attrId e c.1.attributeName) n = true ∧
      n.get (lit "name") = some (.text c.1.attributeName) ∧ n.get (lit "value") = some (.text c.1.value) := by
  obtain ⟨-, r, hr, hstop, m, hm, he⟩ := (mem_attributeNodes_iff h.wired).mp hn
  obtain ⟨c, hc, m', n', hm', he', hn', hid, hname, hvalue⟩ := h.stored r hr
  obtain rfl := Option.some.inj (hm.symm.trans hm')
  obtain rfl := Option.some.inj (hstop.symm.trans hn')
  obtain rfl := isEntity_name_unique he' he
  exact ⟨c, hc, rfl, hid, hname, hvalue⟩

theorem contextAttributes_eq {e : Str} {g : NeoGraph E O} {m : NeoNode E O} (hm : m ∈ g.nodes)
    (he : isEntity e m = true) : contextAttributes e g = some ((attributeNodes e g).map attributeEntry) := by
  have hfound : m ∈ g.nodes.filter (fits (lit "Entity") (lit "name") (.text e)) := List.mem_filter.mpr ⟨hm, he⟩
  unfold contextAttributes findNodes
  cases hf : g.nodes.filter (fits (lit "Entity") (lit "name") (.text e)) with
  | nil =>
    rw [hf] at hfound
    exact absurd hfound List.not_mem_nil
  | cons m₁ ms => rfl

theorem contextAttributes_some {e : Str} {g : NeoGraph E O} {entries : List (AttributeEntry E O)}
    (h : contextAttributes e g = some entries) : entries = (attributeNodes e g).map attributeEntry := by
  unfold contextAttributes at h
  split at h
  · exact (Option.some.inj h).symm
  · cases h

theorem readable_of_kept {s : History E O} (h : Kept s) : s.Readable := by
  constructor
  · intro e a v hlast
    obtain ⟨r, hr, m, n, hm, he, hn, hid, hname, hvalue⟩ := h.current e a v hlast
    have hnodes := ((node?_eq_some_iff h.wired.sound).mp hn).1
    have hmem : n ∈ attributeNodes e s.graph :=
      (mem_attributeNodes_iff h.wired).mpr ⟨(isAttribute_iff.mp hid).1, r, hr, hn, m, hm, he⟩
    refine ⟨_, contextAttributes_eq ((node?_eq_some_iff h.wired.sound).mp hm).1 he, n.get (lit "attribute_type"), ?_⟩
    -- any other node of that name would have the same `attr_id`
    have honly : (attributeNodes e s.graph).filter
        ((fun x => decide (x.name = some (.text a))) ∘ attributeEntry) = [n] := by
      have hnodup : (attributeNodes e s.graph).Nodup := nodup_follow h.wired.stops
      apply List.Perm.eq_singleton
      apply (List.perm_ext_iff_of_nodup (hnodup.filter _) (List.nodup_singleton n)).mpr
      intro n'
      rw [List.mem_filter, List.mem_singleton]
      constructor
      · rintro ⟨hn', hname'⟩
        obtain ⟨c, -, -, hid', hc, -⟩ := stored_of_mem h hn'
        have hnamed : some (Value.text c.1.attributeName : Value E O) = some (.text a) :=
          hc.symm.trans (of_decide_eq_true hname')
        injection hnamed with hnamed
        injection hnamed with hnamed
        rw [hnamed] at hid'
        obtain ⟨-, r', -, hstop', -⟩ := (mem_attributeNodes_iff h.wired).mp hn'
        have hnodes' := ((node?_eq_some_iff h.wired.sound).mp hstop').1
        exact Table.eq_of_mem h.wired.sound.keyed hnodes' hnodes (h.wired.ids n' hnodes' n hnodes _ hid' hid)
      · rintro rfl
        exact ⟨hmem, decide_eq_true hname⟩
    rw [List.filter_map, honly, List.map_singleton, attributeEntry, hname, hvalue]
  · intro e entries hentries x hx
    rw [contextAttributes_some hentries] at hx
    obtain ⟨n, hn, rfl⟩ := List.mem_map.mp hx
    obtain ⟨c, hc, he, -, hname, hvalue⟩ := stored_of_mem h hn
    exact ⟨c, hc, he, hname, hvalue⟩

/-! ## What a merge does to the wiring -/

section Merge
variable {label key : Str} {value : Value E O} {props : Props E O} {g : NeoGraph E O}

omit [DecidableEq E] [DecidableEq O] in
theorem get_marked {k v : Str} (hk : k ≠ lit "_created") (hp : props.get k = some (textProp v)) (created : Bool)
    (n : NeoNode E O) : (marked props created n).get k = some (.text v) := by
  change ((n.setAll props).properties.set (lit "_created") (.flag created)).get k = _
  rw [Dict.get_set_of_ne _ _ hk]
  change (n.setAll props).get k = _
  rw [Node.get_setAll, hp]
  rfl

theorem relationships_mergeEffect : (mergeEffect label key value props g).relationships = g.relationships := by
  unfold mergeEffect merge
  split
  · rfl
  · rfl

theorem sound_mergeEffect (h : Sound g) : Sound (mergeEffect label key value props g) :=
  sound_merge (fun _ => rfl) (fun _ => rfl) h

/-- The nodes that were there are still there; those of the pattern are marked. -/
theorem node?_mergeEffect (h : Sound g) {i : Nat} {n : NeoNode E O} (hn : g.node? i = some n) :
    (mergeEffect label key value props g).node? i =
      some (if fits label key value n = true then marked props false n else n) := by
  have hid : ∀ n : NeoNode E O, (marked props false n).id = n.id := fun _ => rfl
  unfold mergeEffect
  by_cases hany : g.nodes.any (fits label key value) = true
  · rw [node?_merge_matched hid hany, hn]
    rfl
  · have hno : fits label key value n = false := by
      by_contra hf
      exact hany (List.any_eq_true.mpr ⟨n, ((node?_eq_some_iff h).mp hn).1, by simpa using hf⟩)
    have hfresh : ∀ i, (marked props true (⟨i, [label], Dict.empty.set key value⟩ : NeoNode E O)).id = i := fun _ => rfl
    rw [node?_merge_created hfresh h hany, if_neg (node?_lt h hn).ne', hn, hno]
    rfl

/-- A node afterwards is one of those, or the only one of the pattern. -/
theorem mem_mergeEffect {n' : NeoNode E O} (hn : n' ∈ (mergeEffect label key value props g).nodes) :
    (∃ n ∈ g.nodes, n' = if fits label key value n = true then marked props false n else n) ∨
      (∀ n ∈ g.nodes, fits label key value n = false) ∧
        n' = marked props true ⟨g.nextNode, [label], Dict.empty.set key value⟩ := by
  unfold mergeEffect merge at hn
  split at hn
  · obtain ⟨n, hmem, rfl⟩ := List.mem_map.mp hn
    exact Or.inl ⟨n, hmem, rfl⟩
  · rename_i hany
    rcases List.mem_append.mp hn with hn | hn
    · have hno : ∀ n ∈ g.nodes, fits label key value n = false := by
        intro n hmem
        by_contra hf
        exact hany (List.any_eq_true.mpr ⟨n, hmem, by simpa using hf⟩)
      exact Or.inl ⟨n', hn, by rw [hno n' hn]; rfl⟩
    · refine Or.inr ⟨?_, List.mem_singleton.mp hn⟩
      intro n hmem
      by_contra hf
      exact hany (List.any_eq_true.mpr ⟨n, hmem, by simpa using hf⟩)

end Merge

/-! ## An entity call -/

section Entity
variable {g : NeoGraph E O} {c : EntityCall E O}

theorem not_isEntity_of_attribute (h : Wired g) {n : NeoNode E O} (hn : n ∈ g.nodes) (hlabel : lit "Attribute" ∈ n.labels)
    (e : Str) : isEntity e n = false := by
  by_contra he
  exact h.single n hn (isEntity_iff.mp (Bool.not_eq_false _ ▸ he)).1 hlabel

/-- An attribute afterwards is one from before, unchanged. -/
theorem attribute_of_entityMerge (h : Wired g) {n' : NeoNode E O} {name : Str} {props : Props E O}
    (hn : n' ∈ (mergeEffect (lit "Entity") (lit "name") (.text name) props g).nodes)
    (hlabel : lit "Attribute" ∈ n'.labels) : n' ∈ g.nodes := by
  rcases mem_mergeEffect hn with ⟨n, hmem, rfl⟩ | ⟨-, rfl⟩
  · split at hlabel
    · rename_i hfit
      exact absurd hlabel (h.single n hmem (isEntity_iff.mp hfit).1)
    · rename_i hfit
      rw [if_neg hfit]
      exact hmem
  · change lit "Attribute" ∈ [lit "Entity"] at hlabel
    exact absurd hlabel (by decide)

theorem wired_entityMerge (h : Wired g) (name : Str) (props : Props E O) :
    Wired (mergeEffect (lit "Entity") (lit "name") (.text name) props g) where
  sound := sound_mergeEffect h.sound
  single := by
    intro n' hn hentity hattribute
    exact h.single n' (attribute_of_entityMerge h hn hattribute) hentity hattribute
  ids := by
    intro m hm n hn id hid hid'
    exact h.ids m (attribute_of_entityMerge h hm (isAttribute_iff.mp hid).1) n
      (attribute_of_entityMerge h hn (isAttribute_iff.mp hid').1) id hid hid'
  stops := by
    rw [relationships_mergeEffect]
    exact h.stops
  kind := by
    rw [relationships_mergeEffect]
    exact h.kind

theorem lists_entityMerge (h : Wired g) {name : Str} {props : Props E O}
    (hclear : props.get (lit "name") = some (textProp name) ∨
      ∀ m ∈ g.nodes, isEntity name m = true → ∀ r ∈ g.relationships, r.start ≠ m.id)
    {e a v : Str} {r : Relationship Str Str (Value E O)} (hr : r ∈ g.relationships) (hl : Lists g e a v r) :
    Lists (mergeEffect (lit "Entity") (lit "name") (.text name) props g) e a v r := by
  obtain ⟨m, n, hm, he, hn, hid, hname, hvalue⟩ := hl
  have hm' := (node?_eq_some_iff h.sound).mp hm
  have hn' := (node?_eq_some_iff h.sound).mp hn
  refine ⟨_, n, node?_mergeEffect h.sound hm, ?_, ?_, hid, hname, hvalue⟩
  · split
    · rename_i hfit
      obtain rfl := isEntity_name_unique he hfit
      rcases hclear with hkeep | hfree
      · exact isEntity_iff.mpr ⟨(isEntity_iff.mp he).1, get_marked (by decide) hkeep _ m⟩
      · exact absurd hm'.2.symm (hfree m hm'.1 he r hr)
    · exact he
  · have hno := not_isEntity_of_attribute h hn'.1 (isAttribute_iff.mp hid).1 name
    rw [node?_mergeEffect h.sound hn]
    exact congrArg some (if_neg (Bool.not_eq_true _ ▸ hno))

end Entity

/-! ## An attribute call -/

section Attribute
variable {g : NeoGraph E O} {c : AttributeCall E O}

/-- The graph after the merge. -/
def AttributeCall.merged (c : AttributeCall E O) (g : NeoGraph E O) : NeoGraph E O :=
  mergeEffect (lit "Attribute") (lit "attr_id") (.text (attrId c.entityName c.attributeName)) c.props g

/-- A node afterwards is one from before, perhaps marked, or the one that was created. -/
theorem mem_merged {n' : NeoNode E O} (hn : n' ∈ (c.merged g).nodes) :
    (∃ n ∈ g.nodes, n' = if isAttribute (attrId c.entityName c.attributeName) n = true then marked c.props false n else n) ∨
      (∀ n ∈ g.nodes, isAttribute (attrId c.entityName c.attributeName) n = false) ∧
        n' = marked c.props true ⟨g.nextNode, [lit "Attribute"],
          Dict.empty.set (lit "attr_id") (.text (attrId c.entityName c.attributeName))⟩ :=
  mem_mergeEffect hn

theorem isAttribute_marked (hp : c.Plain) {n : NeoNode E O} (hlabel : lit "Attribute" ∈ n.labels) (created : Bool) :
    isAttribute (attrId c.entityName c.attributeName) (marked c.props created n) = true :=
  isAttribute_iff.mpr ⟨hlabel, get_marked (by decide) hp.id created n⟩

/-- Marking changes no `attr_id`. -/
theorem isAttribute_ite (hp : c.Plain) (n : NeoNode E O) (id : Str) :
    isAttribute id (if isAttribute (attrId c.entityName c.attributeName) n = true then marked c.props false n else n) =
      isAttribute id n := by
  split
  · rename_i hfit
    apply Bool.eq_iff_iff.mpr
    constructor
    · intro h
      rw [isAttribute_id_unique h (isAttribute_marked hp (isAttribute_iff.mp hfit).1 false)]
      exact hfit
    · intro h
      rw [isAttribute_id_unique h hfit]
      exact isAttribute_marked hp (isAttribute_iff.mp hfit).1 false
  · rfl

theorem id_ite (n : NeoNode E O) (id : Str) :
    (if isAttribute id n = true then marked c.props false n else n).id = n.id := by
  split
  · rfl
  · rfl

theorem labels_ite (n : NeoNode E O) (id : Str) :
    (if isAttribute id n = true then marked c.props false n else n).labels = n.labels := by
  split
  · rfl
  · rfl

theorem single_merged (h : Wired g) {n' : NeoNode E O} (hn : n' ∈ (c.merged g).nodes) (hentity : lit "Entity" ∈ n'.labels) :
    lit "Attribute" ∉ n'.labels := by
  rcases mem_merged hn with ⟨n, hmem, rfl⟩ | ⟨-, rfl⟩
  · rw [labels_ite] at hentity ⊢
    exact h.single n hmem hentity
  · change lit "Entity" ∈ [lit "Attribute"] at hentity
    exact absurd hentity (by decide)

theorem ids_merged (h : Wired g) (hp : c.Plain) {m' n' : NeoNode E O} (hm : m' ∈ (c.merged g).nodes)
    (hn : n' ∈ (c.merged g).nodes) {id : Str} (hid : isAttribute id m' = true) (hid' : isAttribute id n' = true) :
    m'.id = n'.id := by
  have hnew : ∀ n ∈ g.nodes, (∀ n ∈ g.nodes, isAttribute (attrId c.entityName c.attributeName) n = false) →
      isAttribute id n = true → isAttribute id (marked c.props true ⟨g.nextNode, [lit "Attribute"],
        Dict.empty.set (lit "attr_id") (.text (attrId c.entityName c.attributeName))⟩) = true → False := by
    intro n hmem hno hold hfresh
    rw [isAttribute_id_unique hfresh (isAttribute_marked hp (List.mem_singleton.mpr rfl) true), hno n hmem] at hold
    cases hold
  rcases mem_merged hm with ⟨m, hmem, rfl⟩ | ⟨hno, rfl⟩
  · rw [isAttribute_ite hp] at hid
    rcases mem_merged hn with ⟨n, hmem', rfl⟩ | ⟨hno, rfl⟩
    · rw [isAttribute_ite hp] at hid'
      rw [id_ite, id_ite]
      exact h.ids m hmem n hmem' id hid hid'
    · exact absurd (hnew m hmem hno hid hid') not_false
  · rcases mem_merged hn with ⟨n, hmem', rfl⟩ | ⟨-, rfl⟩
    · rw [isAttribute_ite hp] at hid'
      exact absurd (hnew n hmem' hno hid' hid) not_false
    · rfl

/-- The entities are where they were. -/
theorem entity_merged (h : Wired g) {i : Nat} {m : NeoNode E O} {e : Str} (hm : g.node? i = some m)
    (he : isEntity e m = true) : (c.merged g).node? i = some m := by
  have hno : ¬ isAttribute (attrId c.entityName c.attributeName) m = true := fun hfit =>
    h.single m ((node?_eq_some_iff h.sound).mp hm).1 (isEntity_iff.mp he).1 (isAttribute_iff.mp hfit).1
  exact (node?_mergeEffect h.sound hm).trans (congrArg some (if_neg hno))

theorem lists_other (h : Wired g) {e a v : Str} {r : Relationship Str Str (Value E O)} (hl : Lists g e a v r)
    (hne : attrId e a ≠ attrId c.entityName c.attributeName) : Lists (c.merged g) e a v r := by
  obtain ⟨m, n, hm, he, hn, hid, hname, hvalue⟩ := hl
  refine ⟨m, n, entity_merged h hm he, he, ?_, hid, hname, hvalue⟩
  have hno : ¬ isAttribute (attrId c.entityName c.attributeName) n = true := fun hfit =>
    hne (isAttribute_id_unique hid hfit)
  exact (node?_mergeEffect h.sound hn).trans (congrArg some (if_neg hno))

/-- What is listed under the same `attr_id` is the attribute of the call, and has its value afterwards. -/
theorem lists_updated (h : Wired g) (hp : c.Plain)
    (howner : ∀ n ∈ g.nodes, isAttribute (attrId c.entityName c.attributeName) n = true → LinkedFrom g c.entityName n)
    {e a v : Str} {r : Relationship Str Str (Value E O)} (hr : r ∈ g.relationships) (hl : Lists g e a v r)
    (heq : attrId e a = attrId c.entityName c.attributeName) :
    e = c.entityName ∧ a = c.attributeName ∧ Lists (c.merged g) c.entityName c.attributeName c.value r := by
  obtain ⟨m, n, hm, he, hn, hid, -, -⟩ := hl
  rw [heq] at hid
  obtain ⟨hmem, hstop⟩ := (node?_eq_some_iff h.sound).mp hn
  obtain ⟨r', hr', hstop', m', hm', he'⟩ := howner n hmem hid
  obtain rfl := List.inj_on_of_nodup_map h.stops hr hr' (hstop.symm.trans hstop'.symm)
  obtain rfl := Option.some.inj (hm.symm.trans hm')
  obtain rfl := isEntity_name_unique he he'
  refine ⟨rfl, attrId_injective _ heq, m, marked c.props false n, entity_merged h hm he, he, ?_, ?_, ?_, ?_⟩
  · exact (node?_mergeEffect h.sound hn).trans (congrArg some (if_pos hid))
  · exact isAttribute_marked hp (isAttribute_iff.mp hid).1 false
  · exact get_marked (by decide) hp.name false n
  · exact get_marked (by decide) hp.value false n

end Attribute

end IsaCloud.Graph
