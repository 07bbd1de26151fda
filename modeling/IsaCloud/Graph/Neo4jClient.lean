import IsaCloud.Support.Selections
import IsaCloud.Support.PropertyGraph
import IsaCloud.Support.Text

/-!
# The Graph-RAG methods of the Neo4j client

Each method sends requests one after the other; an exception of a request is that
method's answer for it (`None` or an empty list). `createdAt` is the clock's
`isoformat` at the call, and the value of an attribute is its `str`. A vector index
holds the nodes of its label whose embedding is a vector, and answers with the best
scored of them.
-/

namespace IsaCloud.Graph

set_option autoImplicit false

open Support Support.Text Support.PropertyGraph Support.NearestNeighbours

inductive Value (E O : Type) where
  | text (s : Str)
  | flag (b : Bool)
  | vector (e : E)
  | other (o : O)
  deriving DecidableEq

abbrev NeoNode (E O : Type) := Node Str Str (Value E O)

abbrev NeoGraph (E O : Type) := PropertyGraph Str Str (Value E O)

/-- A map for `SET n +=`; a null takes a property away. -/
abbrev Props (E O : Type) := Dict Str (Option (Value E O))

/-- What becomes of a request: a lost one is applied, and fails for the client. -/
inductive Outcome where
  | served
  | failed
  | lost
  deriving DecidableEq

section Properties
variable {E O : Type}

def textProp (s : Str) : Option (Value E O) := some (.text s)

/-- A user id and an embedding are set last, if they are there; an empty one is not. -/
def withOwner (props : Props E O) (userId : Str) (embedding : Option E) : Props E O :=
  let props := if userId ≠ [] then props.set (lit "user_id") (textProp userId) else props
  match embedding with
  | some e => props.set (lit "embedding") (some (.vector e))
  | none => props

def entityProps (name entityType createdAt : Str) (properties : Props E O) (embedding : Option E) (userId : Str) :
    Props E O :=
  withOwner ((((Dict.empty.set (lit "name") (textProp name)).set (lit "entity_type") (textProp entityType)).set
    (lit "created_at") (textProp createdAt)).update properties) userId embedding

def chunkProps (chunkId text createdAt : Str) (properties : Props E O) (embedding : Option E) (userId : Str) :
    Props E O :=
  withOwner ((((Dict.empty.set (lit "chunk_id") (textProp chunkId)).set (lit "text") (textProp text)).set
    (lit "created_at") (textProp createdAt)).update properties) userId embedding

/-- `f"{entity_name}_{attribute_name}"`. -/
def attrId (entityName attributeName : Str) : Str := entityName ++ lit "_" ++ attributeName

def attrProps (entityName attributeName value attributeType createdAt : Str) (properties : Props E O)
    (embedding : Option E) : Props E O :=
  withOwner ((((((Dict.empty.set (lit "attr_id") (textProp (attrId entityName attributeName))).set (lit "name")
    (textProp attributeName)).set (lit "value") (textProp value)).set (lit "attribute_type")
    (textProp attributeType)).set (lit "created_at") (textProp createdAt)).update properties) [] embedding

end Properties

section Requests
variable {E O : Type} [DecidableEq E] [DecidableEq O]

/-- `(n:labels {key: value})`. -/
def fits (label key : Str) (value : Value E O) (n : NeoNode E O) : Bool :=
  decide (label ∈ n.labels) && decide (n.get key = some value)

/-- `SET n += $set_props, n._created = created`. -/
def marked (props : Props E O) (created : Bool) (n : NeoNode E O) : NeoNode E O :=
  let n := n.setAll props
  { n with properties := n.properties.set (lit "_created") (.flag created) }

/-- The `MERGE` of `merge_node` with one label and one property to match. -/
def mergeEffect (label key : Str) (value : Value E O) (props : Props E O) (g : NeoGraph E O) : NeoGraph E O :=
  g.merge (fits label key value) (fun id => marked props true ⟨id, [label], Dict.empty.set key value⟩)
    (marked props false)

structure Merged where
  id : Nat
  created : Bool

/-- `merge_node`; the first row is read. -/
def mergeNode (label key : Str) (value : Value E O) (props : Props E O) (outcome : Outcome) (g : NeoGraph E O) :
    NeoGraph E O × Option Merged :=
  match outcome with
  | .failed => (g, none)
  | .lost => (mergeEffect label key value props g, none)
  | .served =>
    (mergeEffect label key value props g,
      match g.nodes.filter (fits label key value) with
      | [] => some ⟨g.nextNode, true⟩
      | n :: _ => some ⟨n.id, false⟩)

/-- `find_nodes` with one label and one property. -/
def findNodes (label key : Str) (value : Value E O) (outcome : Outcome) (g : NeoGraph E O) : Option (List (NeoNode E O)) :=
  match outcome with
  | .served => some ((g.nodes.filter (fits label key value)).take 100)
  | _ => none

def createRelationship (start stop : Nat) (type : Str) (outcome : Outcome) (g : NeoGraph E O) :
    NeoGraph E O × Option Nat :=
  match outcome with
  | .failed => (g, none)
  | .lost => ((g.relate start stop type Dict.empty).1, none)
  | .served => g.relate start stop type Dict.empty

/-! ## Storing -/

structure EntityCall (E O : Type) where
  name : Str
  entityType : Str
  properties : Props E O
  embedding : Option E
  userId : Str
  createdAt : Str
  merge : Outcome

structure ChunkCall (E O : Type) where
  chunkId : Str
  text : Str
  properties : Props E O
  embedding : Option E
  userId : Str
  createdAt : Str
  merge : Outcome

structure AttributeCall (E O : Type) where
  entityName : Str
  attributeName : Str
  value : Str
  attributeType : Str
  properties : Props E O
  embedding : Option E
  createdAt : Str
  find : Outcome
  merge : Outcome
  relate : Outcome

/-- The set map of `store_entity`. -/
def EntityCall.props (c : EntityCall E O) : Props E O :=
  entityProps c.name c.entityType c.createdAt c.properties c.embedding c.userId

/-- The `success` of an answer. -/
def storeEntity (c : EntityCall E O) (g : NeoGraph E O) : NeoGraph E O × Bool :=
  let result := mergeNode (lit "Entity") (lit "name") (.text c.name) c.props c.merge g
  (result.1, result.2.isSome)

def storeDocumentChunk (c : ChunkCall E O) (g : NeoGraph E O) : NeoGraph E O × Bool :=
  let result := mergeNode (lit "DocumentChunk") (lit "chunk_id") (.text c.chunkId)
    (chunkProps c.chunkId c.text c.createdAt c.properties c.embedding c.userId) c.merge g
  (result.1, result.2.isSome)

def hasAttribute : Str := lit "HAS_ATTRIBUTE"

/-- The set map of `store_attribute`. -/
def AttributeCall.props (c : AttributeCall E O) : Props E O :=
  attrProps c.entityName c.attributeName c.value c.attributeType c.createdAt c.properties c.embedding

def storeAttribute (c : AttributeCall E O) (g : NeoGraph E O) : NeoGraph E O × Bool :=
  match findNodes (lit "Entity") (lit "name") (.text c.entityName) c.find g with
  | some (entity :: _) =>
    match mergeNode (lit "Attribute") (lit "attr_id") (.text (attrId c.entityName c.attributeName)) c.props c.merge g with
    | (g', none) => (g', false)
    | (g', some merged) =>
      -- the answer of `create_relationship` is not looked at
      if merged.created then ((createRelationship entity.id merged.id hasAttribute c.relate g').1, true)
      else (g', true)
  | _ => (g, false)

/-! ## Reading -/

structure AttributeEntry (E O : Type) where
  name : Option (Value E O)
  value : Option (Value E O)
  type : Option (Value E O)
  deriving DecidableEq

def attributeEntry (n : NeoNode E O) : AttributeEntry E O :=
  ⟨n.get (lit "name"), n.get (lit "value"), n.get (lit "attribute_type")⟩

/-- `MATCH (e:Entity {name: $name})-[:HAS_ATTRIBUTE]->(a:Attribute) RETURN a`. -/
def attributeNodes (entityName : Str) (g : NeoGraph E O) : List (NeoNode E O) :=
  g.follow (fits (lit "Entity") (lit "name") (.text entityName)) (fun n => decide (lit "Attribute" ∈ n.labels))
    hasAttribute

/-- The attributes of `get_entity_context`, when its requests are served; `none` if there is no such entity. -/
def contextAttributes (entityName : Str) (g : NeoGraph E O) : Option (List (AttributeEntry E O)) :=
  match findNodes (lit "Entity") (lit "name") (.text entityName) .served g with
  | some (_ :: _) => some ((attributeNodes entityName g).map attributeEntry)
  | _ => none

/-! ## Vector search -/

section Search
variable {S : Type} [LinearOrder S] (score : E → E → S)

/-- A node of an index with its score. -/
abbrev Hit (E O S : Type) := NeoNode E O × S

def hitOf (label : Str) (query : E) (n : NeoNode E O) : Option (Hit E O S) :=
  if label ∈ n.labels then
    match n.get (lit "embedding") with
    | some (.vector e) => some (n, score query e)
    | _ => none
  else none

def indexed (label : Str) (query : E) (g : NeoGraph E O) : List (Hit E O S) :=
  g.nodes.filterMap (hitOf score label query)

/-- The test after the index, for a user if there is one. -/
def passes (threshold : S) (userId : Str) (hit : Hit E O S) : Bool :=
  decide (threshold ≤ hit.2) && (decide (userId = []) || decide (hit.1.get (lit "user_id") = some (.text userId)))

/-- The index is asked for `top_k` nodes; the `WHERE` comes after it. -/
def vectorSearch (label : Str) (query : E) (topK : Nat) (threshold : S) (userId : Str) (g : NeoGraph E O) :
    List (Hit E O S) :=
  ranked Prod.snd ((nearest Prod.snd topK (indexed score label query g)).filter (passes threshold userId))

structure EntityHit (E O S : Type) where
  id : Nat
  name : Option (Value E O)
  entityType : Option (Value E O)
  score : S
  properties : Dict Str (Value E O)

structure DocumentHit (E O S : Type) where
  id : Nat
  chunkId : Option (Value E O)
  text : Option (Value E O)
  score : S
  properties : Dict Str (Value E O)

def searchEntities (query : E) (topK : Nat) (threshold : S) (userId : Str) (g : NeoGraph E O) :
    List (EntityHit E O S) :=
  (vectorSearch score (lit "Entity") query topK threshold userId g).map fun hit =>
    ⟨hit.1.id, hit.1.get (lit "name"), hit.1.get (lit "entity_type"), hit.2, hit.1.properties⟩

def searchDocuments (query : E) (topK : Nat) (threshold : S) (userId : Str) (g : NeoGraph E O) :
    List (DocumentHit E O S) :=
  (vectorSearch score (lit "DocumentChunk") query topK threshold userId g).map fun hit =>
    ⟨hit.1.id, hit.1.get (lit "chunk_id"), hit.1.get (lit "text"), hit.2, hit.1.properties⟩

end Search

end Requests

end IsaCloud.Graph
