import IsaCloud.Graph.Neo4jClient
import IsaCloud.Support.Runs

/-!
# Tenants of one graph

An owner is a property of a node, and nodes are merged by name or chunk id alone.
A search takes the nearest nodes of all owners first and looks at the owner after.
What another user stores stays out of the way exactly when it merges none of the
user's nodes and the cut of the index is not crowded.
-/

namespace IsaCloud.Graph

set_option autoImplicit false

open Support Support.Text Support.PropertyGraph Support.NearestNeighbours

/-- An empty user id is no user for the client. -/
abbrev User := {s : Str // s ≠ []}

inductive StoreCall (E O : Type) where
  | entity (c : EntityCall E O)
  | chunk (c : ChunkCall E O)

inductive Index where
  | entities
  | documents
  deriving DecidableEq

structure Query (E S : Type) where
  index : Index
  embedding : E
  topK : Nat
  threshold : S

inductive Answer (E O S : Type) where
  | entities (hits : List (EntityHit E O S))
  | documents (hits : List (DocumentHit E O S))

section Isolation
variable {E O : Type} [DecidableEq E] [DecidableEq O]

/-- A call made with the user id of `v`. -/
def storeAs (v : User) (g : NeoGraph E O) : StoreCall E O → NeoGraph E O
  | .entity c => (storeEntity { c with userId := v.1 } g).1
  | .chunk c => (storeDocumentChunk { c with userId := v.1 } g).1

def owned (u : User) (n : NeoNode E O) : Bool := decide (n.get (lit "user_id") = some (.text u.1))

def ownNodes (u : User) (g : NeoGraph E O) : List (NeoNode E O) := g.nodes.filter (owned u)

/-- The call merges a node that belongs to `u`. -/
def Overwrites (u : User) (g : NeoGraph E O) : StoreCall E O → Prop
  | .entity c => c.merge ≠ .failed ∧ ∃ n ∈ g.nodes, owned u n = true ∧ fits (lit "Entity") (lit "name") (.text c.name) n = true
  | .chunk c => c.merge ≠ .failed ∧
      ∃ n ∈ g.nodes, owned u n = true ∧ fits (lit "DocumentChunk") (lit "chunk_id") (.text c.chunkId) n = true

section Queries
variable {S : Type} [LinearOrder S] (score : E → E → S)

def Index.label : Index → Str
  | entities => lit "Entity"
  | documents => lit "DocumentChunk"

def Query.answer (q : Query E S) (u : User) (g : NeoGraph E O) : Answer E O S :=
  match q.index with
  | .entities => .entities (searchEntities score q.embedding q.topK q.threshold u.1 g)
  | .documents => .documents (searchDocuments score q.embedding q.topK q.threshold u.1 g)

/-- The nodes of the index that belong to `u` and score above the threshold. -/
def Query.candidates (q : Query E S) (u : User) (g : NeoGraph E O) : List (Hit E O S) :=
  (indexed score q.index.label q.embedding { g with nodes := ownNodes u g }).filter fun hit =>
    decide (q.threshold ≤ hit.2)

/-- Of these the best, in the form of an answer. -/
def Query.best (q : Query E S) (u : User) (g : NeoGraph E O) : Answer E O S :=
  match q.index with
  | .entities => .entities ((nearest Prod.snd q.topK (q.candidates score u g)).map fun hit =>
      ⟨hit.1.id, hit.1.get (lit "name"), hit.1.get (lit "entity_type"), hit.2, hit.1.properties⟩)
  | .documents => .documents ((nearest Prod.snd q.topK (q.candidates score u g)).map fun hit =>
      ⟨hit.1.id, hit.1.get (lit "chunk_id"), hit.1.get (lit "text"), hit.2, hit.1.properties⟩)

/-- Of the nearest `top_k` nodes of the index all are good hits of `u`, or no other node is. -/
def Query.Uncrowded (q : Query E S) (u : User) (g : NeoGraph E O) : Prop :=
  NotCrowded Prod.snd (passes q.threshold u.1) q.topK (indexed score q.index.label q.embedding g)

/-- What `u` has stored is as it was, and the search for it too: the best of `u`'s own. -/
structure Protected (q : Query E S) (u : User) (g g' : NeoGraph E O) : Prop where
  kept : ownNodes u g' = ownNodes u g
  same : q.answer score u g' = q.answer score u g
  best : q.answer score u g' = q.best score u g'

end Queries

/-! ## What a call does to the nodes of another user -/

variable {u v : User}

omit [DecidableEq E] [DecidableEq O] in
theorem get_user_id_withOwner (props : Props E O) (embedding : Option E) :
    (withOwner props v.1 embedding).get (lit "user_id") = some (textProp v.1) := by
  have hne : lit "user_id" ≠ lit "embedding" := by decide
  unfold withOwner
  rw [if_pos v.2]
  cases embedding with
  | none => exact Dict.get_set_self _ _ _
  | some e => exact (Dict.get_set_of_ne _ _ hne).trans (Dict.get_set_self _ _ _)

theorem owned_marked (huv : u ≠ v) {props : Props E O} (hp : props.get (lit "user_id") = some (textProp v.1))
    (created : Bool) (n : NeoNode E O) : owned u (marked props created n) = false := by
  have hne : lit "user_id" ≠ lit "_created" := by decide
  have hget : (marked props created n).get (lit "user_id") = some (.text v.1) := by
    change ((n.setAll props).properties.set (lit "_created") (.flag created)).get (lit "user_id") = _
    rw [Dict.get_set_of_ne _ _ hne]
    change (n.setAll props).get (lit "user_id") = _
    rw [Node.get_setAll, hp]
    rfl
  rw [owned, hget]
  apply decide_eq_false
  intro h
  have htext : v.1 = u.1 := by
    injection h with h
    injection h
  exact huv (Subtype.ext htext.symm)

/-- A merge by `v` takes from `u` the nodes it matches, and no others. -/
theorem ownNodes_mergeEffect (huv : u ≠ v) {label key : Str} {value : Value E O} {props : Props E O}
    (hp : props.get (lit "user_id") = some (textProp v.1)) (g : NeoGraph E O) :
    ownNodes u (mergeEffect label key value props g) =
      (ownNodes u g).filter fun n => !fits label key value n := by
  have hmark := fun created n => owned_marked huv hp created n
  unfold ownNodes mergeEffect merge
  split
  · rw [List.filter_map, List.filter_filter]
    have hboth : (owned u ∘ fun n => if fits label key value n = true then marked props false n else n) =
        fun n => !fits label key value n && owned u n := by
      funext n
      simp only [Function.comp_apply]
      cases hf : fits label key value n with
      | true => simp [hmark]
      | false => simp
    rw [hboth]
    calc _ = ((g.nodes.filter fun n => !fits label key value n && owned u n)).map id := by
          apply List.map_congr_left
          intro n hn
          have hno := (List.mem_filter.mp hn).2
          rw [Bool.and_eq_true, Bool.not_eq_true'] at hno
          rw [hno.1]
          rfl
      _ = _ := List.map_id _
  · rename_i hany
    rw [create, List.filter_append, List.filter_singleton, hmark]
    have hnone : ∀ n ∈ g.nodes.filter (owned u), (!fits label key value n) = true := by
      intro n hn
      rw [Bool.not_eq_true']
      by_contra hf
      exact hany (List.any_eq_true.mpr ⟨n, (List.mem_filter.mp hn).1, by simpa using hf⟩)
    rw [List.filter_eq_self.mpr hnone]
    simp

theorem ownNodes_mergeNode (huv : u ≠ v) {label key : Str} {value : Value E O} {props : Props E O}
    (hp : props.get (lit "user_id") = some (textProp v.1)) (outcome : Outcome) (g : NeoGraph E O) :
    ownNodes u (mergeNode label key value props outcome g).1 =
      if outcome = .failed then ownNodes u g else (ownNodes u g).filter fun n => !fits label key value n := by
  cases outcome with
  | failed => rfl
  | served => exact ownNodes_mergeEffect huv hp g
  | lost => exact ownNodes_mergeEffect huv hp g

/-- The nodes of `u` are all kept by a call of `v` exactly when it overwrites none. -/
theorem ownNodes_storeAs_iff (huv : u ≠ v) (g : NeoGraph E O) (c : StoreCall E O) :
    ownNodes u (storeAs v g c) = ownNodes u g ↔ ¬ Overwrites u g c := by
  have hfilter : ∀ (label key : Str) (value : Value E O) (outcome : Outcome),
      (if outcome = .failed then ownNodes u g else (ownNodes u g).filter fun n => !fits label key value n) =
          ownNodes u g ↔
        ¬ (outcome ≠ .failed ∧ ∃ n ∈ g.nodes, owned u n = true ∧ fits label key value n = true) := by
    intro label key value outcome
    by_cases ho : outcome = .failed
    · rw [if_pos ho]
      exact iff_of_true rfl fun h => h.1 ho
    · rw [if_neg ho, List.filter_eq_self]
      constructor
      · rintro h ⟨-, n, hn, hown, hf⟩
        have hno := h n (List.mem_filter.mpr ⟨hn, hown⟩)
        rw [hf] at hno
        cases hno
      · intro h n hn
        obtain ⟨hn, hown⟩ := List.mem_filter.mp hn
        rw [Bool.not_eq_true']
        by_contra hf
        exact h ⟨ho, n, hn, hown, by simpa using hf⟩
  cases c with
  | entity c =>
    have hp := get_user_id_withOwner (v := v) ((((Dict.empty.set (lit "name") (textProp c.name)).set (lit "entity_type")
      (textProp c.entityType)).set (lit "created_at") (textProp c.createdAt)).update c.properties) c.embedding
    exact (Eq.congr_left (ownNodes_mergeNode huv hp c.merge g)).trans (hfilter _ _ _ _)
  | chunk c =>
    have hp := get_user_id_withOwner (v := v) ((((Dict.empty.set (lit "chunk_id") (textProp c.chunkId)).set (lit "text")
      (textProp c.text)).set (lit "created_at") (textProp c.createdAt)).update c.properties) c.embedding
    exact (Eq.congr_left (ownNodes_mergeNode huv hp c.merge g)).trans (hfilter _ _ _ _)

/-! ## What a search sees -/

section Searches
variable {S : Type} [LinearOrder S] {score : E → E → S} {q : Query E S}

theorem passes_eq (threshold : S) (hit : Hit E O S) :
    passes threshold u.1 hit = (decide (threshold ≤ hit.2) && owned u hit.1) := by
  rw [passes, decide_eq_false u.2, Bool.false_or]
  rfl

omit [DecidableEq E] [DecidableEq O] [LinearOrder S] in
theorem fst_of_hitOf {label : Str} {query : E} {n : NeoNode E O} {hit : Hit E O S}
    (h : hitOf score label query n = some hit) : hit.1 = n := by
  unfold hitOf at h
  split at h
  · split at h
    · cases h
      rfl
    · cases h
  · cases h

/-- The hits that pass are the candidates. -/
theorem candidates_eq (score : E → E → S) (q : Query E S) (u : User) (g : NeoGraph E O) :
    q.candidates score u g = (indexed score q.index.label q.embedding g).filter (passes q.threshold u.1) := by
  unfold Query.candidates indexed ownNodes
  dsimp only
  induction g.nodes with
  | nil => rfl
  | cons n nodes ih =>
    cases hf : hitOf score q.index.label q.embedding n with
    | none =>
      rw [List.filterMap_cons_none hf, List.filter_cons]
      split
      · rw [List.filterMap_cons_none hf]
        exact ih
      · exact ih
    | some hit =>
      have hn := fst_of_hitOf hf
      rw [List.filterMap_cons_some hf, List.filter_cons, List.filter_cons, passes_eq, hn]
      cases hown : owned u n with
      | false =>
        rw [Bool.and_false, if_neg Bool.false_ne_true, if_neg Bool.false_ne_true]
        exact ih
      | true => rw [if_pos rfl, List.filterMap_cons_some hf, List.filter_cons, Bool.and_true, ih]

theorem vectorSearch_eq (score : E → E → S) (q : Query E S) (u : User) (g : NeoGraph E O) :
    vectorSearch score q.index.label q.embedding q.topK q.threshold u.1 g =
      (nearest Prod.snd q.topK (indexed score q.index.label q.embedding g)).filter (passes q.threshold u.1) := by
  apply List.Pairwise.insertionSort_eq
  exact ((pairwise_ranked _).sublist (List.take_sublist _ _)).sublist List.filter_sublist

/-- The answer is the best of `u`'s own exactly when the cut is not crowded. -/
theorem answer_eq_best_iff (score : E → E → S) (q : Query E S) (u : User) (g : NeoGraph E O) :
    q.answer score u g = q.best score u g ↔ q.Uncrowded score u g := by
  have hcand := candidates_eq score q u g
  have hsearch := vectorSearch_eq score q u g
  have hmapped : ∀ {R : Type} (f : Hit E O S → R),
      (vectorSearch score q.index.label q.embedding q.topK q.threshold u.1 g).map f =
          (nearest Prod.snd q.topK (q.candidates score u g)).map f ↔ q.Uncrowded score u g := by
    intro R f
    rw [hsearch, hcand]
    constructor
    · intro h
      have hlen := congrArg List.length h
      rw [List.length_map, List.length_map] at hlen
      exact notCrowded_of_length hlen
    · intro h
      rw [filter_nearest q.topK h]
  obtain ⟨index, embedding, topK, threshold⟩ := q
  cases index with
  | entities => exact (iff_of_eq (Answer.entities.injEq _ _)).trans (hmapped _)
  | documents => exact (iff_of_eq (Answer.documents.injEq _ _)).trans (hmapped _)

theorem best_congr {g g' : NeoGraph E O} (h : ownNodes u g' = ownNodes u g) :
    q.best score u g' = q.best score u g := by
  have hcand : q.candidates score u g' = q.candidates score u g := by
    unfold Query.candidates indexed
    rw [h]
  unfold Query.best
  rw [hcand]

/-- Exactly when a run of calls by `v` leaves `u` alone. -/
theorem tenant_isolation_iff (score : E → E → S) {u v : User} (huv : u ≠ v) (q : Query E S) (g : NeoGraph E O)
    (calls : List (StoreCall E O)) :
    (∀ pre post, calls = pre ++ post → Protected score q u g (run (storeAs v) g pre)) ↔
      Guarded (storeAs v) (fun g c => ¬ Overwrites u g c) g calls ∧
        ∀ pre post, calls = pre ++ post → q.Uncrowded score u (run (storeAs v) g pre) := by
  constructor
  · intro h
    refine ⟨guarded_iff.mpr ?_, fun pre post hsplit => (answer_eq_best_iff score q u _).mp (h pre post hsplit).best⟩
    intro pre c post hsplit
    apply (ownNodes_storeAs_iff huv _ c).mp
    have hbefore := (h pre (c :: post) hsplit).kept
    have hafter := (h (pre ++ [c]) post (by rw [hsplit, List.append_assoc]; rfl)).kept
    rw [run_append, run_cons, run_nil] at hafter
    rw [hafter, hbefore]
  · rintro ⟨hguard, hcut⟩ pre post hsplit
    have hpre : Guarded (storeAs v) (fun g c => ¬ Overwrites u g c) g pre := by
      rw [hsplit] at hguard
      exact (guarded_append.mp hguard).1
    have hkept : ownNodes u (run (storeAs v) g pre) = ownNodes u g :=
      guarded_invariant (fun s => ownNodes u s = ownNodes u g)
        (fun s c hc hs => ((ownNodes_storeAs_iff huv s c).mpr hc).trans hs) hpre rfl
    have hbest := (answer_eq_best_iff score q u _).mpr (hcut pre post hsplit)
    have hstart := (answer_eq_best_iff score q u g).mpr (hcut [] calls rfl)
    refine ⟨hkept, ?_, hbest⟩
    rw [hbest, hstart, best_congr hkept]

end Searches

end Isolation

/-! ## Alice and Bob -/

section Example

def alice : User := ⟨lit "alice", by decide⟩

def bob : User := ⟨lit "bob", by decide⟩

def closeness (a b : Nat) : Nat := 100 - (a - b) - (b - a)

def entityAt (name : Str) (embedding : Nat) : EntityCall Nat Empty :=
  ⟨name, lit "CITY", Dict.empty, some embedding, [], lit "2024-05-01T00:00:00", .served⟩

/-- Alice has stored Paris. -/
def alicesGraph : NeoGraph Nat Empty := storeAs alice .empty (.entity (entityAt (lit "Paris") 3))

def alicesQuery : Query Nat Nat := ⟨.entities, 3, 1, 70⟩

/-- Bob's Rome is another node, and further away from what Alice asks for. -/
theorem rome_of_bob_protects : alice ≠ bob ∧ ∀ pre post, [StoreCall.entity (entityAt (lit "Rome") 9)] = pre ++ post →
    Protected closeness alicesQuery alice alicesGraph (run (storeAs bob) alicesGraph pre) := by
  have hother : alice ≠ bob := by decide
  refine ⟨hother, (tenant_isolation_iff closeness hother alicesQuery alicesGraph _).mpr ⟨?_, ?_⟩⟩
  · refine ⟨?_, trivial⟩
    rintro ⟨-, n, hn, hown, hfit⟩
    revert n
    decide
  · intro pre post hsplit
    rcases pre with _ | ⟨c, pre⟩
    · right
      decide
    · obtain ⟨rfl, hrest⟩ := List.cons.inj hsplit
      obtain ⟨rfl, rfl⟩ := List.append_eq_nil_iff.mp hrest.symm
      right
      decide

/-- Bob's Paris is the same node, and no longer Alice's. -/
theorem paris_of_bob_overwrites :
    searchEntities closeness 3 1 70 alice.1 alicesGraph ≠ [] ∧
      searchEntities closeness 3 1 70 alice.1 (run (storeAs bob) alicesGraph [.entity (entityAt (lit "Paris") 8)]) = [] ∧
      ¬ Protected closeness alicesQuery alice alicesGraph
        (run (storeAs bob) alicesGraph [.entity (entityAt (lit "Paris") 8)]) := by
  have hgone : searchEntities closeness 3 1 70 alice.1
      (run (storeAs bob) alicesGraph [.entity (entityAt (lit "Paris") 8)]) = [] :=
    List.length_eq_zero_iff.mp (by decide)
  have hthere : searchEntities closeness 3 1 70 alice.1 alicesGraph ≠ [] :=
    List.ne_nil_of_length_pos (by decide)
  refine ⟨hthere, hgone, fun h => hthere ?_⟩
  have hsame : Answer.entities _ = Answer.entities _ := h.same
  injection hsame with hsame
  exact hsame.symm.trans hgone

end Example

end IsaCloud.Graph
