import IsaCloud.Support.PropertyGraph
import IsaCloud.Support.Python
import IsaCloud.Support.Retry
import Mathlib.Data.List.Perm.Basic

/-!
# One node for each row

`writeBatches` over statements that create: how many nodes there are afterwards
counts how often each batch was applied, and that decides whether the rows were
created once.
-/

/-! ## Bulk creation in FalkorDB

`bulk_create_nodes` sends one query for each batch of rows, and `query` sends a
query again after an error that looks like one of the connection. The server runs
a query as a whole or not at all; a query that fails may have been run.
-/

namespace IsaCloud.Graph

set_option autoImplicit false

open Support Support.Text Support.Python Support.PropertyGraph Support.Retry

/-- What the client leaves to Python and to the server. -/
class Falkor (V : Type) where
  lower : Str → Str
  isIdentifier : Str → Bool
  repr : Str → Str
  vecf32 : V → V

/-- A row has values and nulls. -/
abbrev Row (V : Type) := Dict Str (Option V)

abbrev FalkorGraph (V : Type) := PropertyGraph Str Str V

structure FalkorClient where
  retryAttempts : Nat := 3

/-- What happens around a call: whether the client connects, and to each attempt of each query. -/
structure Weather where
  connects : Bool
  attempts : Nat → Nat → Attempt Str

namespace FalkorClient
section Calls
variable {V : Type} [Falkor V]

def retriableHints : List Str :=
  [lit "connection", lit "timeout", lit "timed out", lit "reset by peer", lit "broken pipe", lit "loading dataset",
    lit "max number of clients"]

variable (V) in
/-- `_is_retriable` on the text of the exception. -/
def isRetriable (message : Str) : Bool := retriableHints.any fun hint => decide (hint <:+: Falkor.lower V message)

/-- `query` for a statement that returns no rows; `none` is its answer to an exception. -/
def query (c : FalkorClient) (attempts : Nat → Attempt Str) (statement : FalkorGraph V → FalkorGraph V)
    (g : FalkorGraph V) : FalkorGraph V × Option (List (Row V)) :=
  let result := attemptLoop (isRetriable V) statement c.retryAttempts attempts g
  (result.1, if result.2 then some [] else none)

/-- `SET n.vp = CASE WHEN row.vp IS NULL THEN n.vp ELSE vecf32(row.vp) END`. -/
def setVector (row : Row V) (properties : Dict Str V) (vp : Str) : Dict Str V :=
  match row.get vp with
  | some (some v) => properties.set vp (Falkor.vecf32 v)
  | _ => properties

/-- `SET n += row`, and then each vector property. -/
def written (vectorProps : List Str) (row : Row V) (n : Node Str Str V) : Node Str Str V :=
  { n with properties := vectorProps.foldl (setVector row) (n.setAll row).properties }

/-- `UNWIND $rows AS row CREATE (n:label) SET …`. -/
def createRows (label : Str) (vectorProps : List Str) (rows : List (Row V)) (g : FalkorGraph V) : FalkorGraph V :=
  rows.foldl (fun g row => g.create fun id => written vectorProps row ⟨id, [label], .empty⟩) g

/-- `UNWIND $rows AS row MERGE (n:label \{mergeOn: row.mergeOn}) SET …`; a null key is an error of the query. -/
def mergeRows [DecidableEq V] (label mergeOn : Str) (vectorProps : List Str) (rows : List (Row V))
    (g : FalkorGraph V) : FalkorGraph V :=
  rows.foldl (fun g row =>
    match row.get mergeOn with
    | some (some v) =>
      g.merge (fun n => decide (label ∈ n.labels) && decide (n.get mergeOn = some v))
        (fun id => written vectorProps row ⟨id, [label], Dict.empty.set mergeOn v⟩) (written vectorProps row)
    | _ => g) g

/-- `rows[start : start + batch_size]` for each start. -/
def batches (rows : List (Row V)) (batchSize : Nat) : List (List (Row V)) :=
  (List.range' 0 ((rows.length + batchSize - 1) / batchSize) batchSize).map fun start =>
    (rows.drop start).take batchSize

/-- The loop over the batches from number `i`; `total` rows are written. -/
def writeBatches (c : FalkorClient) (attempts : Nat → Nat → Attempt Str)
    (statement : List (Row V) → FalkorGraph V → FalkorGraph V) :
    Nat → List (List (Row V)) → Nat → FalkorGraph V → FalkorGraph V × Option Nat
  | _, [], total, g => (g, some total)
  | i, batch :: rest, total, g =>
    match c.query (attempts i) (statement batch) g with
    | (g', none) => (g', none)
    | (g', some _) => writeBatches c attempts statement (i + 1) rest (total + batch.length) g'

def invalid (what name : Str) : PyError := ⟨.valueError, lit "Invalid " ++ what ++ lit ": " ++ Falkor.repr V name⟩

/-- `bulk_create_nodes`; an empty `merge_on` is none. -/
def bulkCreateNodes [DecidableEq V] (c : FalkorClient) (label : Str) (rows : List (Row V)) (mergeOn : Str)
    (batchSize : Nat) (vectorProps : Option (List Str)) (weather : Weather) (g : FalkorGraph V) :
    FalkorGraph V × Except PyError (Option Nat) :=
  let vectorProps := vectorProps.getD [lit "embedding"]
  if rows = [] then (g, .ok (some 0))
  else if Falkor.isIdentifier V label = false then (g, .error (invalid (V := V) (lit "label") label))
  else if mergeOn ≠ [] ∧ Falkor.isIdentifier V mergeOn = false then
    (g, .error (invalid (V := V) (lit "merge_on property") mergeOn))
  else
    match vectorProps.find? fun vp => !Falkor.isIdentifier V vp with
    | some vp => (g, .error (invalid (V := V) (lit "vector_prop") vp))
    | none =>
      -- a connection that fails and a step of zero are exceptions inside the `try`
      if weather.connects = false ∨ batchSize = 0 then (g, .ok none)
      else
        let statement := if mergeOn ≠ [] then mergeRows label mergeOn vectorProps else createRows label vectorProps
        let result := c.writeBatches weather.attempts statement 0 (batches rows batchSize) 0 g
        (result.1, .ok result.2)

end Calls
end FalkorClient

namespace FalkorClient
variable {V : Type}

/-! ## The batches -/

theorem flatten_slices (rows : List (Row V)) (size count start : Nat) :
    ((List.range' start count size).map fun s => (rows.drop s).take size).flatten =
      (rows.drop start).take (count * size) := by
  induction count generalizing start with
  | zero => simp
  | succ count ih =>
    rw [List.range'_succ, List.map_cons, List.flatten_cons, ih, ← List.drop_drop, ← List.take_add]
    congr 1
    rw [Nat.succ_mul, Nat.add_comm]

theorem flatten_batches (rows : List (Row V)) {size : Nat} (h : 0 < size) : (batches rows size).flatten = rows := by
  rw [batches, flatten_slices, List.drop_zero]
  apply List.take_of_length_le
  have := Nat.div_add_mod (rows.length + size - 1) size
  have hmod := Nat.mod_lt (rows.length + size - 1) h
  rw [Nat.mul_comm]
  omega

theorem batches_nonempty {rows : List (Row V)} {size : Nat} (h : 0 < size) : ∀ b ∈ batches rows size, b ≠ [] := by
  intro b hb
  obtain ⟨start, hstart, rfl⟩ := List.mem_map.mp hb
  obtain ⟨i, hi, rfl⟩ := List.mem_range'.mp hstart
  have hlt : size * i < rows.length := by
    have hle : size * (i + 1) ≤ size * ((rows.length + size - 1) / size) := Nat.mul_le_mul_left size hi
    have := Nat.mul_div_le (rows.length + size - 1) size
    rw [Nat.mul_succ] at hle
    omega
  intro hnil
  have hlen := congrArg List.length hnil
  rw [List.length_take, List.length_drop, List.length_nil] at hlen
  omega

theorem batches_ne_nil {rows : List (Row V)} {size : Nat} (h : 0 < size) (hrows : rows ≠ []) :
    batches rows size ≠ [] := by
  intro hnil
  have := flatten_batches rows h
  rw [hnil] at this
  exact hrows this.symm

/-! ## What a statement creates -/

/-- What a node says, apart from its identity. -/
def content (n : Node Str Str V) : List Str × Dict Str V := (n.labels, n.properties)

def rowContent [Falkor V] (label : Str) (vectorProps : List Str) (row : Row V) : List Str × Dict Str V :=
  content (written vectorProps row ⟨0, [label], .empty⟩)

/-- The nodes added between two states, by content. -/
def Adds (g g' : FalkorGraph V) (added : List (List Str × Dict Str V)) : Prop :=
  ∃ created, g'.nodes = g.nodes ++ created ∧ created.map content = added

theorem adds_refl (g : FalkorGraph V) : Adds g g [] := ⟨[], (List.append_nil _).symm, rfl⟩

theorem Adds.trans {g g' g'' : FalkorGraph V} {xs ys : List (List Str × Dict Str V)} (h : Adds g g' xs)
    (h' : Adds g' g'' ys) : Adds g g'' (xs ++ ys) := by
  obtain ⟨cs, hcs, rfl⟩ := h
  obtain ⟨ds, hds, rfl⟩ := h'
  exact ⟨cs ++ ds, by rw [hds, hcs, List.append_assoc], List.map_append⟩

theorem Adds.length {g g' : FalkorGraph V} {xs : List (List Str × Dict Str V)} (h : Adds g g' xs) :
    g'.nodes.length = g.nodes.length + xs.length := by
  obtain ⟨cs, hcs, rfl⟩ := h
  rw [hcs, List.length_append, List.length_map]

variable [Falkor V]

theorem adds_createRows (label : Str) (vectorProps : List Str) (rows : List (Row V)) (g : FalkorGraph V) :
    Adds g (createRows label vectorProps rows g) (rows.map (rowContent label vectorProps)) := by
  induction rows generalizing g with
  | nil => exact adds_refl g
  | cons row rows ih =>
    have hone : Adds g (g.create fun id => written vectorProps row ⟨id, [label], .empty⟩)
        [rowContent label vectorProps row] := ⟨_, rfl, rfl⟩
    exact hone.trans (ih _)

theorem length_iterate (label : Str) (vectorProps : List Str) (rows : List (Row V)) (times : Nat)
    (g : FalkorGraph V) :
    ((createRows label vectorProps rows)^[times] g).nodes.length = g.nodes.length + times * rows.length := by
  induction times generalizing g with
  | zero => rw [Function.iterate_zero_apply, Nat.zero_mul, Nat.add_zero]
  | succ times ih =>
    rw [Function.iterate_succ_apply, ih, (adds_createRows label vectorProps rows g).length, List.length_map, Nat.succ_mul]
    omega

/-! ## One query, and all of them -/

section Loop
variable (c : FalkorClient) (attempts : Nat → Nat → Attempt Str)

/-- The query of batch `i` is answered. -/
def Answered (i : Nat) : Prop := Served (isRetriable V) c.retryAttempts (attempts i)

def Abandoned (i : Nat) : Prop := GivesUp (isRetriable V) c.retryAttempts (attempts i)

/-- An attempt for batch `i` was run though it failed. -/
def Lost (i : Nat) : Prop := LostReply (isRetriable V) c.retryAttempts (attempts i)

variable {c attempts} {label : Str} {vectorProps : List Str}

theorem query_once (batch : List (Row V)) (i : Nat) (g : FalkorGraph V) (h : Answered (V := V) c attempts i)
    (hl : ¬ Lost (V := V) c attempts i) :
    c.query (attempts i) (createRows label vectorProps batch) g = (createRows label vectorProps batch g, some []) := by
  obtain ⟨lost, hstate, hans, -, hlost⟩ := attemptLoop_ends (isRetriable V)
    (createRows label vectorProps batch) c.retryAttempts (attempts i) g
  have hne : c.retryAttempts ≠ 0 := by
    obtain ⟨j, hj, -⟩ := h
    exact fun hz => Nat.not_lt_zero j (hz ▸ hj.1)
  have hyes := hans.mpr (.inr h)
  rw [hlost.mpr hl, hyes, if_pos ⟨rfl, hne⟩] at hstate
  rw [query, hyes, hstate]
  rfl

variable (c attempts label vectorProps) in
/-- Either way the nodes count how often the batch was applied. -/
theorem query_cases (batch : List (Row V)) (i : Nat) (g : FalkorGraph V) :
    ∃ lost, (lost = 0 ↔ ¬ Lost (V := V) c attempts i) ∧
      ((c.query (attempts i) (createRows label vectorProps batch) g).2 = some [] ∧
          (c.retryAttempts = 0 ∨ Answered (V := V) c attempts i) ∧
          (c.query (attempts i) (createRows label vectorProps batch) g).1.nodes.length =
            g.nodes.length + (lost + if c.retryAttempts = 0 then 0 else 1) * batch.length ∨
        (c.query (attempts i) (createRows label vectorProps batch) g).2 = none ∧ Abandoned (V := V) c attempts i ∧
          (c.query (attempts i) (createRows label vectorProps batch) g).1.nodes.length =
            g.nodes.length + lost * batch.length) := by
  obtain ⟨lost, hstate, hans, href, hlost⟩ := attemptLoop_ends (isRetriable V)
    (createRows label vectorProps batch) c.retryAttempts (attempts i) g
  refine ⟨lost, hlost, ?_⟩
  rw [query]
  cases hres : (attemptLoop (isRetriable V) (createRows label vectorProps batch) c.retryAttempts (attempts i) g).2 with
  | true =>
    refine .inl ⟨rfl, hans.mp hres, ?_⟩
    rw [hstate, hres, length_iterate]
    by_cases hz : c.retryAttempts = 0
    · simp [hz]
    · simp [hz]
  | false =>
    refine .inr ⟨rfl, href.mp hres, ?_⟩
    rw [hstate, hres, length_iterate]
    simp

variable (label vectorProps) in
/-- Every batch answered and none applied in vain: one node for each row. -/
theorem writeBatches_once (bs : List (List (Row V))) (i total : Nat) (g : FalkorGraph V)
    (h : ∀ j < bs.length, Answered (V := V) c attempts (i + j) ∧ ¬ Lost (V := V) c attempts (i + j)) :
    (c.writeBatches attempts (createRows label vectorProps) i bs total g).2 = some (total + bs.flatten.length) ∧
      Adds g (c.writeBatches attempts (createRows label vectorProps) i bs total g).1
        (bs.flatten.map (rowContent label vectorProps)) := by
  induction bs generalizing i total g with
  | nil => exact ⟨rfl, adds_refl g⟩
  | cons batch rest ih =>
    have hhead := h 0 (Nat.succ_pos _)
    have htail : ∀ j < rest.length, Answered (V := V) c attempts (i + 1 + j) ∧ ¬ Lost (V := V) c attempts (i + 1 + j) := by
      intro j hj
      have := h (j + 1) (Nat.succ_lt_succ hj)
      rwa [Nat.add_comm j 1, ← Nat.add_assoc] at this
    obtain ⟨hn, hadds⟩ := ih (i + 1) (total + batch.length) (createRows label vectorProps batch g) htail
    rw [writeBatches, query_once batch i g hhead.1 hhead.2]
    refine ⟨?_, ?_⟩
    · rw [hn, List.flatten_cons, List.length_append, Nat.add_assoc]
    · rw [List.flatten_cons, List.map_append]
      exact (adds_createRows label vectorProps batch g).trans hadds

variable (c attempts label vectorProps) in
theorem writeBatches_grows (bs : List (List (Row V))) (i total : Nat) (g : FalkorGraph V) :
    g.nodes.length ≤ (c.writeBatches attempts (createRows label vectorProps) i bs total g).1.nodes.length := by
  induction bs generalizing i total g with
  | nil => exact Nat.le_refl _
  | cons batch rest ih =>
    obtain ⟨lost, -, hcase⟩ := query_cases c attempts label vectorProps batch i g
    rw [writeBatches]
    cases hq : c.query (attempts i) (createRows label vectorProps batch) g with
    | mk g' answer =>
      rw [hq] at hcase
      have hg' : g.nodes.length ≤ g'.nodes.length := by
        rcases hcase with ⟨-, -, hlen⟩ | ⟨-, -, hlen⟩
        · rw [hlen]
          exact Nat.le_add_right _ _
        · rw [hlen]
          exact Nat.le_add_right _ _
      cases answer with
      | none => exact hg'
      | some rows => exact Nat.le_trans hg' (ih _ _ g')

/-- A total returned: every query was answered, and no batch was applied in vain if there is one node for each row. -/
theorem writeBatches_some {bs : List (List (Row V))} {i total n : Nat} {g : FalkorGraph V}
    (hn : (c.writeBatches attempts (createRows label vectorProps) i bs total g).2 = some n)
    (hne : ∀ b ∈ bs, b ≠ []) (hretry : c.retryAttempts ≠ 0) :
    g.nodes.length + bs.flatten.length ≤
        (c.writeBatches attempts (createRows label vectorProps) i bs total g).1.nodes.length ∧
      (∀ j < bs.length, Answered (V := V) c attempts (i + j)) ∧
      ((c.writeBatches attempts (createRows label vectorProps) i bs total g).1.nodes.length =
          g.nodes.length + bs.flatten.length → ∀ j < bs.length, ¬ Lost (V := V) c attempts (i + j)) := by
  induction bs generalizing i total g with
  | nil => exact ⟨Nat.le_refl _, fun j hj => absurd hj (Nat.not_lt_zero j), fun _ j hj => absurd hj (Nat.not_lt_zero j)⟩
  | cons batch rest ih =>
    obtain ⟨lost, hlost, hcase⟩ := query_cases c attempts label vectorProps batch i g
    rw [writeBatches] at hn ⊢
    cases hq : c.query (attempts i) (createRows label vectorProps batch) g with
    | mk g' answer =>
      rw [hq] at hn hcase
      cases answer with
      | none => cases hn
      | some rows =>
        obtain ⟨-, hans, hlen⟩ | ⟨hnone, -⟩ := hcase
        swap
        · cases hnone
        rw [if_neg hretry, Nat.add_mul, Nat.one_mul] at hlen
        obtain ⟨hge, hall, heq⟩ := ih hn (List.forall_mem_cons.mp hne).2
        rw [List.flatten_cons, List.length_append]
        have hlen : g'.nodes.length = g.nodes.length + (lost * batch.length + batch.length) := hlen
        refine ⟨by dsimp only; omega, ?_, ?_⟩
        · intro j hj
          cases j with
          | zero => exact hans.resolve_left hretry
          | succ j =>
            have := hall j (Nat.lt_of_succ_lt_succ hj)
            rwa [Nat.add_assoc, Nat.add_comm 1 j] at this
        · intro htotal j hj
          dsimp only at htotal hge
          have hbatch : 0 < batch.length := List.length_pos_of_ne_nil (List.forall_mem_cons.mp hne).1
          cases j with
          | zero =>
            apply hlost.mp
            have hzero : lost * batch.length = 0 := by omega
            exact (Nat.mul_eq_zero.mp hzero).resolve_right (Nat.ne_of_gt hbatch)
          | succ j =>
            have := heq (by omega) j (Nat.lt_of_succ_lt_succ hj)
            rwa [Nat.add_assoc, Nat.add_comm 1 j] at this

/-- No total, and no node either: the first batch was abandoned without having been applied. -/
theorem writeBatches_none {batch : List (Row V)} {rest : List (List (Row V))} {i total : Nat} {g : FalkorGraph V}
    (hn : (c.writeBatches attempts (createRows label vectorProps) i (batch :: rest) total g).2 = none)
    (hbatch : batch ≠ []) (hretry : c.retryAttempts ≠ 0)
    (hlen : (c.writeBatches attempts (createRows label vectorProps) i (batch :: rest) total g).1.nodes.length =
      g.nodes.length) :
    Abandoned (V := V) c attempts i ∧ ¬ Lost (V := V) c attempts i := by
  obtain ⟨lost, hlost, hcase⟩ := query_cases c attempts label vectorProps batch i g
  have hpos : 0 < batch.length := List.length_pos_of_ne_nil hbatch
  rw [writeBatches] at hn hlen
  cases hq : c.query (attempts i) (createRows label vectorProps batch) g with
  | mk g' answer =>
    rw [hq] at hn hlen hcase
    cases answer with
    | some rows =>
      -- the batch was created, and nothing takes a node away
      obtain ⟨-, -, hg'⟩ | ⟨hnone, -⟩ := hcase
      · have hgrow := writeBatches_grows c attempts label vectorProps rest (i + 1) (total + batch.length) g'
        rw [if_neg hretry, Nat.add_mul, Nat.one_mul] at hg'
        dsimp only at hlen hg'
        omega
      · cases hnone
    | none =>
      obtain ⟨hsome, -⟩ | ⟨-, hab, hg'⟩ := hcase
      · cases hsome
      · refine ⟨hab, hlost.mp ?_⟩
        dsimp only at hlen hg'
        have hzero : lost * batch.length = 0 := by omega
        exact (Nat.mul_eq_zero.mp hzero).resolve_right (Nat.ne_of_gt hpos)

theorem query_abandoned (batch : List (Row V)) (i : Nat) (g : FalkorGraph V)
    (h : Abandoned (V := V) c attempts i) (hl : ¬ Lost (V := V) c attempts i) :
    c.query (attempts i) (createRows label vectorProps batch) g = (g, none) := by
  obtain ⟨lost, hstate, -, href, hlost⟩ := attemptLoop_ends (isRetriable V)
    (createRows label vectorProps batch) c.retryAttempts (attempts i) g
  have hno := href.mpr h
  rw [hlost.mpr hl, hno] at hstate
  rw [query, hno, hstate]
  rfl

variable (attempts label vectorProps) in
/-- No attempt is made, and every row is counted. -/
theorem writeBatches_zero (hz : c.retryAttempts = 0) (bs : List (List (Row V))) (i total : Nat) (g : FalkorGraph V) :
    (c.writeBatches attempts (createRows label vectorProps) i bs total g).1 = g ∧
      (c.writeBatches attempts (createRows label vectorProps) i bs total g).2 ≠ none := by
  induction bs generalizing i total with
  | nil => exact ⟨rfl, fun h => nomatch h⟩
  | cons batch rest ih =>
    have hq : c.query (attempts i) (createRows label vectorProps batch) g = (g, some []) := by
      rw [query, hz]
      rfl
    rw [writeBatches, hq]
    exact ih (i + 1) (total + batch.length)

end Loop

/-! ## The call -/

/-- A count returned is that of the rows, each created once; no count, no node. -/
structure ExactlyOnce (label : Str) (vectorProps : List Str) (rows : List (Row V)) (before : FalkorGraph V)
    (result : FalkorGraph V × Except PyError (Option Nat)) : Prop where
  counted : ∀ n, result.2 = .ok (some n) → n = rows.length ∧ ∃ created, result.1.nodes = before.nodes ++ created ∧
    (created.map content).Perm (rows.map (rowContent label vectorProps))
  untouched : result.2 = .ok none → result.1.nodes = before.nodes

/-- The call gets as far as its first query. -/
structure Sends (label : Str) (vectorProps : List Str) (rows : List (Row V)) (weather : Weather) : Prop where
  rows : rows ≠ []
  label : Falkor.isIdentifier V label = true
  vectorProps : ∀ vp ∈ vectorProps, Falkor.isIdentifier V vp = true
  connects : weather.connects = true

/-- Each query is answered and none was run in vain, or the first one is given up without having been run. -/
def DeliveredOnce (c : FalkorClient) (rows : List (Row V)) (batchSize : Nat) (weather : Weather) : Prop :=
  (∀ i < (batches rows batchSize).length,
      Answered (V := V) c weather.attempts i ∧ ¬ Lost (V := V) c weather.attempts i) ∨
    (Abandoned (V := V) c weather.attempts 0 ∧ ¬ Lost (V := V) c weather.attempts 0)

section Call
variable [DecidableEq V] {c : FalkorClient} {label : Str} {rows : List (Row V)} {batchSize : Nat}
  {vectorProps : Option (List Str)} {weather : Weather} {g : FalkorGraph V}

theorem bulkCreateNodes_sends (hb : 0 < batchSize)
    (h : Sends label (vectorProps.getD [lit "embedding"]) rows weather) :
    c.bulkCreateNodes label rows [] batchSize vectorProps weather g =
      ((c.writeBatches weather.attempts (createRows label (vectorProps.getD [lit "embedding"])) 0
          (batches rows batchSize) 0 g).1,
        .ok (c.writeBatches weather.attempts (createRows label (vectorProps.getD [lit "embedding"])) 0
          (batches rows batchSize) 0 g).2) := by
  have hfind : (vectorProps.getD [lit "embedding"]).find? (fun vp => !Falkor.isIdentifier V vp) = none := by
    apply List.find?_eq_none.mpr
    intro vp hvp
    rw [h.vectorProps vp hvp]
    decide
  have hgo : ¬ (weather.connects = false ∨ batchSize = 0) := by
    rintro (hc | hz)
    · rw [h.connects] at hc
      cases hc
    · omega
  have hlabel : ¬ Falkor.isIdentifier V label = false := by
    rw [h.label]
    decide
  rw [bulkCreateNodes, if_neg h.rows, if_neg hlabel, if_neg fun hm => hm.1 rfl]
  simp only [hfind]
  rw [if_neg hgo]
  rfl

/-- Nothing is sent: no count, or none to make. -/
theorem exactlyOnce_of_not_sends (h : ¬ Sends label (vectorProps.getD [lit "embedding"]) rows weather) :
    ExactlyOnce label (vectorProps.getD [lit "embedding"]) rows g
      (c.bulkCreateNodes label rows [] batchSize vectorProps weather g) := by
  have hempty : ∀ {r : Except PyError (Option Nat)}, (∀ n, r = .ok (some n) → n = 0 ∧ rows = []) →
      ExactlyOnce label (vectorProps.getD [lit "embedding"]) rows g (g, r) := by
    intro r hr
    refine ⟨fun n hn => ?_, fun _ => rfl⟩
    obtain ⟨rfl, hrows⟩ := hr n hn
    rw [hrows]
    exact ⟨rfl, [], (List.append_nil _).symm, List.Perm.nil⟩
  have herror : ∀ {e : PyError}, ExactlyOnce label (vectorProps.getD [lit "embedding"]) rows g (g, .error e) :=
    hempty fun n hn => nomatch hn
  rw [bulkCreateNodes]
  by_cases hrows : rows = []
  · rw [if_pos hrows]
    exact hempty fun n hn => by
      cases hn
      exact ⟨rfl, hrows⟩
  rw [if_neg hrows]
  by_cases hlabel : Falkor.isIdentifier V label = false
  · rw [if_pos hlabel]
    exact herror
  rw [if_neg hlabel, if_neg fun hm => hm.1 rfl]
  cases hfind : (vectorProps.getD [lit "embedding"]).find? fun vp => !Falkor.isIdentifier V vp with
  | some vp => exact herror
  | none =>
    by_cases hgo : weather.connects = false ∨ batchSize = 0
    · rw [if_pos hgo]
      exact hempty fun n hn => nomatch hn
    · refine absurd ⟨hrows, by simpa using hlabel, ?_, by simpa using (not_or.mp hgo).1⟩ h
      intro vp hvp
      simpa using List.find?_eq_none.mp hfind vp hvp

/-- When a bulk creation is exactly-once. -/
theorem bulkCreate_exactlyOnce_iff (c : FalkorClient) (label : Str) (rows : List (Row V)) {batchSize : Nat}
    (hb : 0 < batchSize) (vectorProps : Option (List Str)) (weather : Weather) (g : FalkorGraph V) :
    ExactlyOnce label (vectorProps.getD [lit "embedding"]) rows g
        (c.bulkCreateNodes label rows [] batchSize vectorProps weather g) ↔
      (Sends label (vectorProps.getD [lit "embedding"]) rows weather → DeliveredOnce c rows batchSize weather) := by
  by_cases hs : Sends label (vectorProps.getD [lit "embedding"]) rows weather
  swap
  · exact iff_of_true (exactlyOnce_of_not_sends hs) fun h => absurd h hs
  rw [bulkCreateNodes_sends hb hs, imp_iff_right hs]
  set vps := vectorProps.getD [lit "embedding"] with hvps
  have hne : ∀ b ∈ batches rows batchSize, b ≠ [] := batches_nonempty hb
  have hflat := flatten_batches rows hb
  constructor
  · intro h
    have hretry : c.retryAttempts ≠ 0 := by
      intro hz
      obtain ⟨hsame, hsome⟩ := writeBatches_zero weather.attempts label vps hz (batches rows batchSize) 0 0 g
      obtain ⟨n, hn⟩ := Option.ne_none_iff_exists'.mp hsome
      obtain ⟨-, created, hnodes, hperm⟩ := h.counted n (congrArg Except.ok hn)
      have hlen := congrArg List.length hnodes
      have hplen := hperm.length_eq
      rw [List.length_map, List.length_map] at hplen
      rw [List.length_append] at hlen
      have hpos := List.length_pos_of_ne_nil hs.rows
      dsimp only at hlen
      rw [hsame] at hlen
      omega
    cases hres : (c.writeBatches weather.attempts (createRows label vps) 0 (batches rows batchSize) 0 g).2 with
    | some n =>
      left
      obtain ⟨-, created, hnodes, hperm⟩ := h.counted n (congrArg Except.ok hres)
      obtain ⟨-, hall, hlost⟩ := writeBatches_some hres hne hretry
      have hlen := congrArg List.length hnodes
      have hplen := hperm.length_eq
      rw [List.length_map, List.length_map] at hplen
      rw [List.length_append, hplen] at hlen
      rw [hflat] at hlost
      have hno := hlost hlen
      intro i hi
      have ha := hall i hi
      have hl := hno i hi
      rw [Nat.zero_add] at ha hl
      exact ⟨ha, hl⟩
    | none =>
      right
      obtain ⟨batch, rest, hbs⟩ := List.exists_cons_of_ne_nil (batches_ne_nil hb hs.rows)
      have hsame := h.untouched (congrArg Except.ok hres)
      dsimp only at hsame
      rw [hbs] at hres hsame hne
      exact writeBatches_none hres (List.forall_mem_cons.mp hne).1 hretry (congrArg List.length hsame)
  · rintro (hall | ⟨hab, hl⟩)
    · obtain ⟨hn, created, hnodes, hcontent⟩ := writeBatches_once label vps
        (batches rows batchSize) 0 0 g fun j hj => by
          rw [Nat.zero_add]
          exact hall j hj
      rw [hflat] at hn hcontent
      refine ⟨fun n hr => ?_, fun hr => ?_⟩
      · dsimp only at hr
        rw [hn, Nat.zero_add] at hr
        cases hr
        exact ⟨rfl, created, hnodes, hcontent ▸ List.Perm.refl _⟩
      · dsimp only at hr
        rw [hn] at hr
        cases hr
    · obtain ⟨batch, rest, hbs⟩ := List.exists_cons_of_ne_nil (batches_ne_nil hb hs.rows)
      have hnone : c.writeBatches weather.attempts (createRows label vps) 0 (batches rows batchSize) 0 g = (g, none) := by
        rw [hbs, writeBatches, query_abandoned batch 0 g hab hl]
      rw [hnone]
      exact ⟨(fun n hn => nomatch hn), fun _ => rfl⟩

end Call

/-! ## A reply lost -/

section Example

@[reducible] def plainFalkor : Falkor Int where
  lower := lower
  isIdentifier name := decide (name ≠ [])
  repr name := name
  vecf32 v := v

attribute [local instance] plainFalkor

def skillRow (n : Int) : Row Int := Dict.empty.set (lit "id") (some n)

theorem two_batches_delivered :
    ExactlyOnce (lit "Skill") [lit "embedding"] [skillRow 1, skillRow 2]
      PropertyGraph.empty
      (bulkCreateNodes {} (lit "Skill") [skillRow 1, skillRow 2] [] 1 none ⟨true, fun _ _ => .served⟩ PropertyGraph.empty) := by
  refine (bulkCreate_exactlyOnce_iff {} (lit "Skill") [skillRow 1, skillRow 2] (Nat.succ_pos 0) none _ _).mpr ?_
  intro _
  left
  intro i _
  refine ⟨⟨0, made_zero, rfl⟩, ?_⟩
  rintro ⟨j, error, -, hf⟩
  cases hf

/-- The first attempt times out after the server has run it. -/
def timeoutAfterRun : Weather where
  connects := true
  attempts _ j := if j = 0 then .failed (lit "Timeout reading from socket") true else .served

/-- One row, two nodes, and a count of one. -/
theorem row_created_twice : ¬ ∀ (c : FalkorClient) (label : Str) (rows : List (Row Int)) (batchSize : Nat)
    (weather : Weather) (g : FalkorGraph Int), 0 < batchSize →
    ExactlyOnce label [lit "embedding"] rows g (c.bulkCreateNodes label rows [] batchSize none weather g) := by
  intro h
  have honce := h {} (lit "Skill") [skillRow 1] 500 timeoutAfterRun PropertyGraph.empty (by decide)
  obtain ⟨-, created, hnodes, hperm⟩ := honce.counted 1 (by decide)
  have hlen := congrArg List.length hnodes
  have hplen := hperm.length_eq
  rw [List.length_map, List.length_map] at hplen
  rw [List.length_append, hplen] at hlen
  exact absurd hlen (by decide)

end Example

end FalkorClient

end IsaCloud.Graph
