import IsaCloud.Support.Dict
import IsaCloud.Support.Text
import Mathlib.Data.Rat.Defs
import Mathlib.Algebra.Order.Ring.Rat

/-!
# One filter, two vector stores

Callers write one dictionary of `must`, `should` and `must_not` conditions. The
Qdrant client makes a `Filter` of it, the Chroma client a `where` clause. A field
name is one that both stores take for an entry of the payload; a bound is any
finite number.
-/

namespace IsaCloud.Vector

set_option autoImplicit false

open Support Support.Text

inductive Value where
  | str (s : Str)
  | int (n : Int)
  | bool (b : Bool)
  deriving DecidableEq

/-- The entries of a `match` dictionary that the clients look at. -/
structure Match where
  keyword : Option Value := none
  integer : Option Value := none
  boolean : Option Value := none
  value : Option Value := none

structure Range where
  gt : Option ℚ := none
  gte : Option ℚ := none
  lt : Option ℚ := none
  lte : Option ℚ := none

inductive Test where
  | matching (m : Match)
  | range (r : Range)

structure Condition (Field : Type) where
  field : Field
  test : Test

/-- A missing list is an empty one to both clients. -/
structure FilterConditions (Field : Type) where
  must : List (Condition Field) := []
  should : List (Condition Field) := []
  mustNot : List (Condition Field) := []

abbrev Payload (Field : Type) := Dict Field Value

/-! ## The `where` clause of Chroma -/

inductive Operator where
  | eq (v : Value)
  | gt (b : ℚ)
  | gte (b : ℚ)
  | lt (b : ℚ)
  | lte (b : ℚ)

/-- `{field: {operator: operand, …}}`. -/
structure Expression (Field : Type) where
  field : Field
  operators : List Operator

inductive Where (Field : Type) where
  | one (e : Expression Field)
  | and (es : List (Expression Field))

section Chroma
variable {Field : Type}

def Range.operators (r : Range) : List Operator :=
  (r.gt.map .gt).toList ++ (r.gte.map .gte).toList ++ (r.lt.map .lt).toList ++ (r.lte.map .lte).toList

def buildSingleCondition (c : Condition Field) : Option (Expression Field) :=
  match c.test with
  | .matching m =>
    match m.keyword, m.integer, m.boolean, m.value with
    | some v, _, _, _ => some ⟨c.field, [.eq v]⟩
    | none, some v, _, _ => some ⟨c.field, [.eq v]⟩
    | none, none, some v, _ => some ⟨c.field, [.eq v]⟩
    | none, none, none, some v => some ⟨c.field, [.eq v]⟩
    | none, none, none, none => none
  | .range r => if r.operators ≠ [] then some ⟨c.field, r.operators⟩ else none

def buildWhereClause (fc : FilterConditions Field) : Option (Where Field) :=
  match fc.must.filterMap buildSingleCondition with
  | [] => none
  | [clause] => some (.one clause)
  | clauses => some (.and clauses)

/-- A comparison with a bound; only integers compare. -/
def compares (test : ℚ → Bool) : Option Value → Bool
  | some (.int n) => test n
  | _ => false

def Operator.holds : Operator → Option Value → Bool
  | .eq v, found => decide (found = some v)
  | .gt b, found => compares (fun x => decide (b < x)) found
  | .gte b, found => compares (fun x => decide (b ≤ x)) found
  | .lt b, found => compares (fun x => decide (x < b)) found
  | .lte b, found => compares (fun x => decide (x ≤ b)) found

variable [DecidableEq Field]

/-- Chroma refuses an operator expression that has not exactly one operator. -/
def Expression.accepts (e : Expression Field) (p : Payload Field) : Option Bool :=
  match e.operators with
  | [op] => some (op.holds (p.get e.field))
  | _ => none

def allAccept (p : Payload Field) : List (Expression Field) → Option Bool
  | [] => some true
  | e :: es =>
    match e.accepts p, allAccept p es with
    | some a, some b => some (a && b)
    | _, _ => none

def Where.accepts (p : Payload Field) : Where Field → Option Bool
  | .one e => e.accepts p
  | .and es => allAccept p es

/-- What a query with the clause answers for a payload; no clause accepts it. -/
def chromaAccepts (clause : Option (Where Field)) (p : Payload Field) : Option Bool :=
  match clause with
  | none => some true
  | some w => w.accepts p

end Chroma

/-! ## The `Filter` of Qdrant -/

inductive FieldTest where
  | matchValue (v : Value)
  | range (r : Range)

structure FieldCondition (Field : Type) where
  key : Field
  test : FieldTest

structure Filter (Field : Type) where
  must : Option (List (FieldCondition Field))
  should : Option (List (FieldCondition Field))
  mustNot : Option (List (FieldCondition Field))

section Qdrant
variable {Field : Type}

def buildFilterCondition (c : Condition Field) : FieldCondition Field :=
  match c.test with
  | .matching m =>
    match m.keyword, m.integer, m.boolean with
    | some v, _, _ => ⟨c.field, .matchValue v⟩
    | none, some v, _ => ⟨c.field, .matchValue v⟩
    | none, none, some v => ⟨c.field, .matchValue v⟩
    | none, none, none => ⟨c.field, .matchValue (.bool true)⟩
  | .range r => ⟨c.field, .range r⟩

/-- `must if must else None`. -/
def listed (conditions : List (Condition Field)) : Option (List (FieldCondition Field)) :=
  if conditions = [] then none else some (conditions.map buildFilterCondition)

def buildFilter (fc : FilterConditions Field) : Filter Field := ⟨listed fc.must, listed fc.should, listed fc.mustNot⟩

/-- Every bound that is there. -/
def Range.within (r : Range) (x : ℚ) : Bool :=
  r.gt.all (fun b => decide (b < x)) && r.gte.all (fun b => decide (b ≤ x)) && r.lt.all (fun b => decide (x < b)) &&
    r.lte.all (fun b => decide (x ≤ b))

variable [DecidableEq Field]

def FieldCondition.holds (c : FieldCondition Field) (p : Payload Field) : Bool :=
  match c.test with
  | .matchValue v => decide (p.get c.key = some v)
  | .range r => compares r.within (p.get c.key)

/-- All of `must`, one of `should` if there are any, none of `must_not`. -/
def Filter.accepts (f : Filter Field) (p : Payload Field) : Bool :=
  f.must.all (fun cs => cs.all fun c => c.holds p) && f.should.all (fun cs => cs.any fun c => c.holds p) &&
    f.mustNot.all (fun cs => cs.all fun c => !c.holds p)

/-- The two translations accept the same payloads. -/
def Agrees (fc : FilterConditions Field) : Prop :=
  ∀ p : Payload Field, chromaAccepts (buildWhereClause fc) p = some ((buildFilter fc).accepts p)

end Qdrant

/-! ## Kinds of conditions -/

inductive Kind where
  /-- `match` with a keyword, an integer or a boolean. -/
  | typedMatch
  /-- `match` with a bare `value`. -/
  | valueTrue
  | valueMatch
  | emptyMatch
  | oneBound
  | noBound
  | manyBounds
  | should
  | mustNot
  deriving DecidableEq

/-- The kinds both clients translate alike. -/
def Kind.faithful : Kind → Bool
  | typedMatch => true
  | valueTrue => true
  | oneBound => true
  | _ => false

def Match.kind (m : Match) : Kind :=
  if m.keyword.isSome ∨ m.integer.isSome ∨ m.boolean.isSome then .typedMatch
  else
    match m.value with
    | some v => if v = .bool true then .valueTrue else .valueMatch
    | none => .emptyMatch

def Range.kind (r : Range) : Kind :=
  match r.operators with
  | [] => .noBound
  | [_] => .oneBound
  | _ => .manyBounds

def Test.kind : Test → Kind
  | .matching m => m.kind
  | .range r => r.kind

section Kinds
variable {Field : Type}

def FilterConditions.kinds (fc : FilterConditions Field) : List Kind :=
  fc.must.map (fun c => c.test.kind) ++ fc.should.map (fun _ => .should) ++ fc.mustNot.map (fun _ => .mustNot)

/-- One bound alone is the whole range. -/
theorem holds_of_single {r : Range} {op : Operator} (h : r.operators = [op]) (found : Option Value) :
    op.holds found = compares r.within found := by
  obtain ⟨gt, gte, lt, lte⟩ := r
  have hwithin : ∀ x : ℚ, Range.within ⟨gt, gte, lt, lte⟩ x = (gt.all (fun b => decide (b < x)) &&
      gte.all (fun b => decide (b ≤ x)) && lt.all (fun b => decide (x < b)) && lte.all (fun b => decide (x ≤ b))) :=
    fun _ => rfl
  cases gt <;> cases gte <;> cases lt <;> cases lte <;> simp [Range.operators] at h
  all_goals
    subst h
    simp only [Operator.holds, compares, hwithin, Option.all_none, Option.all_some, Bool.true_and, Bool.and_true]

variable [DecidableEq Field]

/-- A condition of a faithful kind becomes one expression with the meaning that Qdrant gives it. -/
theorem buildSingleCondition_faithful {c : Condition Field} (h : c.test.kind.faithful = true) :
    ∃ e, buildSingleCondition c = some e ∧ ∀ p : Payload Field, e.accepts p = some ((buildFilterCondition c).holds p) := by
  obtain ⟨field, test⟩ := c
  cases test with
  | matching m =>
    obtain ⟨keyword, integer, boolean, value⟩ := m
    cases keyword with
    | some v => exact ⟨_, rfl, fun p => rfl⟩
    | none =>
      cases integer with
      | some v => exact ⟨_, rfl, fun p => rfl⟩
      | none =>
        cases boolean with
        | some v => exact ⟨_, rfl, fun p => rfl⟩
        | none =>
          cases value with
          | none => cases h
          | some v =>
            by_cases hv : v = .bool true
            · subst hv
              exact ⟨_, rfl, fun p => rfl⟩
            · have hkind : (Test.matching ⟨none, none, none, some v⟩).kind = .valueMatch := if_neg hv
              rw [hkind] at h
              cases h
  | range r =>
    cases hops : r.operators with
    | nil =>
      have hkind : (Test.range r).kind = .noBound := by rw [Test.kind, Range.kind, hops]
      rw [hkind] at h
      cases h
    | cons op ops =>
      cases ops with
      | cons op' ops =>
        have hkind : (Test.range r).kind = .manyBounds := by rw [Test.kind, Range.kind, hops]
        rw [hkind] at h
        cases h
      | nil =>
        refine ⟨⟨field, [op]⟩, ?_, ?_⟩
        · simp only [buildSingleCondition, hops]
          rfl
        · intro p
          exact congrArg some (holds_of_single hops (p.get field))

theorem chromaAccepts_faithful {fc : FilterConditions Field} (h : ∀ c ∈ fc.must, c.test.kind.faithful = true)
    (p : Payload Field) :
    chromaAccepts (buildWhereClause fc) p = some (fc.must.all fun c => (buildFilterCondition c).holds p) := by
  have hall : ∀ cs : List (Condition Field), (∀ c ∈ cs, c.test.kind.faithful = true) →
      allAccept p (cs.filterMap buildSingleCondition) = some (cs.all fun c => (buildFilterCondition c).holds p) := by
    intro cs
    induction cs with
    | nil => exact fun _ => rfl
    | cons c cs ih =>
      intro hcs
      obtain ⟨hc, hcs⟩ := List.forall_mem_cons.mp hcs
      obtain ⟨e, he, hacc⟩ := buildSingleCondition_faithful hc
      rw [List.filterMap_cons_some he, allAccept, hacc p, ih hcs, List.all_cons]
  have hmust := hall fc.must h
  unfold buildWhereClause
  cases hcs : fc.must.filterMap buildSingleCondition with
  | nil => rwa [hcs] at hmust
  | cons e es =>
    rw [hcs] at hmust
    cases es with
    | nil =>
      rw [allAccept, allAccept] at hmust
      change e.accepts p = _
      cases he : e.accepts p with
      | none =>
        rw [he] at hmust
        cases hmust
      | some a =>
        rw [he] at hmust
        simpa using hmust
    | cons e' es => exact hmust

theorem listed_all (cs : List (Condition Field)) (p : Payload Field) :
    (listed cs).all (fun fs => fs.all fun c => c.holds p) = cs.all fun c => (buildFilterCondition c).holds p := by
  unfold listed
  split
  · rename_i hnil
    rw [hnil]
    rfl
  · rw [Option.all_some, List.all_map]
    rfl

/-- A filter of faithful conditions means the same to both stores. -/
theorem agrees_of_faithful {fc : FilterConditions Field} (h : ∀ k ∈ fc.kinds, k.faithful = true) : Agrees fc := by
  have hmust : ∀ c ∈ fc.must, c.test.kind.faithful = true := fun c hc =>
    h _ (List.mem_append_left _ (List.mem_append_left _ (List.mem_map_of_mem hc)))
  have hshould : fc.should = [] := by
    cases hs : fc.should with
    | nil => rfl
    | cons c cs =>
      have := h .should (List.mem_append_left _ (List.mem_append_right _ (List.mem_map.mpr ⟨c, by simp [hs], rfl⟩)))
      cases this
  have hnot : fc.mustNot = [] := by
    cases hs : fc.mustNot with
    | nil => rfl
    | cons c cs =>
      have := h .mustNot (List.mem_append_right _ (List.mem_map.mpr ⟨c, by simp [hs], rfl⟩))
      cases this
  intro p
  rw [chromaAccepts_faithful hmust]
  unfold Filter.accepts buildFilter
  rw [listed_all, hshould, hnot]
  simp [listed]

/-! ## Where the two part -/

/-- A filter of one condition of the kind, and a payload that shows the difference. -/
def parting (field : Field) : Kind → FilterConditions Field × Payload Field
  | .valueMatch => ({ must := [⟨field, .matching { value := some (.str (lit "a")) }⟩] },
      Dict.empty.set field (.str (lit "a")))
  | .emptyMatch => ({ must := [⟨field, .matching {}⟩] }, Dict.empty)
  | .noBound => ({ must := [⟨field, .range {}⟩] }, Dict.empty)
  | .manyBounds => ({ must := [⟨field, .range { gte := some 0, lt := some 1 }⟩] }, Dict.empty)
  | .should => ({ should := [⟨field, .matching { keyword := some (.str (lit "a")) }⟩] }, Dict.empty)
  | .mustNot => ({ mustNot := [⟨field, .matching { keyword := some (.str (lit "a")) }⟩] },
      Dict.empty.set field (.str (lit "a")))
  | _ => ({}, Dict.empty)

theorem parting_differs (field : Field) {k : Kind} (h : k.faithful = false) :
    (∀ k' ∈ (parting field k).1.kinds, k' = k) ∧ ¬ Agrees (parting field k).1 := by
  have hdiffer : ∀ {fc : FilterConditions Field} {p : Payload Field},
      chromaAccepts (buildWhereClause fc) p ≠ some ((buildFilter fc).accepts p) → ¬ Agrees fc := fun hne ha => hne (ha _)
  have hkind : ∀ k' ∈ (parting field k).1.kinds, k' = k := by
    cases k <;> simp_all [parting, FilterConditions.kinds, Test.kind, Match.kind, Range.kind, Range.operators, Kind.faithful]
  refine ⟨hkind, hdiffer (p := (parting field k).2) ?_⟩
  cases k with
  | typedMatch => cases h
  | valueTrue => cases h
  | oneBound => cases h
  | valueMatch =>
    simp [parting, buildWhereClause, buildSingleCondition, chromaAccepts, Where.accepts, Expression.accepts,
      Operator.holds, buildFilter, listed, buildFilterCondition, Filter.accepts, FieldCondition.holds]
  | emptyMatch =>
    have hclause : buildWhereClause (parting field .emptyMatch).1 = none := rfl
    rw [hclause, chromaAccepts]
    simp [parting, buildFilter, listed, buildFilterCondition, Filter.accepts, FieldCondition.holds]
  | noBound =>
    simp [parting, buildWhereClause, buildSingleCondition, Range.operators, chromaAccepts, buildFilter, listed,
      buildFilterCondition, Filter.accepts, FieldCondition.holds, compares]
  | manyBounds =>
    simp [parting, buildWhereClause, buildSingleCondition, Range.operators, chromaAccepts, Where.accepts,
      Expression.accepts]
  | should =>
    simp [parting, buildWhereClause, chromaAccepts, buildFilter, listed, buildFilterCondition, Filter.accepts,
      FieldCondition.holds]
  | mustNot =>
    simp [parting, buildWhereClause, chromaAccepts, buildFilter, listed, buildFilterCondition, Filter.accepts,
      FieldCondition.holds]

/-- The translations agree on all filters of some kinds of conditions exactly when each of the kinds is faithful. -/
theorem filters_agree_iff [Inhabited Field] (allowed : Kind → Prop) :
    (∀ fc : FilterConditions Field, (∀ k ∈ fc.kinds, allowed k) → Agrees fc) ↔ ∀ k, allowed k → k.faithful = true := by
  constructor
  · intro h k hk
    by_contra hno
    obtain ⟨hkinds, hdiffer⟩ := parting_differs (default : Field) (Bool.eq_false_iff.mpr hno)
    exact hdiffer (h _ fun k' hk' => (hkinds k' hk') ▸ hk)
  · intro h fc hfc
    exact agrees_of_faithful fun k hk => h k (hfc k hk)

end Kinds

/-- A tenant kept out by `must_not` alone is let in by the other store. -/
theorem dropped_clause_widens : ¬ ∀ fc : FilterConditions Str, Agrees fc := by
  intro h
  have heq := h { mustNot := [⟨lit "tenant", .matching { keyword := some (.str (lit "b")) }⟩] }
    (Dict.empty.set (lit "tenant") (.str (lit "b")))
  exact absurd heq (by decide)

end IsaCloud.Vector
