import IsaCloud.Support.JsonErrors
import IsaCloud.Vector.Filters
import IsaCloud.Vector.Payloads

/-!
# Scrolling through a collection

`scroll` of the Chroma client asks for one page and takes a full page for a sign
that there is another one. The collection does not change, Chroma lists it in a
fixed order, and which records a `where` clause selects is its own matter.
-/

namespace IsaCloud.Vector

set_option autoImplicit false

open Support Support.Text Support.Python Support.Json Database

/-- A record that was added without metadata has none. -/
structure ChromaRecord (F V : Type) where
  id : Str
  metadata : Option (JsonPayload F)
  embedding : V

/-- Chroma may refuse a clause. -/
structure Collection (F V : Type) where
  records : List (ChromaRecord F V)
  select : Option (Where Str) → Except PyError (ChromaRecord F V → Bool)

/-- The lists that `collection.get` returns, the embeddings only if they are asked for. -/
structure GetResult (F V : Type) where
  ids : List Str
  metadatas : List (Option (JsonPayload F))
  embeddings : List V

structure PointData (F V : Type) where
  id : Str
  payload : Option (JsonPayload F)
  vector : Option V

structure ScrollPage (F V : Type) where
  points : List (PointData F V)
  nextOffset : Option Nat

section Records
variable {F V : Type}

def resultOf (withVectors : Bool) (records : List (ChromaRecord F V)) : GetResult F V where
  ids := records.map (·.id)
  metadatas := records.map (·.metadata)
  embeddings := if withVectors then records.map (·.embedding) else []

def Collection.get (c : Collection F V) (whereClause : Option (Where Str)) (limit offset : Nat) (withVectors : Bool) :
    Except PyError (GetResult F V) :=
  (c.select whereClause).map fun selects => resultOf withVectors (((c.records.filter selects).drop offset).take limit)

end Records

/-! ## One page -/

section Scroll
variable {F V : Type} [PyFloat F] (nesting : Nat) (withPayload withVectors : Bool)

def noItems : PyError := ⟨.attributeError, lit "'NoneType' object has no attribute 'items'"⟩

def unflattenMetadata : Option (JsonPayload F) → Except PyError (JsonPayload F)
  | some metadata => unflattenPayload nesting metadata
  | none => .error noItems

/-- `payload` of the `i`th point. -/
def pointPayload (r : GetResult F V) (i : Nat) : Except PyError (Option (JsonPayload F)) :=
  if withPayload then
    match r.metadatas[i]? with
    | some metadata => (unflattenMetadata nesting metadata).map some
    | none => .ok none
  else .ok none

def pointVector (r : GetResult F V) (i : Nat) : Option V := if withVectors then r.embeddings[i]? else none

/-- The loop over the ids, from the `i`th on. -/
def pointsFrom (r : GetResult F V) (i : Nat) : List Str → Except PyError (List (PointData F V))
  | [] => .ok []
  | id :: ids =>
    match pointPayload nesting withPayload r i with
    | .error e => .error e
    | .ok payload => (pointsFrom r (i + 1) ids).map (⟨id, payload, pointVector withVectors r i⟩ :: ·)

def whereOf (filterConditions : Option (FilterConditions Str)) : Option (Where Str) :=
  filterConditions.bind buildWhereClause

/-- `int(offset_id) if offset_id else 0`. -/
def offsetOf (offsetId : Option Nat) : Nat := offsetId.getD 0

/-- `scroll`; every exception becomes `None`. -/
def scroll (c : Collection F V) (filterConditions : Option (FilterConditions Str)) (limit : Nat)
    (offsetId : Option Nat) : Option (ScrollPage F V) :=
  match c.get (whereOf filterConditions) limit (offsetOf offsetId) withVectors with
  | .error _ => none
  | .ok r =>
    match pointsFrom nesting withPayload withVectors r 0 r.ids with
    | .error _ => none
    | .ok points => some ⟨points, if points.length = limit then some (offsetOf offsetId + limit) else none⟩

/-! ## Page after page -/

inductive Scrolled (F V : Type) where
  | finished (points : List (PointData F V))
  | failed
  | unfinished

def Scrolled.after (points : List (PointData F V)) : Scrolled F V → Scrolled F V
  | .finished later => .finished (points ++ later)
  | s => s

/-- Calls `scroll` with the offset it returned last until it returns none, at most `calls` times. -/
def scrollFrom (c : Collection F V) (filterConditions : Option (FilterConditions Str)) (limit : Nat) :
    Nat → Option Nat → Scrolled F V
  | 0, _ => .unfinished
  | calls + 1, offsetId =>
    match scroll nesting withPayload withVectors c filterConditions limit offsetId with
    | none => .failed
    | some page =>
      match page.nextOffset with
      | none => .finished page.points
      | some next => (scrollFrom c filterConditions limit calls (some next)).after page.points

/-- What a record should be returned as. -/
structure IsPoint (r : ChromaRecord F V) (p : PointData F V) : Prop where
  id : p.id = r.id
  payload : if withPayload then ∃ m payload, r.metadata = some m ∧ unflattenPayload nesting m = .ok payload ∧
    p.payload = some payload else p.payload = none
  vector : p.vector = if withVectors then some r.embedding else none

/-- Calling on ends, and has returned each record that Chroma selects once, in order. -/
def ScrollsThrough (c : Collection F V) (filterConditions : Option (FilterConditions Str)) (limit : Nat) : Prop :=
  ∃ selects points enough, c.select (whereOf filterConditions) = .ok selects ∧
    List.Forall₂ (IsPoint nesting withPayload withVectors) (c.records.filter selects) points ∧
    ∀ calls, enough ≤ calls →
      scrollFrom nesting withPayload withVectors c filterConditions limit calls none = .finished points

/-- `json.loads` does not run out of stack on any of the strings. -/
def Readable (metadata : JsonPayload F) : Prop :=
  ∀ kv ∈ metadata.entries, ∀ s, kv.2 = .str s → looksLikeJson s = true → loads (F := F) nesting s ≠ .error recursionError

end Scroll

/-! ## The points of a page -/

section Points
variable {F V : Type} [PyFloat F] {nesting : Nat} {withPayload withVectors : Bool}

def pointOf (nesting : Nat) (withPayload withVectors : Bool) (r : ChromaRecord F V) : Except PyError (PointData F V) :=
  let vector := if withVectors then some r.embedding else none
  if withPayload then (unflattenMetadata nesting r.metadata).map fun payload => ⟨r.id, some payload, vector⟩
  else .ok ⟨r.id, none, vector⟩

def pointsOf (nesting : Nat) (withPayload withVectors : Bool) :
    List (ChromaRecord F V) → Except PyError (List (PointData F V))
  | [] => .ok []
  | r :: rs =>
    match pointOf nesting withPayload withVectors r with
    | .error e => .error e
    | .ok p => (pointsOf nesting withPayload withVectors rs).map (p :: ·)

theorem pointsFrom_eq (before records : List (ChromaRecord F V)) :
    pointsFrom nesting withPayload withVectors (resultOf withVectors (before ++ records)) before.length
      (records.map (·.id)) = pointsOf nesting withPayload withVectors records := by
  induction records generalizing before with
  | nil => rfl
  | cons r records ih =>
    have hmetadata : (resultOf withVectors (before ++ r :: records)).metadatas[before.length]? = some r.metadata := by
      simp [resultOf]
    have hvector : pointVector withVectors (resultOf withVectors (before ++ r :: records)) before.length =
        if withVectors then some r.embedding else none := by
      cases withVectors with
      | false => rfl
      | true => simp [pointVector, resultOf]
    have hrest := ih (before ++ [r])
    rw [List.append_assoc, List.singleton_append, List.length_append, List.length_singleton] at hrest
    rw [List.map_cons, pointsFrom, pointsOf, pointPayload, pointOf, hmetadata, hvector, hrest]
    cases withPayload with
    | false => rfl
    | true =>
      simp only [if_true]
      cases unflattenMetadata nesting r.metadata with
      | error e => rfl
      | ok payload => rfl

theorem pointsOf_append (rs rs' : List (ChromaRecord F V)) :
    pointsOf nesting withPayload withVectors (rs ++ rs') =
      match pointsOf nesting withPayload withVectors rs with
      | .error e => .error e
      | .ok points => (pointsOf nesting withPayload withVectors rs').map (points ++ ·) := by
  induction rs with
  | nil =>
    show pointsOf nesting withPayload withVectors rs' = (pointsOf nesting withPayload withVectors rs').map _
    cases pointsOf nesting withPayload withVectors rs' <;> rfl
  | cons r rs ih =>
    rw [List.cons_append, pointsOf, pointsOf, ih]
    cases pointOf nesting withPayload withVectors r with
    | error e => rfl
    | ok p =>
      cases pointsOf nesting withPayload withVectors rs with
      | error e => rfl
      | ok points => cases pointsOf nesting withPayload withVectors rs' <;> rfl

theorem pointOf_ok_iff {r : ChromaRecord F V} {p : PointData F V} :
    pointOf nesting withPayload withVectors r = .ok p ↔ IsPoint nesting withPayload withVectors r p := by
  obtain ⟨id, payload, vector⟩ := p
  unfold pointOf
  cases withPayload with
  | false =>
    constructor
    · intro h
      cases h
      exact ⟨rfl, rfl, rfl⟩
    · rintro ⟨hid, hpayload, hvector⟩
      cases hid
      cases hpayload
      cases hvector
      rfl
  | true =>
    constructor
    · intro h
      cases hm : r.metadata with
      | none =>
        rw [hm] at h
        cases h
      | some m =>
        cases hread : unflattenPayload nesting m with
        | error e =>
          simp [hm, unflattenMetadata, hread, Except.map] at h
        | ok found =>
          simp only [hm, unflattenMetadata, hread, Except.map, if_true, Except.ok.injEq] at h
          cases h
          exact ⟨rfl, ⟨m, found, hm, hread, rfl⟩, rfl⟩
    · rintro ⟨hid, ⟨m, found, hm, hread, hpayload⟩, hvector⟩
      obtain rfl : id = r.id := hid
      obtain rfl : payload = some found := hpayload
      obtain rfl : vector = if withVectors then some r.embedding else none := hvector
      simp [hm, unflattenMetadata, hread, Except.map]

theorem pointsOf_ok_iff {rs : List (ChromaRecord F V)} {points : List (PointData F V)} :
    pointsOf nesting withPayload withVectors rs = .ok points ↔
      List.Forall₂ (IsPoint nesting withPayload withVectors) rs points := by
  induction rs generalizing points with
  | nil =>
    constructor
    · intro h
      cases h
      exact .nil
    · intro h
      cases h
      rfl
  | cons r rs ih =>
    rw [pointsOf]
    constructor
    · intro h
      cases hp : pointOf nesting withPayload withVectors r with
      | error e =>
        rw [hp] at h
        cases h
      | ok p =>
        cases hps : pointsOf nesting withPayload withVectors rs with
        | error e =>
          rw [hp, hps] at h
          cases h
        | ok ps =>
          rw [hp, hps] at h
          cases h
          exact .cons (pointOf_ok_iff.mp hp) (ih.mp hps)
    · intro h
      cases h with
      | cons hp hps =>
        rw [pointOf_ok_iff.mpr hp, ih.mpr hps]
        rfl

end Points

/-! ## The run -/

section Runs
variable {F V : Type} [PyFloat F] {nesting : Nat} {withPayload withVectors : Bool} {c : Collection F V}
  {filterConditions : Option (FilterConditions Str)} {limit : Nat} {selects : ChromaRecord F V → Bool}

theorem scroll_eq (h : c.select (whereOf filterConditions) = .ok selects) (offsetId : Option Nat) :
    scroll nesting withPayload withVectors c filterConditions limit offsetId =
      match pointsOf nesting withPayload withVectors (((c.records.filter selects).drop (offsetOf offsetId)).take limit) with
      | .error _ => none
      | .ok points => some ⟨points, if points.length = limit then some (offsetOf offsetId + limit) else none⟩ := by
  have hpoints := @pointsFrom_eq F V _ nesting withPayload withVectors []
    (((c.records.filter selects).drop (offsetOf offsetId)).take limit)
  rw [List.nil_append, List.length_nil] at hpoints
  rw [scroll, Collection.get, h, ← hpoints]
  rfl

/-- From an offset on, the calls return the records from there, or fail at one that cannot be read. -/
theorem scrollFrom_eq (hlimit : 1 ≤ limit) (h : c.select (whereOf filterConditions) = .ok selects) {calls : Nat}
    {offsetId : Option Nat} (hcalls : ((c.records.filter selects).length - offsetOf offsetId) / limit < calls) :
    scrollFrom nesting withPayload withVectors c filterConditions limit calls offsetId =
      match pointsOf nesting withPayload withVectors ((c.records.filter selects).drop (offsetOf offsetId)) with
      | .error _ => .failed
      | .ok points => .finished points := by
  induction calls generalizing offsetId with
  | zero => exact absurd hcalls (Nat.not_lt_zero _)
  | succ calls ih =>
    rw [scrollFrom, scroll_eq h]
    generalize hms : c.records.filter selects = ms at hcalls ih ⊢
    have hsplit := @pointsOf_append F V _ nesting withPayload withVectors
      ((ms.drop (offsetOf offsetId)).take limit) ((ms.drop (offsetOf offsetId)).drop limit)
    rw [List.take_append_drop] at hsplit
    rw [hsplit]
    cases hpage : pointsOf nesting withPayload withVectors ((ms.drop (offsetOf offsetId)).take limit) with
    | error e => rfl
    | ok points =>
      have hlength : points.length = min limit (ms.length - offsetOf offsetId) := by
        rw [← (pointsOf_ok_iff.mp hpage).length_eq, List.length_take, List.length_drop]
      dsimp only
      by_cases hfull : points.length = limit
      · rw [if_pos hfull]
        have hle : limit ≤ ms.length - offsetOf offsetId := by omega
        have hdiv := Nat.div_eq_sub_div hlimit hle
        have hfewer : (ms.length - offsetOf (some (offsetOf offsetId + limit))) / limit < calls := by
          show (ms.length - (offsetOf offsetId + limit)) / limit < calls
          rw [Nat.sub_add_eq]
          omega
        have hnext := ih hfewer
        dsimp only
        rw [hnext, List.drop_drop]
        show (match pointsOf nesting withPayload withVectors (ms.drop (offsetOf offsetId + limit)) with
          | .error _ => Scrolled.failed
          | .ok points => .finished points).after points = _
        cases pointsOf nesting withPayload withVectors (ms.drop (offsetOf offsetId + limit)) <;> rfl
      · rw [if_neg hfull]
        have hrest : (ms.drop (offsetOf offsetId)).drop limit = [] := by
          apply List.drop_eq_nil_of_le
          rw [List.length_drop]
          omega
        rw [hrest]
        show Scrolled.finished points = .finished (points ++ [])
        rw [List.append_nil]

/-- A clause that Chroma refuses ends the iteration at once. -/
theorem scrollFrom_refused {e : PyError} (h : c.select (whereOf filterConditions) = .error e) (calls : Nat) :
    scrollFrom nesting withPayload withVectors c filterConditions limit (calls + 1) none = .failed := by
  rw [scrollFrom, scroll, Collection.get, h]
  rfl

end Runs

/-! ## What can be read -/

section Reading
variable {F : Type} [PyFloat F] {nesting : Nat}

theorem unflattenValue_total_iff {v : Json F} :
    (∃ w, unflattenValue nesting v = .ok w) ↔
      ∀ s, v = .str s → looksLikeJson s = true → loads (F := F) nesting s ≠ .error recursionError := by
  cases v with
  | str s =>
    rw [unflattenValue]
    constructor
    · rintro ⟨w, hw⟩ s' hs hlooks hloads
      cases hs
      rw [if_pos hlooks, hloads] at hw
      cases hw
    · intro h
      by_cases hlooks : looksLikeJson s = true
      · have hread := h s rfl hlooks
        rw [if_pos hlooks]
        cases hloads : loads (F := F) nesting s with
        | ok j => exact ⟨j, rfl⟩
        | error e =>
          rcases (loads_error hloads).isValueError with hvalue | hrecursion
          · exact ⟨.str s, if_pos hvalue⟩
          · exact absurd (hloads.trans (congrArg Except.error hrecursion)) hread
      · exact ⟨.str s, if_neg hlooks⟩
  | _ => exact iff_of_true ⟨_, rfl⟩ fun s hs => by cases hs

theorem unflattenPayload_total_iff {m : JsonPayload F} :
    (∃ payload, unflattenPayload nesting m = .ok payload) ↔ Readable nesting m :=
  Dict.mapValues_total_iff.trans (forall₂_congr fun _ _ => unflattenValue_total_iff)

end Reading

section Complete
variable {F V : Type} [PyFloat F] {nesting : Nat} {withPayload withVectors : Bool} {limit : Nat}

/-- The points of some records can be made exactly when each record can be read. -/
theorem points_exist_iff {rs : List (ChromaRecord F V)} :
    (∃ points, List.Forall₂ (IsPoint nesting withPayload withVectors) rs points) ↔
      (withPayload = true → ∀ r ∈ rs, ∃ m, r.metadata = some m ∧ Readable nesting m) := by
  constructor
  · rintro ⟨points, h⟩ hpayload
    induction h with
    | nil => exact fun r hr => nomatch hr
    | cons hp _ ih =>
      refine List.forall_mem_cons.mpr ⟨?_, ih⟩
      obtain ⟨m, payload, hm, hread, -⟩ := (if_pos hpayload ▸ hp.payload)
      exact ⟨m, hm, unflattenPayload_total_iff.mp ⟨payload, hread⟩⟩
  · intro h
    induction rs with
    | nil => exact ⟨[], .nil⟩
    | cons r rs ih =>
      obtain ⟨points, hpoints⟩ := ih fun hpayload r' hr' => h hpayload r' (List.mem_cons_of_mem r hr')
      have hone : ∃ p, IsPoint nesting withPayload withVectors r p := by
        cases withPayload with
        | false => exact ⟨⟨r.id, none, _⟩, rfl, rfl, rfl⟩
        | true =>
          obtain ⟨m, hm, hread⟩ := h rfl r List.mem_cons_self
          obtain ⟨payload, hpayload⟩ := unflattenPayload_total_iff.mpr hread
          exact ⟨⟨r.id, some payload, _⟩, rfl, ⟨m, payload, hm, hpayload, rfl⟩, rfl⟩
      obtain ⟨p, hp⟩ := hone
      exact ⟨p :: points, .cons hp hpoints⟩

/-- Scrolling is complete exactly where Chroma takes the clause and every payload asked for can be read. -/
theorem scrolls_through_iff (c : Collection F V) (filterConditions : Option (FilterConditions Str))
    (hlimit : 1 ≤ limit) :
    ScrollsThrough nesting withPayload withVectors c filterConditions limit ↔
      ∃ selects, c.select (whereOf filterConditions) = .ok selects ∧ (withPayload = true →
        ∀ r ∈ c.records.filter selects, ∃ m, r.metadata = some m ∧ Readable nesting m) := by
  constructor
  · rintro ⟨selects, points, enough, hselect, hpoints, -⟩
    exact ⟨selects, hselect, points_exist_iff.mp ⟨points, hpoints⟩⟩
  · rintro ⟨selects, hselect, hread⟩
    obtain ⟨points, hpoints⟩ := points_exist_iff.mpr hread
    refine ⟨selects, points, (c.records.filter selects).length / limit + 1, hselect, hpoints, ?_⟩
    intro calls hcalls
    rw [scrollFrom_eq hlimit hselect (Nat.lt_of_lt_of_le (Nat.lt_succ_self _) hcalls)]
    show (match pointsOf nesting withPayload withVectors (c.records.filter selects) with
      | .error _ => Scrolled.failed
      | .ok points => .finished points) = _
    rw [pointsOf_ok_iff.mpr hpoints]

end Complete

/-! ## Two collections -/

/-- Chroma lists all records, and no clause is refused. -/
def unfiltered (records : List (ChromaRecord Unit Unit)) : Collection Unit Unit := ⟨records, fun _ => .ok fun _ => true⟩

def twoNotes : Collection Unit Unit :=
  unfiltered [⟨lit "1", some (Dict.empty.set (lit "note") (.str (lit "[1"))), ()⟩, ⟨lit "2", some Dict.empty, ()⟩]

/-- Two pages of one record each, and the empty page that ends the iteration. -/
theorem two_notes_scroll_through :
    1 ≤ 1 ∧ ScrollsThrough 900 true false twoNotes none 1 := by
  refine ⟨le_rfl, (scrolls_through_iff twoNotes none le_rfl).mpr ⟨fun _ => true, rfl, fun _ => ?_⟩⟩
  have hrecords : twoNotes.records.filter (fun _ => true) =
      [⟨lit "1", some (Dict.empty.set (lit "note") (.str (lit "[1"))), ()⟩, ⟨lit "2", some Dict.empty, ()⟩] := rfl
  rw [hrecords, List.forall_mem_cons, List.forall_mem_singleton]
  refine ⟨⟨_, rfl, unflattenPayload_total_iff.mp ⟨_, rfl⟩⟩, ⟨_, rfl, unflattenPayload_total_iff.mp ⟨_, rfl⟩⟩⟩

/-- The second record was added without metadata. -/
def bareRecord : Collection Unit Unit := unfiltered [⟨lit "1", some Dict.empty, ()⟩, ⟨lit "2", none, ()⟩]

theorem bare_record_ends_scrolling : ¬ ScrollsThrough 900 true false bareRecord none 1 := by
  rintro ⟨selects, points, enough, -, -, hcalls⟩
  have hfailed : scrollFrom 900 true false bareRecord none 1 (enough + 2) none = .failed := rfl
  rw [hcalls (enough + 2) (by omega)] at hfailed
  cases hfailed

end IsaCloud.Vector
