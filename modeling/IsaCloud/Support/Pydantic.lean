import IsaCloud.Support.IsoTime
import IsaCloud.Support.JsonDicts
import IsaCloud.Support.JsonOrder

/-!
# Reading the fields of a model

How a pydantic model takes a field from a dict of JSON values. The conversions
between scalars are the library's own and enter as `Scalars`; of these only
scalars come out. A field of scalars reads the same from every order of the
members, a field that is a dict up to the order of its own.
-/

namespace Support.Pydantic

set_option autoImplicit false

open Text Json IsoTime

/-- A conversion into a field; `none` is a validation error. -/
abbrev Reader (F A : Type) := Json F → Option A

/-- A string that can be encoded. -/
def isText (s : Str) : Bool := s.all fun c => !isHigh c.val && !isLow c.val

def isScalar {F : Type} : Json F → Bool
  | .bool _ | .int _ | .float _ => true
  | .str s => isText s
  | _ => false

/-- What the library makes of a value in a field of the type. -/
class Scalars (F : Type) where
  int : Reader F Int
  float : Reader F F
  bool : Reader F Bool
  datetime : Reader F PyDateTime

/-- Lists, dicts and null are no scalars of any type, nor are strings that cannot be encoded. -/
class LawfulScalars (F : Type) [Scalars F] : Prop where
  int_scalar : ∀ (j : Json F) n, Scalars.int j = some n → isScalar j = true
  float_scalar : ∀ (j : Json F) x, Scalars.float j = some x → isScalar j = true
  bool_scalar : ∀ (j : Json F) b, Scalars.bool j = some b → isScalar j = true
  datetime_scalar : ∀ (j : Json F) d, Scalars.datetime j = some d → isScalar j = true

section Readers
variable {F A : Type}

def text : Reader F Str
  | .str s => if isText s then some s else none
  | _ => none

/-- `Optional[...]`. -/
def optional (read : Reader F A) : Reader F (Option A)
  | .null => some none
  | j => (read j).map some

/-- `List[...]`. -/
def listOf (read : Reader F A) : Reader F (List A)
  | .arr xs => xs.mapM read
  | _ => none

/-- `Dict[str, ...]`. -/
def dictOf (read : Reader F A) : Reader F (List (Str × A))
  | .obj m => m.mapM fun kv => if isText kv.1 then (read kv.2).map (kv.1, ·) else none
  | _ => none

/-- A field without a default. -/
def required (m : Members F) (key : String) (read : Reader F A) : Option A := (m.get (lit key)).bind read

def fieldOr (m : Members F) (key : String) (default : A) (read : Reader F A) : Option A :=
  match m.get (lit key) with
  | some j => read j
  | none => some default

/-- `extra="forbid"`. -/
def onlyFields (m : Members F) (fields : List String) : Bool := m.all fun kv => fields.any fun f => kv.1 == lit f

end Readers

/-! ## What a reader accepts -/

section Accepted
variable {F A : Type}

/-- Whatever the reader accepts is well formed and at most `depth` deep. -/
def Within (depth : Nat) (read : Reader F A) : Prop :=
  ∀ j a, read j = some a → Dicts j → Bounded depth j

/-- Whatever the reader accepts shows no order of members. -/
def Orderless (read : Reader F A) : Prop := ∀ j a, read j = some a → OrderFree j

theorem plain_of_isText {s : Str} (h : isText s = true) : Plain s := by
  intro c hc
  have := List.all_eq_true.mp h c hc
  simpa using this

theorem within_of_scalar {read : Reader F A} (h : ∀ j a, read j = some a → isScalar j = true) :
    Within 0 read := by
  intro j a ha hd
  have hs := h j a ha
  cases j with
  | bool b => exact ⟨trivial, Nat.le_refl 0⟩
  | int n => exact ⟨hd, Nat.le_refl 0⟩
  | float x => exact ⟨trivial, Nat.le_refl 0⟩
  | str s => exact ⟨splitFree_of_plain (plain_of_isText hs), Nat.le_refl 0⟩
  | null => cases hs
  | arr xs => cases hs
  | obj m => cases hs

theorem orderless_of_scalar {read : Reader F A} (h : ∀ j a, read j = some a → isScalar j = true) :
    Orderless read := by
  intro j a ha
  have hs := h j a ha
  cases j with
  | arr xs => cases hs
  | obj m => cases hs
  | _ => trivial

theorem text_scalar : ∀ (j : Json F) s, text j = some s → isScalar j = true := by
  intro j s h
  cases j with
  | str t =>
    simp only [text] at h
    split at h
    · assumption
    · cases h
  | _ => cases h

theorem Within.optional {depth : Nat} {read : Reader F A} (h : Within depth read) :
    Within depth (optional read) := by
  intro j a ha hd
  cases j with
  | null => exact ⟨trivial, Nat.zero_le depth⟩
  | _ =>
    obtain ⟨b, hb, -⟩ := Option.map_eq_some_iff.mp ha
    exact h _ b hb hd

theorem Orderless.optional {read : Reader F A} (h : Orderless read) : Orderless (optional read) := by
  intro j a ha
  cases j with
  | null => trivial
  | _ =>
    obtain ⟨b, hb, -⟩ := Option.map_eq_some_iff.mp ha
    exact h _ b hb

theorem mapM_mem {X Y : Type} {f : X → Option Y} {xs : List X} {ys : List Y} (h : xs.mapM f = some ys) :
    ∀ x ∈ xs, ∃ y, f x = some y := by
  induction xs generalizing ys with
  | nil => simp
  | cons x xs ih =>
    rw [List.mapM_cons] at h
    obtain ⟨y, hy, hrest⟩ := Option.bind_eq_some_iff.mp h
    obtain ⟨zs, hzs, -⟩ := Option.bind_eq_some_iff.mp hrest
    intro x' hx'
    rcases List.mem_cons.mp hx' with rfl | hx'
    · exact ⟨y, hy⟩
    · exact ih hzs x' hx'

theorem Within.listOf {depth : Nat} {read : Reader F A} (h : Within depth read) :
    Within (depth + 1) (listOf read) := by
  intro j as ha hd
  cases j with
  | arr xs =>
    refine bounded_arr.mpr fun x hx => ?_
    obtain ⟨a, hx'⟩ := mapM_mem ha x hx
    exact h x a hx' (dictsElems_iff.mp hd x hx)
  | _ => cases ha

theorem Orderless.listOf {read : Reader F A} (h : Orderless read) : Orderless (listOf read) := by
  intro j as ha
  cases j with
  | arr xs =>
    refine orderFreeElems_iff.mpr fun x hx => ?_
    obtain ⟨a, hx'⟩ := mapM_mem ha x hx
    exact h x a hx'
  | _ => cases ha

theorem dictOf_mem {read : Reader F A} {m : Members F} {es : List (Str × A)}
    (h : dictOf read (.obj m) = some es) : ∀ kv ∈ m, isText kv.1 = true ∧ ∃ a, read kv.2 = some a := by
  intro kv hkv
  obtain ⟨e, he⟩ := mapM_mem h kv hkv
  split at he
  · rename_i ht
    obtain ⟨a, ha, -⟩ := Option.map_eq_some_iff.mp he
    exact ⟨ht, a, ha⟩
  · cases he

theorem Within.dictOf {depth : Nat} {read : Reader F A} (h : Within depth read) :
    Within (depth + 1) (dictOf read) := by
  intro j es ha hd
  cases j with
  | obj m =>
    refine bounded_obj.mpr ⟨hd.1, fun kv hkv => ?_⟩
    obtain ⟨ht, a, hx⟩ := dictOf_mem ha kv hkv
    exact ⟨splitFree_of_plain (plain_of_isText ht), h kv.2 a hx (dictsMembers_iff.mp hd.2 kv hkv)⟩
  | _ => cases ha

theorem Within.mono {d depth : Nat} {read : Reader F A} (h : Within d read) (hd : d ≤ depth) : Within depth read :=
  fun j a ha hj => (h j a ha hj).mono hd

section Fields
variable {m : Members F} {key : String} {read : Reader F A} {j : Json F} {a : A}

theorem required_accepts (h : required m key read = some a) (hj : m.get (lit key) = some j) : read j = some a := by
  rwa [required, hj] at h

theorem fieldOr_accepts {default : A} (h : fieldOr m key default read = some a) (hj : m.get (lit key) = some j) :
    read j = some a := by
  rwa [fieldOr, hj] at h

end Fields

/-- A dict whose fields are read by readers of bounded depth. -/
theorem bounded_of_fields {m : Members F} {fields : List String} {depth : Nat} (honly : onlyFields m fields = true)
    (hd : Dicts (.obj m)) (hplain : ∀ f ∈ fields, splitFree (lit f) = true)
    (hread : ∀ f ∈ fields, ∀ j, m.get (lit f) = some j → Dicts j → Bounded depth j) :
    Bounded (depth + 1) (.obj m) := by
  refine bounded_obj.mpr ⟨hd.1, fun kv hkv => ?_⟩
  obtain ⟨f, hf, hkey⟩ := List.any_eq_true.mp (List.all_eq_true.mp honly kv hkv)
  have hkey : kv.1 = lit f := by simpa using hkey
  have hget : m.get (lit f) = some kv.2 := by
    rw [← hkey]
    exact (Members.get_eq_some_iff hd.1 kv.1 kv.2).mpr hkv
  exact ⟨hkey ▸ hplain f hf, hread f hf kv.2 hget (dictsMembers_iff.mp hd.2 kv hkv)⟩

end Accepted

/-! ## Members at a known place -/

section Places
variable {F A : Type} {m : Members F} {key : String} {j : Json F} {read : Reader F A}

theorem get_at (hm : m.keys.Nodup) (i : Nat) {k : Str} (h : m[i]? = some (k, j)) : m.get k = some j :=
  (Members.get_eq_some_iff hm k j).mpr (List.mem_of_getElem? h)

theorem required_at (hm : m.keys.Nodup) (i : Nat) (h : m[i]? = some (lit key, j)) :
    required m key read = read j := by
  rw [required, get_at hm i h]
  rfl

theorem fieldOr_at (hm : m.keys.Nodup) {default : A} (i : Nat) (h : m[i]? = some (lit key, j)) :
    fieldOr m key default read = read j := by
  rw [fieldOr, get_at hm i h]

/-- The value of an optional field, `null` for none. -/
def jsonOption (f : A → Json F) : Option A → Json F
  | none => .null
  | some a => f a

theorem optional_jsonOption (f : A → Json F) (hnull : ∀ a, f a ≠ .null) {o : Option A}
    (hread : ∀ a, o = some a → read (f a) = some a) : optional read (jsonOption f o) = some o := by
  cases o with
  | none => rfl
  | some a =>
    have hopt : optional read (f a) = (read (f a)).map some := by
      cases hf : f a with
      | null => exact absurd hf (hnull a)
      | _ => rfl
    rw [jsonOption, hopt, hread a rfl]
    rfl

end Places

/-! ## Members in another order -/

section Order
variable {F A : Type}

theorem mapM_perm {X Y : Type} {f : X → Option Y} {xs xs' : List X} (h : xs.Perm xs') {ys : List Y}
    (hm : xs.mapM f = some ys) : ∃ ys', xs'.mapM f = some ys' ∧ ys.Perm ys' := by
  induction h generalizing ys with
  | nil => exact ⟨ys, hm, .refl ys⟩
  | cons x _ ih =>
    rw [List.mapM_cons] at hm ⊢
    obtain ⟨y, hy, hrest⟩ := Option.bind_eq_some_iff.mp hm
    obtain ⟨zs, hzs, hcons⟩ := Option.bind_eq_some_iff.mp hrest
    obtain ⟨zs', hzs', hp⟩ := ih hzs
    obtain rfl := Option.some.inj hcons
    rw [hy, hzs']
    exact ⟨y :: zs', rfl, hp.cons y⟩
  | swap x x' xs =>
    rw [List.mapM_cons, List.mapM_cons] at hm ⊢
    obtain ⟨y', hy', hrest⟩ := Option.bind_eq_some_iff.mp hm
    obtain ⟨zs, hzs, hcons⟩ := Option.bind_eq_some_iff.mp hrest
    obtain ⟨y, hy, hrest'⟩ := Option.bind_eq_some_iff.mp hzs
    obtain ⟨ws, hws, hcons'⟩ := Option.bind_eq_some_iff.mp hrest'
    obtain rfl := Option.some.inj hcons'
    obtain rfl := Option.some.inj hcons
    rw [hy, hy', hws]
    exact ⟨y :: y' :: ws, rfl, .swap y y' ws⟩
  | trans _ _ ih ih' =>
    obtain ⟨ys', hys', hp⟩ := ih hm
    obtain ⟨ys'', hys'', hp'⟩ := ih' hys'
    exact ⟨ys'', hys'', hp.trans hp'⟩

theorem sortedMembers_of_orderFree {m : Members F} (h : ∀ kv ∈ m, OrderFree kv.2) : sortedMembers m = m := by
  rw [sortedMembers_eq_map]
  calc m.map (fun kv => (kv.1, kv.2.sorted)) = m.map id :=
        List.map_congr_left fun kv hkv => by rw [sorted_of_orderFree kv.2 (h kv hkv)]; rfl
    _ = m := List.map_id m

/-- A dict of values that show no order reads the same up to its own order. -/
theorem dictOf_reordered {read : Reader F A} (hread : Orderless read) {j j' : Json F}
    (h : j'.sorted = j.sorted) {es : List (Str × A)} (ha : dictOf read j = some es) :
    ∃ es', dictOf read j' = some es' ∧ es.Perm es' := by
  cases j with
  | obj m =>
    cases j' with
    | obj m' =>
      have hfree : ∀ kv ∈ m, OrderFree kv.2 := by
        intro kv hkv
        obtain ⟨-, a, hx⟩ := dictOf_mem ha kv hkv
        exact hread kv.2 a hx
      have hp := sorted_obj_perm h
      rw [sortedMembers_of_orderFree hfree] at hp
      have hfree' : ∀ kv ∈ m', OrderFree kv.2 := by
        intro kv hkv
        have hmem : (kv.1, kv.2.sorted) ∈ sortedMembers m' := by
          rw [sortedMembers_eq_map]
          exact List.mem_map_of_mem hkv
        have hs : OrderFree kv.2.sorted := hfree _ (hp.mem_iff.mp hmem)
        exact (orderFree_sorted kv.2).mp hs
      rw [sortedMembers_of_orderFree hfree'] at hp
      exact mapM_perm hp.symm ha
    | _ => cases h
  | _ => cases ha

variable {m m' : Members F}

theorem required_reordered {key : String} {read : Reader F A} (hread : Orderless read) (hm : m.keys.Nodup)
    (h : (Json.obj m').sorted = (Json.obj m).sorted) {a : A} (ha : required m key read = some a) :
    required m' key read = some a := by
  obtain ⟨j, hj, hread'⟩ := Option.bind_eq_some_iff.mp ha
  have hget := (get_of_sorted_eq hm h.symm (lit key)).symm
  rw [required, Members.get_eq_of_orderFree (fun i hi => ?_) hget, hj]
  · exact hread'
  · rw [Option.some.inj (hi.symm.trans hj)]
    exact hread j a hread'

theorem fieldOr_reordered {key : String} {default : A} {read : Reader F A} (hread : Orderless read)
    (hm : m.keys.Nodup) (h : (Json.obj m').sorted = (Json.obj m).sorted) {a : A}
    (ha : fieldOr m key default read = some a) : fieldOr m' key default read = some a := by
  have hget := (get_of_sorted_eq hm h.symm (lit key)).symm
  unfold fieldOr at ha ⊢
  rw [Members.get_eq_of_orderFree (fun j hj => ?_) hget]
  · exact ha
  · rw [hj] at ha
    exact hread j a ha

theorem fieldOr_dict_reordered {key : String} {read : Reader F A} (hread : Orderless read)
    (hm : m.keys.Nodup) (h : (Json.obj m').sorted = (Json.obj m).sorted) {es : List (Str × A)}
    (ha : fieldOr m key [] (dictOf read) = some es) :
    ∃ es', fieldOr m' key [] (dictOf read) = some es' ∧ es.Perm es' := by
  have hget := (get_of_sorted_eq hm h.symm (lit key)).symm
  unfold fieldOr at ha ⊢
  cases hj : m.get (lit key) with
  | none =>
    rw [hj, Option.map_none, Option.map_eq_none_iff] at hget
    rw [hj] at ha
    rw [hget]
    exact ⟨es, ha, .refl es⟩
  | some j =>
    rw [hj, Option.map_some, Option.map_eq_some_iff] at hget
    obtain ⟨j', hj', hs⟩ := hget
    rw [hj] at ha
    rw [hj']
    exact dictOf_reordered hread hs ha

theorem onlyFields_reordered {fields : List String} (h : (Json.obj m').sorted = (Json.obj m).sorted) :
    onlyFields m' fields = onlyFields m fields := by
  have hp := keys_perm_of_sorted_eq h
  have hall : ∀ n : Members F, onlyFields n fields = n.keys.all fun k => fields.any fun f => k == lit f := by
    intro n
    rw [onlyFields, Members.keys, List.all_map]
    rfl
  rw [hall, hall]
  exact hp.all_eq

end Order

end Support.Pydantic
