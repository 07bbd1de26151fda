import IsaCloud.Support.Python
import Mathlib.Data.List.Sort
import Mathlib.Data.List.Nodup

/-!
# JSON values as Python holds them

The values `json.loads` builds: integers of any size, floats, strings, lists and
dicts with their insertion order. Floats are a parameter: `PyFloat` names what
the runtime does with one, `LawfulPyFloat` that its shortest text reads back as
the same number.
-/

namespace Support

set_option autoImplicit false

open Text Python

class PyFloat (F : Type) where
  /-- `float` of the text of a JSON number. -/
  parse : Str → F
  /-- The text `json.dumps` writes. -/
  dump : F → Str
  /-- `repr`, which spells the special values in lower case. -/
  repr : F → Str
  /-- `int` of a float: towards zero, an exception for the special values. -/
  trunc : F → Except PyError Int
  isZero : F → Bool
  nan : F
  inf : F
  negInf : F

inductive Json (F : Type) where
  | null
  | bool (b : Bool)
  | int (n : Int)
  | float (x : F)
  | str (s : Str)
  | arr (xs : List (Json F))
  | obj (members : List (Str × Json F))

abbrev Members (F : Type) := List (Str × Json F)

namespace Members
variable {F : Type}

/-- `dict.get`. -/
def get (m : Members F) (k : Str) : Option (Json F) :=
  match m with
  | [] => none
  | (k', v) :: rest => if k' = k then some v else get rest k

/-- `dict[k] = v`: an existing key keeps its place. -/
def set (m : Members F) (k : Str) (v : Json F) : Members F :=
  match m with
  | [] => [(k, v)]
  | (k', v') :: rest => if k' = k then (k, v) :: rest else (k', v') :: set rest k v

def keys (m : Members F) : List Str := m.map Prod.fst

/-- `{k: v for k, v in m.items() if k != key}`. -/
def without (m : Members F) (key : Str) : Members F := m.filter fun kv => kv.1 != key

theorem keys_set (m : Members F) (k : Str) (v : Json F) :
    (m.set k v).keys = if k ∈ m.keys then m.keys else m.keys ++ [k] := by
  induction m with
  | nil => simp [set, keys]
  | cons kv rest ih =>
    simp only [keys] at ih
    by_cases h : kv.1 = k
    · simp [set, keys, h]
    · have h' : k ≠ kv.1 := fun he => h he.symm
      by_cases hr : k ∈ rest.map Prod.fst
      · simp [set, keys, h, ih, hr]
      · simp [set, keys, h, h', ih, hr]

theorem set_of_not_mem {m : Members F} {k : Str} (h : k ∉ m.keys) (v : Json F) :
    m.set k v = m ++ [(k, v)] := by
  induction m with
  | nil => rfl
  | cons kv m ih =>
    obtain ⟨k', v'⟩ := kv
    simp only [Members.keys, List.map_cons, List.mem_cons, not_or] at h
    have hne : k' ≠ k := fun he => h.1 he.symm
    simp only [Members.set, hne, if_false, List.cons_append]
    rw [ih h.2]

theorem nodup_set {m : Members F} (h : m.keys.Nodup) (k : Str) (v : Json F) :
    (m.set k v).keys.Nodup := by
  rw [keys_set]
  split
  · exact h
  · rename_i hk
    exact List.nodup_append.mpr ⟨h, List.nodup_singleton k, by
      intro a ha b hb hab
      rw [List.mem_singleton.mp hb] at hab
      exact hk (hab ▸ ha)⟩

theorem get_eq_some_iff {m : Members F} (h : m.keys.Nodup) (k : Str) (v : Json F) :
    m.get k = some v ↔ (k, v) ∈ m := by
  induction m with
  | nil => simp [get]
  | cons kv rest ih =>
    obtain ⟨k', v'⟩ := kv
    have hk : k' ∉ rest.map Prod.fst := (List.nodup_cons.mp h).1
    by_cases heq : k' = k
    · subst heq
      simp only [get, if_true, Option.some.injEq, List.mem_cons, Prod.mk.injEq, true_and]
      constructor
      · intro hv
        exact .inl hv.symm
      · rintro (hv | hv)
        · exact hv.symm
        · exact absurd (List.mem_map.mpr ⟨_, hv, rfl⟩) hk
    · simp only [get, heq, if_false, ih (List.nodup_cons.mp h).2, List.mem_cons, Prod.mk.injEq,
        Ne.symm heq, false_and, false_or]

/-- A lookup depends only on the set of members, not on their order. -/
theorem get_perm {m m' : Members F} (h : m.Perm m') (hm : m.keys.Nodup) (k : Str) :
    m.get k = m'.get k := by
  have hm' : m'.keys.Nodup := (h.map Prod.fst).nodup_iff.mp hm
  apply Option.ext
  intro v
  rw [get_eq_some_iff hm, get_eq_some_iff hm', h.mem_iff]

theorem get_without {m : Members F} {k key : Str} (h : k ≠ key) :
    (m.without key).get k = m.get k := by
  induction m with
  | nil => rfl
  | cons kv rest ih =>
    obtain ⟨k', v'⟩ := kv
    simp only [without] at ih
    by_cases hkey : k' = key
    · have hk : k' ≠ k := fun he => h (he.symm.trans hkey)
      have hb : (k' != key) = false := by simpa using hkey
      simp only [without, List.filter_cons, hb, Bool.false_eq_true, if_false, get, hk, ih]
    · have hb : (k' != key) = true := by simpa using hkey
      simp only [without, List.filter_cons, hb, if_true, get, ih]

end Members

/-! ## Key order -/

/-- Python's order of strings, by code points. -/
def strLe : Str → Str → Bool
  | [], _ => true
  | _ :: _, [] => false
  | a :: s, b :: t => if a = b then strLe s t else decide (a.val < b.val)

theorem strLe_total (s t : Str) : strLe s t = true ∨ strLe t s = true := by
  induction s generalizing t with
  | nil => exact .inl rfl
  | cons a s ih =>
    cases t with
    | nil => exact .inr rfl
    | cons b t =>
      by_cases h : a = b
      · subst h
        simpa [strLe] using ih t
      · have hv : a.val ≠ b.val := fun hv => h (Fin.ext hv)
        simp only [strLe, h, Ne.symm h, if_false, decide_eq_true_eq]
        omega

theorem strLe_antisymm {s t : Str} (h : strLe s t = true) (h' : strLe t s = true) : s = t := by
  induction s generalizing t with
  | nil =>
    cases t with
    | nil => rfl
    | cons b t => simp [strLe] at h'
  | cons a s ih =>
    cases t with
    | nil => simp [strLe] at h
    | cons b t =>
      by_cases hab : a = b
      · subst hab
        simp only [strLe, if_true] at h h'
        rw [ih h h']
      · simp only [strLe, hab, Ne.symm hab, if_false, decide_eq_true_eq] at h h'
        omega

theorem strLe_trans {s t u : Str} (h : strLe s t = true) (h' : strLe t u = true) :
    strLe s u = true := by
  induction s generalizing t u with
  | nil => rfl
  | cons a s ih =>
    cases t with
    | nil => simp [strLe] at h
    | cons b t =>
      cases u with
      | nil => simp [strLe] at h'
      | cons c u =>
        by_cases hab : a = b
        · subst hab
          by_cases hac : a = c
          · subst hac
            simp only [strLe, if_true] at h h' ⊢
            exact ih h h'
          · simpa [strLe, hac] using h'
        · by_cases hbc : b = c
          · subst hbc
            simpa [strLe, hab] using h
          · have hlt : a.val < c.val := by
              simp only [strLe, hab, hbc, if_false, decide_eq_true_eq] at h h'
              omega
            have hac : a ≠ c := by
              intro he
              rw [he] at hlt
              omega
            simpa [strLe, hac] using hlt

namespace Json
variable {F : Type}

section Induction
set_option linter.unusedSectionVars false
variable {P : Json F → Prop} (null : P .null) (bool : ∀ b, P (.bool b)) (int : ∀ n, P (.int n))
  (float : ∀ x, P (.float x)) (str : ∀ s, P (.str s)) (arr : ∀ xs, (∀ x ∈ xs, P x) → P (.arr xs))
  (obj : ∀ m : Members F, (∀ kv ∈ m, P kv.2) → P (.obj m))
include null bool int float str arr obj

mutual
/-- Induction over a value through the elements and members inside it. -/
@[elab_as_elim]
theorem inside_induction : ∀ j : Json F, P j
  | .null => null
  | .bool b => bool b
  | .int n => int n
  | .float x => float x
  | .str s => str s
  | .arr xs => arr xs (inside_elems xs)
  | .obj m => obj m (inside_members m)

theorem inside_elems : ∀ xs : List (Json F), ∀ x ∈ xs, P x
  | [] => by simp
  | x :: xs => by
    intro y hy
    rcases List.mem_cons.mp hy with hy | hy
    · exact hy ▸ inside_induction x
    · exact inside_elems xs y hy

theorem inside_members : ∀ m : List (Str × Json F), ∀ kv ∈ m, P kv.2
  | [] => by simp
  | (k, v) :: m => by
    intro kv hkv
    rcases List.mem_cons.mp hkv with hkv | hkv
    · exact hkv ▸ inside_induction v
    · exact inside_members m kv hkv
end

end Induction

def keyLe (a b : Str × Json F) : Prop := strLe a.1 b.1 = true

instance : DecidableRel (keyLe (F := F)) := fun a b =>
  inferInstanceAs (Decidable (strLe a.1 b.1 = true))

mutual
/-- The value with the members of every object in key order, as `sort_keys` visits them. -/
def sorted : Json F → Json F
  | .arr xs => .arr (sortedElems xs)
  | .obj m => .obj ((sortedMembers m).insertionSort keyLe)
  | j => j

def sortedElems : List (Json F) → List (Json F)
  | [] => []
  | x :: xs => sorted x :: sortedElems xs

def sortedMembers : List (Str × Json F) → List (Str × Json F)
  | [] => []
  | (k, v) :: m => (k, sorted v) :: sortedMembers m
end

mutual
/-- How deep objects and arrays are nested. -/
def depth : Json F → Nat
  | .arr xs => depthElems xs + 1
  | .obj m => depthMembers m + 1
  | _ => 0

def depthElems : List (Json F) → Nat
  | [] => 0
  | x :: xs => max (depth x) (depthElems xs)

def depthMembers : List (Str × Json F) → Nat
  | [] => 0
  | (_, v) :: m => max (depth v) (depthMembers m)
end

theorem sortedElems_eq_map (xs : List (Json F)) : sortedElems xs = xs.map sorted := by
  induction xs with
  | nil => rfl
  | cons x xs ih => simp [sortedElems, ih]

theorem sortedMembers_eq_map (m : Members F) :
    sortedMembers m = m.map fun kv => (kv.1, sorted kv.2) := by
  induction m with
  | nil => rfl
  | cons kv m ih => simp [sortedMembers, ih]

theorem depthElems_le_iff {xs : List (Json F)} {n : Nat} :
    depthElems xs ≤ n ↔ ∀ x ∈ xs, depth x ≤ n := by
  induction xs with
  | nil => simp [depthElems]
  | cons x xs ih => simp [depthElems, ih]

theorem depthMembers_le_iff {m : Members F} {n : Nat} :
    depthMembers m ≤ n ↔ ∀ kv ∈ m, depth kv.2 ≤ n := by
  induction m with
  | nil => simp [depthMembers]
  | cons kv m ih => simp [depthMembers, ih]

theorem keys_sortedMembers (m : Members F) :
    Members.keys (sortedMembers m) = Members.keys m := by
  simp [sortedMembers_eq_map, Members.keys]

end Json

end Support
