import IsaCloud.Database.StoredValues
import IsaCloud.Support.JsonInjective

/-!
# Payloads in the Chroma client

Chroma keeps strings, numbers and booleans only, so `_flatten_payload` writes lists
and dictionaries as JSON and `None` as the empty string, and `_unflatten_payload`
reads every string that begins like JSON as JSON. How deep `json.loads` can go is a
parameter.
-/

namespace IsaCloud.Vector

set_option autoImplicit false

open Support Support.Text Support.Python Support.Json Database

/-- JSON values, as the callers know them. -/
abbrev JsonPayload (F : Type) := Dict Str (Json F)

section Payloads
variable {F : Type} [PyFloat F]

def flattenValue : Json F → Except PyError (Json F)
  | .arr xs => (PyValue.dumps (.ofJson (.arr xs))).map .str
  | .obj m => (PyValue.dumps (.ofJson (.obj m))).map .str
  | .null => .ok (.str [])
  | value => .ok value

def flattenPayload (payload : JsonPayload F) : Except PyError (JsonPayload F) := payload.mapValues flattenValue

def unflattenValue (nesting : Nat) : Json F → Except PyError (Json F)
  | .str s =>
    if looksLikeJson s then
      match loads nesting s with
      | .ok j => .ok j
      | .error e => if e.kind.isValueError then .ok (.str s) else .error e
    else .ok (.str s)
  | value => .ok value

def unflattenPayload (nesting : Nat) (metadata : JsonPayload F) : Except PyError (JsonPayload F) :=
  metadata.mapValues (unflattenValue nesting)

/-- The value comes back: not `None`, no string that reads as JSON, and lists and dictionaries only
where `json.loads` undoes `json.dumps`. -/
def Kept (nesting : Nat) : Json F → Prop
  | .null => False
  | .str s => looksLikeJson s = true → ∃ e, loads (F := F) nesting s = .error e ∧ e.kind.isValueError = true
  | .arr xs => WF (.arr xs) ∧ (Json.arr xs).depth ≤ nesting
  | .obj m => WF (.obj m) ∧ (Json.obj m).depth ≤ nesting
  | _ => True

variable {nesting : Nat}

theorem unflatten_str_iff {s : Str} :
    unflattenValue (F := F) nesting (.str s) = .ok (.str s) ↔ Kept (F := F) nesting (.str s) := by
  rw [unflattenValue, Kept]
  by_cases hlooks : looksLikeJson s = true
  · rw [if_pos hlooks]
    cases hloads : loads (F := F) nesting s with
    | ok j =>
      apply iff_of_false
      · intro h
        rw [Except.ok.inj h] at hloads
        exact loads_not_str hlooks hloads
      · intro h
        obtain ⟨e, he, -⟩ := h hlooks
        cases he
    | error e =>
      by_cases hkind : e.kind.isValueError = true
      · simp [hkind]
      · simp [hkind, hlooks]
  · simp [hlooks]

variable [LawfulPyFloat F]

/-- A list or dictionary that is written as JSON. -/
theorem container_kept_iff {j : Json F} (hcontainer : isContainer j = true) :
    (∃ t, PyValue.dumps (.ofJson j) = .ok t ∧ unflattenValue nesting (.str t) = .ok j) ↔ WF j ∧ j.depth ≤ nesting := by
  constructor
  · rintro ⟨t, ht, hback⟩
    refine (PyValue.loads_dumps_iff ht).mp ?_
    rw [unflattenValue] at hback
    split at hback
    · split at hback
      · rename_i j' hj'
        rw [hj', hback]
      · split at hback
        · rw [← Except.ok.inj hback] at hcontainer
          cases hcontainer
        · cases hback
    · rw [← Except.ok.inj hback] at hcontainer
      cases hcontainer
  · intro h
    obtain ⟨t, ht⟩ := PyValue.dumps_ok j (intsFit_of_wf j h.1)
    have hlooks : looksLikeJson t = true := by
      apply looksLikeJson_dumped ht
      cases j with
      | arr xs => exact Or.inl ⟨_, rfl⟩
      | obj m => exact Or.inr ⟨_, rfl⟩
      | _ => cases hcontainer
    exact ⟨t, ht, by rw [unflattenValue, if_pos hlooks, (PyValue.loads_dumps_iff ht).mpr h]⟩

theorem value_kept_iff (v : Json F) :
    (∃ w, flattenValue v = .ok w ∧ unflattenValue nesting w = .ok v) ↔ Kept nesting v := by
  have htext : ∀ {j : Json F}, (∃ w, (PyValue.dumps (.ofJson j)).map Json.str = .ok w ∧ unflattenValue nesting w = .ok j) ↔
      ∃ t, PyValue.dumps (.ofJson j) = .ok t ∧ unflattenValue nesting (.str t) = .ok j := by
    intro j
    cases PyValue.dumps (PyValue.ofJson j) with
    | error e => simp [Except.map]
    | ok t => simp [Except.map]
  cases v with
  | arr xs => exact htext.trans (container_kept_iff rfl)
  | obj m => exact htext.trans (container_kept_iff rfl)
  | null =>
    refine iff_of_false ?_ id
    rintro ⟨w, hw, hback⟩
    cases hw
    cases hback
  | str s =>
    rw [← unflatten_str_iff]
    exact ⟨fun ⟨w, hw, hback⟩ => by cases hw; exact hback, fun h => ⟨_, rfl, h⟩⟩
  | bool b => exact iff_of_true ⟨_, rfl, rfl⟩ trivial
  | int n => exact iff_of_true ⟨_, rfl, rfl⟩ trivial
  | float x => exact iff_of_true ⟨_, rfl, rfl⟩ trivial

/-- A payload comes back exactly when each of its values does. -/
theorem payload_reads_back_iff (payload : JsonPayload F) :
    (∃ metadata, flattenPayload payload = .ok metadata ∧ unflattenPayload nesting metadata = .ok payload) ↔
      ∀ kv ∈ payload.entries, Kept nesting kv.2 := by
  refine Dict.mapValues_back_iff.trans ?_
  simp only [value_kept_iff]

end Payloads

/-! ## Two notes -/

def taggedNote : JsonPayload Unit :=
  (Dict.empty.set (lit "note") (.str (lit "see [1]"))).set (lit "tags") (.arr [.bool true, .str (lit "a")])

theorem tagged_note_reads_back :
    ∃ metadata, flattenPayload taggedNote = .ok metadata ∧ unflattenPayload 900 metadata = .ok taggedNote := by
  apply (payload_reads_back_iff taggedNote).mpr
  have hentries : taggedNote.entries =
      [(lit "note", .str (lit "see [1]")), (lit "tags", .arr [.bool true, .str (lit "a")])] := rfl
  rw [hentries, List.forall_mem_cons, List.forall_mem_singleton]
  refine ⟨?_, ⟨trivial, rfl, trivial⟩, by decide⟩
  intro hlooks
  exact absurd hlooks (by decide)

def parentless : JsonPayload Unit := Dict.empty.set (lit "parent") .null

theorem none_reads_back_empty :
    ¬ ∃ metadata, flattenPayload parentless = .ok metadata ∧ unflattenPayload 900 metadata = .ok parentless := by
  rintro ⟨metadata, hflat, hback⟩
  have hstored : flattenPayload parentless = .ok (Dict.empty.set (lit "parent") (.str [])) := rfl
  obtain rfl := Except.ok.inj (hstored.symm.trans hflat)
  have hread : unflattenPayload 900 (Dict.empty.set (lit "parent") (.str [])) =
      (.ok (Dict.empty.set (lit "parent") (.str [])) : Except PyError (JsonPayload Unit)) := rfl
  have hsame := congrArg (fun d : JsonPayload Unit => d.get (lit "parent")) (Except.ok.inj (hread.symm.trans hback))
  cases hsame

end IsaCloud.Vector
