import IsaCloud.Database.SqlText
import IsaCloud.Support.Dict
import IsaCloud.Support.DumpsRoundTrip
import IsaCloud.Support.JsonErrors

/-!
# Values that are stored and read again

A list or a dictionary is stored as JSON text, and text that looks like JSON is
read as JSON. So a string comes back as another value exactly when it is the text
of a list or an object. Between the two functions stands a column of the database,
which keeps what it is given.
-/

namespace IsaCloud.Database

set_option autoImplicit false

open Support Support.Text Support.Python Support.Encoding Support.Json

section Reading
variable {F : Type} [PyFloat F]

/-- `value.startswith("{") or value.startswith("[")`. -/
def looksLikeJson (s : Str) : Bool := decide (s.head? = some openBrace) || decide (s.head? = some openBracket)

/-- One value of a row; `nesting` is how deep `json.loads` can go. -/
def deserializeValue (nesting : Nat) : SqlValue F → Except PyError (SqlValue F)
  | .value (.str s) =>
    if looksLikeJson s then
      match loads nesting s with
      | .ok j => .ok (.value (.ofJson j))
      | .error e => if e.kind.isValueError then .ok (.value (.str s)) else .error e
    else .ok (.value (.str s))
  | v => .ok v

/-- The columns of the row after the first ones have gone into `result`. -/
def deserializeFrom (nesting : Nat) (result : Dict Str (SqlValue F)) :
    List (Str × SqlValue F) → Except PyError (Dict Str (SqlValue F))
  | [] => .ok result
  | (colName, value) :: rest =>
    match deserializeValue nesting value with
    | .error e => .error e
    | .ok value => deserializeFrom nesting (result.set colName value) rest

/-- `_deserialize_row`, for the columns of the description with their values. -/
def deserializeRow (nesting : Nat) (row : List (Str × SqlValue F)) : Except PyError (Dict Str (SqlValue F)) :=
  deserializeFrom nesting Dict.empty row

end Reading

/-- A value that SQLite takes as it is, or a list or dictionary of JSON values. -/
inductive Stored (F : Type) where
  | none
  | int (n : Int)
  | float (x : F)
  | str (s : Str)
  | bytes (b : Bytes)
  | list (xs : List (Json F))
  | dict (m : Members F)

namespace Stored
variable {F : Type}

def value : Stored F → SqlValue F
  | none => .value .none
  | int n => .value (.int n)
  | float x => .value (.float x)
  | str s => .value (.str s)
  | bytes b => .bytes b
  | list xs => .value (.ofJson (.arr xs))
  | dict m => .value (.ofJson (.obj m))

variable [PyFloat F]

/-- The value is read as it was written. -/
def Survives (nesting : Nat) : Stored F → Prop
  | float x => x ≠ PyFloat.nan
  | str s => looksLikeJson s = true → ∃ e, loads (F := F) nesting s = .error e ∧ e.kind.isValueError = true
  | list xs => WF (.arr xs) ∧ (Json.arr xs).depth ≤ nesting
  | dict m => WF (.obj m) ∧ (Json.obj m).depth ≤ nesting
  | _ => True

end Stored

/-- A column that keeps what it is given, except that it has no NaN. -/
structure KeepsValues {F : Type} [PyFloat F] (column : SqlValue F → Except PyError (SqlValue F)) : Prop where
  nan : ∀ w, column (.value (.float PyFloat.nan)) = .ok w → w = .value .none
  same : ∀ v w, v ≠ .value (.float PyFloat.nan) → column v = .ok w → w = v

section Writing
variable {F : Type} [PyFloat F] (column : SqlValue F → Except PyError (SqlValue F))

def storeValue (v : SqlValue F) : Except PyError (SqlValue F) :=
  match serializeValue v with
  | .error e => .error e
  | .ok bound => column bound

/-- What a row is stored as, column by column. -/
def storeRow : List (Str × Stored F) → Except PyError (List (Str × SqlValue F))
  | [] => .ok []
  | (colName, v) :: rest =>
    match storeValue column v.value with
    | .error e => .error e
    | .ok cell => (storeRow rest).map ((colName, cell) :: ·)

end Writing

/-! ## Text that looks like JSON -/

section Looks
variable {F : Type} [PyFloat F]

omit [PyFloat F] in
theorem scanObject_obj {value : Str → Scan (Json F)} {s r : Str} {j : Json F} (h : scanObject value s = .ok (j, r)) :
    ∃ m, j = .obj m := by
  unfold scanObject at h
  split at h
  · cases h
  · split at h
    · cases h
      exact ⟨[], rfl⟩
    · split at h
      · cases h
        exact ⟨_, rfl⟩
      · cases h

omit [PyFloat F] in
theorem scanArray_arr {value : Str → Scan (Json F)} {s r : Str} {j : Json F} (h : scanArray value s = .ok (j, r)) :
    ∃ xs, j = .arr xs := by
  unfold scanArray at h
  split at h
  · cases h
  · split at h
    · cases h
      exact ⟨[], rfl⟩
    · split at h
      · cases h
        exact ⟨_, rfl⟩
      · cases h

theorem looksLikeJson_cons {s : Str} (h : looksLikeJson s = true) :
    ∃ c rest, s = c :: rest ∧ (c = openBrace ∨ c = openBracket) := by
  rw [looksLikeJson, Bool.or_eq_true, decide_eq_true_eq, decide_eq_true_eq] at h
  cases s with
  | nil => rcases h with h | h <;> cases h
  | cons c rest => exact ⟨c, rest, rfl, h.imp Option.some.inj Option.some.inj⟩

/-- What is read from such text is never a string. -/
theorem loads_not_str {nesting : Nat} {s t : Str} (h : looksLikeJson s = true) :
    loads (F := F) nesting s ≠ .ok (.str t) := by
  obtain ⟨c, rest, rfl, hc⟩ := looksLikeJson_cons h
  have hspace : isJsonSpace c = false := by
    rcases hc with rfl | rfl
    · decide
    · decide
  have hquote : c ≠ quote := by
    rcases hc with rfl | rfl
    · decide
    · decide
  intro hloads
  unfold loads at hloads
  split at hloads
  · cases hloads
  rw [skipSpace_cons hspace] at hloads
  split at hloads
  · cases hloads
  rename_i v r hv
  split at hloads
  · cases hloads
    cases nesting with
    | zero =>
      rw [scanValue, scanValueWith, if_neg hquote] at hv
      rcases hc with rfl | rfl
      · cases hv
      · cases hv
    | succ nesting =>
      rw [scanValue, scanValueWith, if_neg hquote] at hv
      rcases hc with rfl | rfl
      · obtain ⟨m, hm⟩ := scanObject_obj hv
        cases hm
      · obtain ⟨xs, hxs⟩ := scanArray_arr hv
        cases hxs
  · cases hloads

end Looks

/-! ## JSON values as Python values -/

section Values
variable {F : Type}

theorem ofElems_injective {xs ys : List (Json F)}
    (hx : ∀ x ∈ xs, ∀ y : Json F, PyValue.ofJson x = PyValue.ofJson y → x = y)
    (h : PyValue.ofElems xs = PyValue.ofElems ys) : xs = ys := by
  induction xs generalizing ys with
  | nil =>
    cases ys with
    | nil => rfl
    | cons y ys => cases h
  | cons x xs ih =>
    cases ys with
    | nil => cases h
    | cons y ys =>
      obtain ⟨hhead, htail⟩ := List.cons.inj h
      rw [hx x List.mem_cons_self y hhead, ih (fun z hz => hx z (List.mem_cons_of_mem x hz)) htail]

theorem ofMembers_injective {m m' : Members F}
    (hx : ∀ kv ∈ m, ∀ y : Json F, PyValue.ofJson kv.2 = PyValue.ofJson y → kv.2 = y)
    (h : PyValue.ofMembers m = PyValue.ofMembers m') : m = m' := by
  induction m generalizing m' with
  | nil =>
    cases m' with
    | nil => rfl
    | cons kv m' => cases h
  | cons kv m ih =>
    cases m' with
    | nil => cases h
    | cons kv' m' =>
      obtain ⟨hhead, htail⟩ := List.cons.inj h
      obtain ⟨hkey, hvalue⟩ := Prod.mk.inj hhead
      have hkv : kv = kv' := Prod.ext hkey (hx kv List.mem_cons_self _ hvalue)
      rw [hkv, ih (fun z hz => hx z (List.mem_cons_of_mem kv hz)) htail]

theorem ofJson_injective {j j' : Json F} (h : PyValue.ofJson j = PyValue.ofJson j') : j = j' := by
  induction j using inside_induction generalizing j' with
  | null | bool b | int n | float x | str s =>
    cases j' <;> cases h
    rfl
  | arr xs ih =>
    cases j' with
    | arr ys => rw [ofElems_injective (fun x hx y hy => ih x hx hy) (PyValue.list.inj h)]
    | _ => cases h
  | obj m ih =>
    cases j' with
    | obj m' => rw [ofMembers_injective (fun kv hkv y hy => ih kv hkv hy) (PyValue.dict.inj h)]
    | _ => cases h

end Values

/-! ## One value -/

section Survival
variable {F : Type} [PyFloat F] [LawfulPyFloat F] {column : SqlValue F → Except PyError (SqlValue F)} {nesting : Nat}

omit [LawfulPyFloat F] in
theorem deserialize_str_iff {s : Str} :
    deserializeValue (F := F) nesting (.value (.str s)) = .ok (.value (.str s)) ↔ (Stored.str s).Survives (F := F) nesting := by
  rw [deserializeValue, Stored.Survives]
  by_cases hlooks : looksLikeJson s = true
  · rw [if_pos hlooks]
    cases hloads : loads (F := F) nesting s with
    | ok j =>
      apply iff_of_false
      · intro h
        have hj : PyValue.ofJson j = PyValue.ofJson (.str s) := SqlValue.value.inj (Except.ok.inj h)
        rw [ofJson_injective hj] at hloads
        exact loads_not_str hlooks hloads
      · intro h
        obtain ⟨e, he, -⟩ := h hlooks
        cases he
    | error e =>
      by_cases hkind : e.kind.isValueError = true
      · simp [hkind]
      · simp [hkind, hlooks]
  · simp [hlooks]

/-- A container whose text is `t`. -/
theorem deserialize_dumps_iff {j : Json F} {t : Str} (h : PyValue.dumps (.ofJson j) = .ok t)
    (hlooks : looksLikeJson t = true) (hcontainer : PyValue.ofJson j ≠ .str t) :
    deserializeValue nesting (.value (.str t)) = .ok (.value (.ofJson j)) ↔ WF j ∧ j.depth ≤ nesting := by
  rw [← PyValue.loads_dumps_iff h, deserializeValue, if_pos hlooks]
  cases hloads : loads (F := F) nesting t with
  | ok j' =>
    constructor
    · intro hsame
      rw [ofJson_injective (SqlValue.value.inj (Except.ok.inj hsame))]
    · intro hsame
      rw [Except.ok.inj hsame]
  | error e =>
    apply iff_of_false
    · intro hsame
      by_cases hkind : e.kind.isValueError = true
      · simp only [hkind, if_true] at hsame
        exact hcontainer (SqlValue.value.inj (Except.ok.inj hsame)).symm
      · simp [hkind] at hsame
    · intro hsame
      cases hsame

omit [LawfulPyFloat F] in
theorem storeValue_plain {v w : SqlValue F} (hc : KeepsValues column) (h : storeValue column v = .ok w)
    (hplain : serializeValue v = .ok v) (hnan : v ≠ .value (.float PyFloat.nan)) : w = v := by
  rw [storeValue, hplain] at h
  exact hc.same v w hnan h

omit [LawfulPyFloat F] in
/-- The text of a container is what its column holds. -/
theorem storeValue_text {v w : SqlValue F} (text : Except PyError Str) (hc : KeepsValues column)
    (hdumped : serializeValue v = text.map fun t => .value (.str t)) (h : storeValue column v = .ok w) :
    ∃ t, text = .ok t ∧ w = .value (.str t) := by
  rw [storeValue, hdumped] at h
  cases text with
  | error e => cases h
  | ok t => exact ⟨t, rfl, hc.same _ w (fun hfloat => nomatch hfloat) h⟩

omit [LawfulPyFloat F] in
theorem looksLikeJson_dumped {m : PyValue F} {t : Str} (h : PyValue.dumps m = .ok t)
    (hcontainer : (∃ xs, m = .list xs) ∨ ∃ ms, m = .dict ms) : looksLikeJson t = true := by
  rcases hcontainer with ⟨xs, rfl⟩ | ⟨ms, rfl⟩
  · rw [PyValue.dumps] at h
    cases hts : PyValue.dumpsElems xs with
    | error e =>
      rw [hts] at h
      cases h
    | ok ts =>
      rw [hts] at h
      cases h
      rfl
  · rw [PyValue.dumps] at h
    cases hts : PyValue.dumpsMembers ms with
    | error e =>
      rw [hts] at h
      cases h
    | ok ts =>
      rw [hts] at h
      cases h
      rfl

theorem stored_value_survives_iff (hc : KeepsValues column) {v : Stored F} {cell : SqlValue F}
    (h : storeValue column v.value = .ok cell) :
    deserializeValue nesting cell = .ok v.value ↔ v.Survives nesting := by
  cases v with
  | none =>
    rw [storeValue_plain hc h rfl (fun hfloat => nomatch hfloat)]
    exact iff_of_true rfl trivial
  | int n =>
    rw [storeValue_plain hc h rfl (fun hfloat => nomatch hfloat)]
    exact iff_of_true rfl trivial
  | bytes b =>
    rw [storeValue_plain hc h rfl (fun hfloat => nomatch hfloat)]
    exact iff_of_true rfl trivial
  | float x =>
    by_cases hnan : x = PyFloat.nan
    · subst hnan
      have hcell := hc.nan cell h
      subst hcell
      exact iff_of_false (fun hsame => nomatch hsame) (fun hkept => hkept rfl)
    · rw [storeValue_plain hc h rfl fun hfloat => hnan (PyValue.float.inj (SqlValue.value.inj hfloat))]
      exact iff_of_true rfl hnan
  | str s =>
    rw [storeValue_plain hc h rfl (fun hfloat => nomatch hfloat)]
    exact deserialize_str_iff
  | list xs =>
    obtain ⟨t, ht, rfl⟩ := storeValue_text (PyValue.dumps (.ofJson (.arr xs))) hc rfl h
    exact deserialize_dumps_iff ht (looksLikeJson_dumped ht (Or.inl ⟨_, rfl⟩)) (fun hstr => nomatch hstr)
  | dict m =>
    obtain ⟨t, ht, rfl⟩ := storeValue_text (PyValue.dumps (.ofJson (.obj m))) hc rfl h
    exact deserialize_dumps_iff ht (looksLikeJson_dumped ht (Or.inr ⟨_, rfl⟩)) (fun hstr => nomatch hstr)

/-! ## A row -/

omit [LawfulPyFloat F] in
theorem get_deserializeFrom {cells : List (Str × SqlValue F)} {result r : Dict Str (SqlValue F)}
    (h : deserializeFrom nesting result cells = .ok r) {k : Str} (hk : k ∉ cells.map Prod.fst) : r.get k = result.get k := by
  induction cells generalizing result with
  | nil =>
    cases h
    rfl
  | cons cell cells ih =>
    obtain ⟨hne, hrest⟩ := List.ne_and_not_mem_of_not_mem_cons hk
    rw [deserializeFrom] at h
    split at h
    · cases h
    · rw [ih h hrest, Dict.get_set_of_ne _ _ hne]

omit [LawfulPyFloat F] in
theorem storeRow_cons_ok {colName : Str} {v : Stored F} {row : List (Str × Stored F)} {cells : List (Str × SqlValue F)}
    (h : storeRow column ((colName, v) :: row) = .ok cells) :
    ∃ cell rest, storeValue column v.value = .ok cell ∧ storeRow column row = .ok rest ∧
      cells = (colName, cell) :: rest := by
  rw [storeRow] at h
  split at h
  · cases h
  · rename_i cell hcell
    cases hrest : storeRow column row with
    | error e =>
      rw [hrest] at h
      cases h
    | ok rest =>
      rw [hrest] at h
      exact ⟨cell, rest, hcell, rfl, (Except.ok.inj h).symm⟩

omit [LawfulPyFloat F] in
theorem keys_storeRow {row : List (Str × Stored F)} {cells : List (Str × SqlValue F)}
    (h : storeRow column row = .ok cells) : cells.map Prod.fst = row.map Prod.fst := by
  induction row generalizing cells with
  | nil =>
    cases h
    rfl
  | cons kv row ih =>
    obtain ⟨cell, rest, -, hrest, rfl⟩ := storeRow_cons_ok h
    rw [List.map_cons, List.map_cons, ih hrest]

/-- The columns are read one after the other; a column is not written again. -/
theorem deserializeFrom_iff (hc : KeepsValues column) {row : List (Str × Stored F)} {cells : List (Str × SqlValue F)}
    (h : storeRow column row = .ok cells) (hnames : (row.map Prod.fst).Nodup) (result : Dict Str (SqlValue F)) :
    (∃ r, deserializeFrom nesting result cells = .ok r ∧ ∀ kv ∈ row, r.get kv.1 = some kv.2.value) ↔
      ∀ kv ∈ row, kv.2.Survives nesting := by
  induction row generalizing cells result with
  | nil =>
    cases h
    exact iff_of_true ⟨result, rfl, fun kv hkv => nomatch hkv⟩ (fun kv hkv => nomatch hkv)
  | cons kv row ih =>
    obtain ⟨cell, rest, hcell, hrest, rfl⟩ := storeRow_cons_ok h
    obtain ⟨hfresh, hnames⟩ := List.nodup_cons.mp hnames
    have hkeys := keys_storeRow hrest
    rw [List.forall_mem_cons, ← stored_value_survives_iff hc hcell]
    cases hread : deserializeValue nesting cell with
    | error e =>
      simp [deserializeFrom, hread]
    | ok value =>
      have hnext : deserializeFrom nesting result ((kv.1, cell) :: rest) =
          deserializeFrom nesting (result.set kv.1 value) rest := by
        rw [deserializeFrom, hread]
      have hfirst : ∀ {r}, deserializeFrom nesting (result.set kv.1 value) rest = .ok r → r.get kv.1 = some value := by
        intro r hr
        rw [get_deserializeFrom hr (hkeys ▸ hfresh), Dict.get_set_self]
      rw [hnext, ← ih hrest hnames (result.set kv.1 value)]
      constructor
      · rintro ⟨r, hr, hall⟩
        have hhead := hall kv List.mem_cons_self
        rw [hfirst hr] at hhead
        exact ⟨congrArg Except.ok (Option.some.inj hhead), r, hr, fun kv' hkv' => hall kv' (List.mem_cons_of_mem kv hkv')⟩
      · rintro ⟨hvalue, r, hr, hall⟩
        refine ⟨r, hr, ?_⟩
        intro kv' hkv'
        rcases List.mem_cons.mp hkv' with rfl | hlater
        · rw [hfirst hr, Except.ok.inj hvalue]
        · exact hall kv' hlater

theorem row_reads_back_iff (hc : KeepsValues column) {row : List (Str × Stored F)} {cells : List (Str × SqlValue F)}
    (hnames : (row.map Prod.fst).Nodup) (h : storeRow column row = .ok cells) :
    (∃ r, deserializeRow nesting cells = .ok r ∧ ∀ kv ∈ row, r.get kv.1 = some kv.2.value) ↔
      ∀ kv ∈ row, kv.2.Survives nesting :=
  deserializeFrom_iff hc h hnames Dict.empty

end Survival

/-! ## A note -/

/-- A column of numbers without NaN, of texts and of bytes. -/
def plainColumn (v : SqlValue Unit) : Except PyError (SqlValue Unit) :=
  match v with
  | .value (.float _) => .ok (.value .none)
  | v => .ok v

theorem plainColumn_keepsValues : KeepsValues plainColumn where
  nan w h := (Except.ok.inj h).symm
  same v w hv h := by
    unfold plainColumn at h
    split at h
    · exact absurd rfl hv
    · exact (Except.ok.inj h).symm

def note (text : String) : List (Str × Stored Unit) :=
  [(lit "note", .str (lit text)), (lit "tags", .list [.bool true, .str (lit "a")])]

theorem plain_note_reads_back :
    ∃ cells r, storeRow plainColumn (note "see [1]") = .ok cells ∧ deserializeRow 10 cells = .ok r ∧
      ∀ kv ∈ note "see [1]", r.get kv.1 = some kv.2.value := by
  have hnames : ((note "see [1]").map Prod.fst).Nodup := by decide
  have hsurvive : ∀ kv ∈ note "see [1]", kv.2.Survives 10 := by
    intro kv hkv
    rcases List.mem_cons.mp hkv with rfl | hkv
    · intro hlooks
      exact absurd hlooks (by decide)
    · rw [List.mem_singleton.mp hkv]
      exact ⟨⟨trivial, rfl, trivial⟩, by decide⟩
  obtain ⟨r, hr, hall⟩ := (row_reads_back_iff plainColumn_keepsValues hnames rfl).mpr hsurvive
  exact ⟨_, r, rfl, hr, hall⟩

/-- The text `[1]` is read as a list. -/
theorem bracketed_note_read_as_list :
    ∃ cells r, storeRow plainColumn [(lit "note", .str (lit "[1]"))] = .ok cells ∧ deserializeRow 10 cells = .ok r ∧
      r.get (lit "note") = some (.value (.list [.int 1])) :=
  ⟨_, _, rfl, rfl, rfl⟩

end IsaCloud.Database
