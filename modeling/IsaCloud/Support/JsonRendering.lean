import IsaCloud.Support.Encoding
import IsaCloud.Support.JsonOrder
import IsaCloud.Support.JsonRoundTrip

/-!
# Renderings of a value

The bytes in which a value can arrive: its members in any order, with any white
space and any escapes, encoded as UTF-8. All of them read back as the value, up
to the order of the members.
-/

namespace Support.Json

set_option autoImplicit false

open Text Python Encoding

/-! ## Values with one sorted form -/

section Sorted
variable {F : Type}

theorem wf_of_sorted (j : Json F) (h : WF j.sorted) : WF j := by
  induction j using inside_induction with
  | null | bool | int | float | str => exact h
  | arr xs ih =>
    rw [sorted, sortedElems_eq_map] at h
    refine wfElems_iff.mpr fun x hx => ?_
    exact ih x hx (wfElems_iff.mp h x.sorted (List.mem_map_of_mem hx))
  | obj m ih =>
    obtain ⟨hnodup, hwf⟩ := h
    have hp := (sortedMembers m).perm_insertionSort keyLe
    refine ⟨?_, wfMembers_iff.mpr fun kv hkv => ?_⟩
    · have hkeys := (hp.map Prod.fst).nodup_iff.mp hnodup
      rw [← Members.keys, keys_sortedMembers] at hkeys
      exact hkeys
    · have hmem : (kv.1, kv.2.sorted) ∈ (sortedMembers m).insertionSort keyLe := by
        rw [hp.mem_iff, sortedMembers_eq_map]
        exact List.mem_map_of_mem hkv
      obtain ⟨hkey, hval⟩ := wfMembers_iff.mp hwf _ hmem
      exact ⟨hkey, ih kv hkv hval⟩

theorem wf_of_sorted_eq {j j' : Json F} (h : j'.sorted = j.sorted) (hj : WF j) : WF j' :=
  wf_of_sorted j' (h ▸ wf_sorted hj)

/-- What has the sorted form of an object is an object. -/
theorem obj_of_sorted_eq {j : Json F} {m : Members F} (h : j.sorted = (Json.obj m).sorted) : ∃ m', j = .obj m' := by
  cases j with
  | obj m' => exact ⟨m', rfl⟩
  | _ => cases h

end Sorted

/-! ## Bytes -/

theorem byte_ne_zero {n : Nat} (h : 0 < n) (hn : n < 256) : byte n ≠ 0 := by
  intro he
  have := congrArg Fin.val he
  rw [byte_val hn] at this
  exact absurd this (by simpa using Nat.ne_of_gt h)

/-- The characters that the text of an object can start with. -/
def opens (c : CodePoint) : Bool := isJsonSpace c || decide (c = openBrace)

theorem opens_val {c : CodePoint} (h : opens c = true) : c.val = 9 ∨ c.val = 10 ∨ c.val = 13 ∨ c.val = 32 ∨
    c.val = 123 := by
  rw [opens, Bool.or_eq_true, decide_eq_true_eq] at h
  rcases h with h | rfl
  · simp only [isJsonSpace, Bool.or_eq_true, beq_iff_eq] at h
    omega
  · exact .inr (.inr (.inr (.inr (by decide))))

theorem detectEncoding_opens {n : Nat} (hn : n = 9 ∨ n = 10 ∨ n = 13 ∨ n = 32 ∨ n = 123) {b : Byte} (hb : b ≠ 0)
    (rest : Bytes) : detectEncoding (byte n :: b :: rest) = (.utf8, 0) := by
  match rest with
  | [] =>
    have hif : detectEncoding [byte n, b] = if b = 0 then (.utf16 false, 0) else (.utf8, 0) := by
      rcases hn with rfl | rfl | rfl | rfl | rfl <;> rfl
    rw [hif, if_neg hb]
  | [c] => rcases hn with rfl | rfl | rfl | rfl | rfl <;> rfl
  | c :: d :: rest =>
    have hif : detectEncoding (byte n :: b :: c :: d :: rest) =
        if b = 0 then (if c = 0 ∧ d = 0 then .utf32 false else .utf16 false, 0) else (.utf8, 0) := by
      rcases hn with rfl | rfl | rfl | rfl | rfl <;> rfl
    rw [hif, if_neg hb]

/-- Text that starts like an object and has no zero character behind that is decoded as it was encoded. -/
theorem decodeBody_of_encode {c d : CodePoint} {s : Str} {raw : Bytes} (hc : opens c = true) (hd : 0 < d.val)
    (h : utf8Encode (c :: d :: s) = .ok raw) : decodeBody raw = .ok (c :: d :: s) := by
  have hval := opens_val hc
  have hdecode := utf8Decode_of_encode h true
  obtain ⟨b, bs, hb, hb0⟩ : ∃ b bs, encodePoint d = b :: bs ∧ b ≠ 0 := by
    have hmax := d.isLt
    unfold encodePoint
    split
    · exact ⟨_, _, rfl, byte_ne_zero hd (by omega)⟩
    · split
      · exact ⟨_, _, rfl, byte_ne_zero (by omega) (by omega)⟩
      · split
        · exact ⟨_, _, rfl, byte_ne_zero (by omega) (by omega)⟩
        · exact ⟨_, _, rfl, byte_ne_zero (by omega) (by omega)⟩
  have hraw : raw = byte c.val :: b :: (bs ++ s.flatMap encodePoint) := by
    have hsmall : c.val < 0x80 := by omega
    unfold utf8Encode at h
    split at h
    · cases h
    · rw [← Except.ok.inj h, List.flatMap_cons, List.flatMap_cons, hb, encodePoint, if_pos hsmall]
      rfl
  rw [decodeBody, hraw, detectEncoding_opens hval hb0, ← hraw]
  exact hdecode

/-! ## Documents -/

section Documents
variable {F : Type} [PyFloat F]

/-- The bytes are a JSON text of the value, with its members in some order. -/
def Renders (j : Json F) (raw : Bytes) : Prop :=
  ∃ j' text, j'.sorted = j.sorted ∧ Spelling j' text ∧ utf8Encode text = .ok raw

theorem renders_compact [LawfulPyFloat F] (j : Json F) : Renders j ((compact j).flatMap encodePoint) :=
  ⟨j, compact j, rfl, spelling_of_spells (spells_compact j),
    utf8Encode_ascii (ascii_of_printable (printable_compact j))⟩

theorem renders_indented [LawfulPyFloat F] (j : Json F) :
    Renders j ((indented 0 (sorted j)).flatMap encodePoint) :=
  ⟨sorted j, indented 0 (sorted j), sorted_idem j, spelling_of_spells (spells_indented (sorted j) 0),
    utf8Encode_ascii (ascii_indented (sorted j) 0)⟩

/-- The text of an object starts with two characters that no UTF-16 or UTF-32 text starts with. -/
theorem spelling_head {kv : Str × Json F} {m : Members F} {text : Str} (h : Spelling (.obj (kv :: m)) text) :
    ∃ c d s, text = c :: d :: s ∧ opens c = true ∧ 0 < d.val := by
  obtain ⟨w, t, w', hw, ht, -, rfl⟩ := h
  obtain ⟨k, x⟩ := kv
  obtain ⟨v, y, u, z, hv, -, ⟨q, _, _, ⟨r, -, rfl⟩, -, -, rfl⟩, -, rfl⟩ := ht
  have hspace : ∀ {c : CodePoint}, isJsonSpace c = true → opens c = true ∧ 0 < c.val := by
    intro c hc
    have hopens : opens c = true := by rw [opens, hc, Bool.true_or]
    have := opens_val hopens
    exact ⟨hopens, by omega⟩
  have hbrace : opens openBrace = true ∧ 0 < openBrace.val := by decide
  obtain _ | ⟨a, w⟩ := w
  · obtain _ | ⟨b, v⟩ := v
    · exact ⟨openBrace, quote, _, rfl, hbrace.1, by decide⟩
    · exact ⟨openBrace, b, _, rfl, hbrace.1, (hspace (hv b List.mem_cons_self)).2⟩
  · have ha := hspace (hw a List.mem_cons_self)
    obtain _ | ⟨b, w⟩ := w
    · exact ⟨a, openBrace, _, rfl, ha.1, hbrace.2⟩
    · exact ⟨a, b, _, rfl, ha.1, (hspace (hw b (by simp))).2⟩

/-- Every rendering of an object reads back as the object, its members in some order. -/
theorem loads_of_renders [LawfulPyFloat F] {m : Members F} (hne : m ≠ []) (hwf : WF (.obj m)) {limit : Nat}
    (hd : (Json.obj m).depth ≤ limit) {raw : Bytes} (h : Renders (.obj m) raw) :
    ∃ m' text, decodeBody raw = .ok text ∧ loads limit text = .ok (.obj m') ∧
      (Json.obj m').sorted = (Json.obj m).sorted ∧ WF (.obj m') := by
  obtain ⟨j', text, hs, htext, henc⟩ := h
  obtain ⟨m', rfl⟩ := obj_of_sorted_eq hs
  have hwf' := wf_of_sorted_eq hs hwf
  have hd' : (Json.obj m').depth ≤ limit := by
    rw [← depth_sorted, hs, depth_sorted]
    exact hd
  obtain ⟨kv, n, hn⟩ : ∃ kv n, m' = kv :: n := by
    have hlen := (keys_perm_of_sorted_eq hs).length_eq
    rw [Members.keys, Members.keys, List.length_map, List.length_map] at hlen
    refine List.exists_cons_of_ne_nil ?_
    rintro rfl
    exact hne (List.length_eq_zero_iff.mp hlen.symm)
  rw [hn] at htext
  obtain ⟨c, d, s, rfl, hc, hd0⟩ := spelling_head htext
  refine ⟨m', _, decodeBody_of_encode hc hd0 henc, ?_, hs, hwf'⟩
  exact loads_spelling hwf' hd' (hn ▸ htext)

end Documents

end Support.Json
