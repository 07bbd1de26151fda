import IsaCloud.Fleet.Intake
import IsaCloud.License.Sign
import IsaCloud.Support.JsonInjective

/-!
# What the signed bytes say

The bytes under a signature, of a license or of telemetry, determine the fields they were
made from: no edit but a new order or layout leaves them as they are. The one exception is
a surrogate pair kept as two code points, which is signed as the character it encodes.
-/

namespace IsaCloud.Fleet

set_option autoImplicit false

open Support Support.Text Support.Python Support.Encoding Support.Json License

section Fields
variable {F : Type}

/-- The members as pairs of a key and a value that no order and no split pair tells apart. -/
def fieldsOf (m : Members F) : List (Str × Json F) :=
  m.map fun kv => (joinPairs kv.1, rejoined kv.2.sorted)

/-- The same fields one by one; under the very same keys, and with the same values, where there
are no split pairs. -/
structure Agree (a b : Members F) : Prop where
  fields : (fieldsOf a).Perm (fieldsOf b)
  exact : Unsplit (.obj a) → Unsplit (.obj b) → ∀ k, (a.get k).map Json.sorted = (b.get k).map Json.sorted

theorem nodup_without {a : Members F} (ha : a.keys.Nodup) (key : Str) : (a.without key).keys.Nodup :=
  ha.sublist (List.filter_sublist.map _)

theorem fieldsOf_sorted (m : Members F) :
    (rejoinedMembers ((sortedMembers m).insertionSort keyLe)).Perm (fieldsOf m) := by
  have hperm := (List.perm_insertionSort keyLe (sortedMembers m)).map
    fun kv => (joinPairs kv.1, rejoined kv.2)
  rw [← rejoinedMembers_eq_map] at hperm
  refine hperm.trans (List.Perm.of_eq ?_)
  rw [sortedMembers_eq_map, List.map_map]
  rfl

theorem agree_of_rejoined_eq {a b : Members F} (ha : a.keys.Nodup)
    (h : rejoined (Json.obj a).sorted = rejoined (Json.obj b).sorted) : Agree a b := by
  refine ⟨?_, fun hua hub k => ?_⟩
  · have hmembers : rejoinedMembers ((sortedMembers a).insertionSort keyLe) =
        rejoinedMembers ((sortedMembers b).insertionSort keyLe) := Json.obj.inj h
    exact (fieldsOf_sorted a).symm.trans (hmembers ▸ fieldsOf_sorted b)
  · rw [rejoined_of_unsplit _ (unsplit_sorted _ hua), rejoined_of_unsplit _ (unsplit_sorted _ hub)] at h
    exact get_of_sorted_eq ha h k

end Fields

section Signed
variable {F : Type} [PyFloat F]

/-- `json.dumps(m, sort_keys=True, separators=(",", ":")).encode("utf-8")`. -/
def canonicalBytes (m : Members F) : Except PyError Bytes :=
  match Json.dumpsCanonical (.obj m) with
  | .error e => .error e
  | .ok text => utf8Encode text

theorem license_canonicalBody_eq (m : Members F) :
    License.canonicalBody m = canonicalBytes (m.without signatureField) := by
  unfold License.canonicalBody canonicalBytes
  cases dumpsCanonical (.obj (m.without signatureField)) <;> rfl

theorem signer_canonicalBody_eq (m : Members F) :
    Signer.canonicalBody m = canonicalBytes (m.without signatureField) := by
  unfold Signer.canonicalBody canonicalBytes
  cases dumpsCanonical (.obj (m.without signatureField)) <;> rfl

theorem canonicalBytes_ok {m : Members F} {bytes : Bytes} (h : canonicalBytes m = .ok bytes) :
    intsFit (.obj m) = true ∧ utf8Encode (canonical (.obj m)) = .ok bytes := by
  unfold canonicalBytes dumpsCanonical at h
  by_cases hfit : intsFit (.obj m) = true
  · rw [if_pos hfit] at h
    exact ⟨hfit, h⟩
  · rw [if_neg hfit] at h
    cases h

variable [LawfulPyFloat F]

theorem agree_of_bytes_eq {a b : Members F} (ha : a.keys.Nodup) {bytes : Bytes}
    (h : canonicalBytes a = .ok bytes) (h' : canonicalBytes b = .ok bytes) : Agree a b := by
  obtain ⟨hfit, hencode⟩ := canonicalBytes_ok h
  obtain ⟨hfit', hencode'⟩ := canonicalBytes_ok h'
  exact agree_of_rejoined_eq ha (rejoined_of_canonical_eq hfit hfit' (utf8Encode_injective hencode hencode'))

/-- Whoever signs or verifies, the same bytes stand for the same fields. -/
theorem signed_bytes_tamper_evident {a b : Members F} (ha : a.keys.Nodup) (bytes : Bytes) :
    (License.canonicalBody a = .ok bytes → License.canonicalBody b = .ok bytes →
      Agree (a.without signatureField) (b.without signatureField)) ∧
    (Signer.canonicalBody a = .ok bytes → Signer.canonicalBody b = .ok bytes →
      Agree (a.without signatureField) (b.without signatureField)) ∧
    (canonicalPayloadBytes a = .ok bytes → canonicalPayloadBytes b = .ok bytes → Agree a b) := by
  have hwithout := nodup_without ha signatureField
  refine ⟨fun h h' => ?_, fun h h' => ?_, agree_of_bytes_eq ha⟩
  · rw [license_canonicalBody_eq] at h h'
    exact agree_of_bytes_eq hwithout h h'
  · rw [signer_canonicalBody_eq] at h h'
    exact agree_of_bytes_eq hwithout h h'

end Signed

/-! ## A pair of surrogates -/

section Examples

/-- A customer named by one character of the supplementary planes. -/
def smiling : Members Unit := [(lit "customer_id", .str [0x1f600])]

/-- The same with the two surrogates of that character as code points of their own. -/
def smilingApart : Members Unit := [(lit "customer_id", .str [0xd83d, 0xde00])]

/-- The body of a request in which the surrogates are encoded one by one. -/
def smilingApartRaw : Bytes :=
  (lit "\x7b\"customer_id\": \"").flatMap encodePoint ++ [0xed, 0xa0, 0xbd, 0xed, 0xb8, 0x80] ++
    (lit "\"\x7d").flatMap encodePoint

def customerOf : Json Unit → Option Str
  | .obj m =>
    match Members.get m (lit "customer_id") with
    | some (.str s) => some s
    | _ => none
  | _ => none

/-- The two objects have the same bytes and different customers; intake parses the second. -/
theorem surrogates_unseen : ∃ bytes,
    License.canonicalBody smiling = .ok bytes ∧ License.canonicalBody smilingApart = .ok bytes ∧
    Signer.canonicalBody smiling = .ok bytes ∧ Signer.canonicalBody smilingApart = .ok bytes ∧
    canonicalPayloadBytes smiling = .ok bytes ∧ canonicalPayloadBytes smilingApart = .ok bytes ∧
    (loadsBytes 10 smilingApartRaw).map customerOf = .ok (some [0xd83d, 0xde00]) ∧
    (smiling.get (lit "customer_id")).map Json.sorted ≠ (smilingApart.get (lit "customer_id")).map Json.sorted := by
  refine ⟨(canonical (.obj smiling)).flatMap encodePoint, ?_, ?_, ?_, ?_, ?_, ?_, ?_, ?_⟩
  · decide
  · decide
  · decide
  · decide
  · decide
  · decide
  · decide +kernel
  · intro h
    have h : (Json.str [0x1f600] : Json Unit) = .str [0xd83d, 0xde00] := Option.some.inj h
    exact absurd (Json.str.inj h) (by decide)

def seatsLast : Members Unit :=
  [(lit "edition", .str (lit "saas")), (lit "seats", .int 5), (lit "signature", .str [])]

def seatsFirst : Members Unit := [(lit "seats", .int 5), (lit "edition", .str (lit "saas"))]

/-- A license and its unsigned body in another order have the same bytes and the same fields. -/
theorem reordered_agrees : ∃ bytes,
    License.canonicalBody seatsLast = .ok bytes ∧ License.canonicalBody seatsFirst = .ok bytes ∧
    Agree (seatsLast.without signatureField) (seatsFirst.without signatureField) := by
  have hnodup : seatsLast.keys.Nodup := by decide
  obtain ⟨bytes, hbytes⟩ : ∃ bytes, License.canonicalBody seatsFirst = .ok bytes :=
    ⟨(canonical (.obj seatsFirst)).flatMap encodePoint, by decide +kernel⟩
  have hsame : License.canonicalBody seatsLast = License.canonicalBody seatsFirst := by decide
  exact ⟨bytes, hsame.trans hbytes, hbytes,
    (signed_bytes_tamper_evident hnodup bytes).1 (hsame.trans hbytes) hbytes⟩

end Examples

end IsaCloud.Fleet
