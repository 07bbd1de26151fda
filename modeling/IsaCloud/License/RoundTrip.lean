import IsaCloud.License.Config
import IsaCloud.License.Sign
import IsaCloud.License.Verdicts
import IsaCloud.Support.JsonJoin
import IsaCloud.Support.JsonLineEnds

/-!
# The signer and the loader agree

What `sign_license` signs is what the loader reconstructs from the license file,
however the file is laid out: the loader's object is the signed one up to the
order of members, and both canonical bodies are the text of the sorted form.
-/

namespace IsaCloud.License

set_option autoImplicit false

open Support Support.Text Support.Python Support.DateTime Support.IsoTime Support.Encoding
  Support.Base64 Support.Json

/-- A key pair as the cryptography package makes it: the PEM of the public half
loads back, and its own signatures verify. -/
structure LawfulKey [Cryptography] (key : Cryptography.PrivateKey) : Prop where
  pem_ne : Cryptography.publicPem (Cryptography.publicKey key) ≠ []
  pem_loads : ∃ bytes, utf8Encode (Cryptography.publicPem (Cryptography.publicKey key)) = .ok bytes ∧
    Cryptography.loadPemPublicKey bytes = .ok (some (Cryptography.publicKey key))
  verifies : ∀ message, Cryptography.verify (Cryptography.publicKey key)
    (Cryptography.sign key message) message = true
  sign_ne : ∀ message, Cryptography.sign key message ≠ []

section Files
variable {F : Type} [PyFloat F]

theorem canonicalBody_of_sorted {obj obj' : Members F} (hwf : WF (.obj obj)) (hwf' : WF (.obj obj'))
    (h : (Json.obj obj).sorted = (Json.obj obj').sorted) : canonicalBody obj = canonicalBody obj' := by
  rw [canonicalBody_of_wf hwf, canonicalBody_of_wf hwf', canonical, canonical,
    sorted_without hwf.1 h]

variable [LawfulPyFloat F]

theorem spelling_unique {j j' : Json F} (hj : WF j) (hj' : WF j') {text : Str}
    (h : Spelling j text) (h' : Spelling j' text) : j' = j := by
  have h1 := loads_spelling hj (Nat.le_max_left j.depth j'.depth) h
  have h2 := loads_spelling hj' (Nat.le_max_right j.depth j'.depth) h'
  rw [h1] at h2
  exact (Except.ok.inj h2).symm

/-- Any layout of an object in a license file is read as the object. -/
theorem readLicense_spelling {nesting : Nat} {obj : Members F} (h : Bounded nesting (.obj obj))
    {text : Str} (ht : Spelling (Json.obj obj) text) {bs : Bytes} (hbs : utf8Encode text = .ok bs) :
    readLicense F nesting (some bs) = .ok obj := by
  obtain ⟨text', hread, hspell⟩ := readText_spelling ht hbs
  simp only [readLicense, hread, loads_spelling h.1 h.2 hspell]

variable (F) in
/-- The second text is the first with other white space, another order of
members or other escapes. -/
def Reformats (text text' : Str) : Prop :=
  ∃ j j' : Json F, WF j ∧ WF j' ∧ Spelling j text ∧ Spelling j' text' ∧ j'.sorted = j.sorted

end Files

section Signed
variable {F : Type} [PyFloat F] [Cryptography]

omit [PyFloat F] [Cryptography] in
theorem without_without (m : Members F) (key : Str) :
    (m.without key).without key = m.without key := by
  simp only [Members.without, List.filter_filter, Bool.and_self]

omit [PyFloat F] [Cryptography] in
theorem joinedMembers_without (m : Members F) (key : Str) :
    Members.without (joinedMembers m) key = joinedMembers (m.without key) := by
  rw [joinedMembers_eq_map, joinedMembers_eq_map, Members.without, Members.without, List.filter_map]
  rfl

omit [PyFloat F] [Cryptography] in
theorem not_mem_without (m : Members F) (key : Str) : key ∉ (m.without key).keys := by
  intro hmem
  obtain ⟨kv, hkv, hkey⟩ := List.mem_map.mp hmem
  have := (List.mem_filter.mp hkv).2
  simp [hkey] at this

/-- What the signer adds to the spec. -/
theorem signLicense_spec {spec signed : Members F} {key : Cryptography.PrivateKey}
    (h : signLicense spec key = .ok signed) :
    ∃ bytes, Signer.canonicalBody (spec.without signatureField) = .ok bytes ∧
      signed = spec.without signatureField ++
        [(signatureField, .str (b64encode (Cryptography.sign key bytes)))] := by
  simp only [signLicense] at h
  split at h
  · cases h
  · rename_i bytes hbytes
    refine ⟨bytes, hbytes, ?_⟩
    rw [← Except.ok.inj h, Members.set_of_not_mem (not_mem_without spec signatureField)]

/-- Only integers that can be written get signed. -/
theorem signLicense_fits {spec signed : Members F} {key : Cryptography.PrivateKey}
    (h : signLicense spec key = .ok signed) {kv : Str × Json F} (hkv : kv ∈ spec)
    (hk : kv.1 ≠ signatureField) : intsFit kv.2 = true := by
  obtain ⟨bytes, hbytes, -⟩ := signLicense_spec h
  rw [Signer.canonicalBody, without_without] at hbytes
  simp only [dumpsCanonical] at hbytes
  by_cases hfit : intsFit (.obj (spec.without signatureField)) = true
  · refine intsFitMembers_iff.mp hfit kv (List.mem_filter.mpr ⟨hkv, ?_⟩)
    simpa using hk
  · rw [if_neg hfit] at hbytes
    cases hbytes

omit [PyFloat F] [Cryptography] in
theorem without_append_signature (m : Members F) (v : Json F) :
    Members.without (m.without signatureField ++ [(signatureField, v)]) signatureField =
      m.without signatureField := by
  simp [Members.without]

variable {spec signed : Members F} {key : Cryptography.PrivateKey}

/-- The loader reconstructs the signed bytes from every reordering of the
signed license, and finds the signature. -/
theorem recovers (hsign : signLicense spec key = .ok signed) (hw : Writable (.obj signed))
    {obj : Members F} (hwf : WF (.obj obj))
    (hsorted : (Json.obj obj).sorted = (joined (.obj signed)).sorted) :
    ∃ bytes, Signer.canonicalBody (spec.without signatureField) = .ok bytes ∧
      canonicalBody obj = .ok bytes ∧
      obj.get signatureField = some (.str (b64encode (Cryptography.sign key bytes))) := by
  obtain ⟨bytes, hbytes, rfl⟩ := signLicense_spec hsign
  refine ⟨bytes, hbytes, ?_, ?_⟩
  · have hjoined := wf_joined _ hw
    rw [joined] at hjoined hsorted
    rw [canonicalBody_of_sorted hwf hjoined hsorted, canonicalBody_of_wf hjoined,
      joinedMembers_without, without_append_signature, ← joined, canonical_joined]
    rw [Signer.canonicalBody, without_without] at hbytes
    simp only [dumpsCanonical] at hbytes
    split at hbytes
    · rename_i text htext
      split at htext
      · rw [← hbytes, ← Except.ok.inj htext]
      · cases htext
    · cases hbytes
  · rw [joined] at hsorted
    have hget := get_of_sorted_eq hwf.1 hsorted signatureField
    have hsig : Members.get (joinedMembers (spec.without signatureField ++
        [(signatureField, .str (b64encode (Cryptography.sign key bytes)))])) signatureField =
        some (.str (b64encode (Cryptography.sign key bytes))) := by
      have hnodup := (wf_joined _ hw).1
      rw [Members.get_eq_some_iff hnodup, joinedMembers_eq_map, List.map_append]
      refine List.mem_append_right _ ?_
      rw [List.map_singleton, joined,
        joinPairs_of_splitFree (splitFree_of_plain (b64encode_plain _))]
      exact List.mem_singleton_self _
    rw [hsig, Option.map_some, Option.map_eq_some_iff] at hget
    obtain ⟨signature, hget, hstr⟩ := hget
    rw [hget, eq_of_sorted_eq (j := .str _) trivial hstr]

theorem truthy_signature {bytes : Bytes} (hkey : LawfulKey key) :
    (Json.str (b64encode (Cryptography.sign key bytes)) : Json F).truthy = true := by
  have hne := b64encode_ne_nil (hkey.sign_ne bytes)
  rw [truthy, Bool.not_eq_true', List.isEmpty_eq_false_iff]
  exact hne

/-- The loader's check passes on what it recovers. -/
theorem signatureVerifies_recovered (hkey : LawfulKey key) {obj : Members F} {bytes : Bytes}
    (hbody : canonicalBody obj = .ok bytes) :
    signatureVerifies (Cryptography.publicPem (Cryptography.publicKey key))
      (.str (b64encode (Cryptography.sign key bytes))) obj = true := by
  obtain ⟨pemBytes, henc, hload⟩ := hkey.pem_loads
  simp only [signatureVerifies, henc, hload, b64decode_b64encode, hbody, hkey.verifies]

end Signed

/-! ## The signing tool -/

section Tool
variable {F : Type}

/-- Members that can be written and read back inside an object. -/
structure Admissible (limit : Nat) (m : Members F) : Prop where
  nodup : m.keys.Nodup
  members : ∀ kv ∈ m, splitFree kv.1 = true ∧ Writable kv.2 ∧ kv.2.depth ≤ limit

variable {limit : Nat} {m : Members F}

theorem Admissible.writable (h : Admissible limit m) : Writable (.obj m) :=
  ⟨h.nodup, writableMembers_iff.mpr fun kv hkv => ⟨(h.members kv hkv).1, (h.members kv hkv).2.1⟩⟩

theorem Admissible.depth_le (h : Admissible limit m) : (Json.obj m).depth ≤ limit + 1 := by
  rw [depth]
  apply Nat.succ_le_succ
  exact depthMembers_le_iff.mpr fun kv hkv => (h.members kv hkv).2.2

theorem admissible_of_bounded (h : Bounded (limit + 1) (.obj m)) : Admissible limit m := by
  obtain ⟨hnodup, hmembers⟩ := bounded_obj.mp h
  refine ⟨hnodup, fun kv hkv => ?_⟩
  obtain ⟨hk, hwf, hdepth⟩ := hmembers kv hkv
  exact ⟨hk, writable_of_wf _ hwf, hdepth⟩

theorem Admissible.set (h : Admissible limit m) {k : Str} {v : Json F} (hk : splitFree k = true)
    (hv : Writable v) (hd : v.depth ≤ limit) : Admissible limit (m.set k v) := by
  refine ⟨Members.nodup_set h.nodup k v, fun kv hkv => ?_⟩
  rcases mem_set hkv with rfl | hkv
  · exact ⟨hk, hv, hd⟩
  · exact h.members kv hkv

theorem Admissible.without (h : Admissible limit m) (key : Str) :
    Admissible limit (m.without key) :=
  ⟨h.nodup.sublist (List.filter_sublist.map _),
    fun kv hkv => h.members kv (List.mem_of_mem_filter hkv)⟩

theorem Admissible.overlay (h : Admissible limit m) {key : String} {val : Option (Json F)}
    (hk : splitFree (lit key) = true) (hv : ∀ v, val = some v → Writable v ∧ v.depth ≤ limit) :
    Admissible limit (Signer.overlay m key val) := by
  cases val with
  | none => exact h
  | some v => exact h.set hk (hv v rfl).1 (hv v rfl).2

theorem Admissible.setdefault (h : Admissible limit m) {key : String} {v : Json F}
    (hk : splitFree (lit key) = true) (hv : Writable v) (hd : v.depth ≤ limit) :
    Admissible limit (Signer.setdefault m key v) := by
  unfold Signer.setdefault
  split
  · exact h
  · exact h.set hk hv hd

theorem Admissible.get (h : Admissible limit m) {k : Str} {v : Json F} (hget : m.get k = some v) :
    Writable v ∧ v.depth ≤ limit :=
  (h.members _ ((Members.get_eq_some_iff h.nodup k v).mp hget)).2

/-- A string flag, or one of the two integer flags, over any spec. -/
theorem admissible_text (val : Option Str) :
    ∀ v, val.map Json.str = some v → Writable v ∧ (v : Json F).depth ≤ limit := by
  intro v hv
  obtain ⟨s, -, rfl⟩ := Option.map_eq_some_iff.mp hv
  exact ⟨trivial, Nat.zero_le limit⟩

theorem admissible_int {val : Option Int}
    (hfits : ∀ n, val = some n → (natText n.natAbs).length ≤ intMaxStrDigits) :
    ∀ v, val.map Json.int = some v → Writable v ∧ (v : Json F).depth ≤ limit := by
  intro v hv
  obtain ⟨n, hn, rfl⟩ := Option.map_eq_some_iff.mp hv
  exact ⟨hfits n hn, Nat.zero_le limit⟩

theorem admissible_modules (hlimit : 1 ≤ limit) (val : Option (List Str)) :
    ∀ v, val.map (fun ms => Json.arr (ms.map .str)) = some v →
      Writable v ∧ (v : Json F).depth ≤ limit := by
  intro v hv
  obtain ⟨ms, -, rfl⟩ := Option.map_eq_some_iff.mp hv
  refine ⟨writableElems_iff.mpr fun x hx => ?_, ?_⟩
  · obtain ⟨s, -, rfl⟩ := List.mem_map.mp hx
    trivial
  · have hzero : depthElems (ms.map (Json.str (F := F))) ≤ 0 := by
      apply depthElems_le_iff.mpr
      intro x hx
      obtain ⟨s, -, rfl⟩ := List.mem_map.mp hx
      exact Nat.le_refl 0
    rw [depth]
    omega

theorem Admissible.overlayFlags (h : Admissible limit m) (hlimit : 1 ≤ limit)
    (args : Signer.Args) : Admissible limit (Signer.overlayFlags args m) := by
  unfold Signer.overlayFlags
  apply Admissible.overlay _ rfl (admissible_int args.seats_fits)
  apply Admissible.overlay _ rfl (admissible_int args.graceDays_fits)
  apply Admissible.overlay _ rfl (admissible_modules hlimit _)
  apply Admissible.overlay _ rfl (admissible_text _)
  apply Admissible.overlay _ rfl (admissible_text _)
  apply Admissible.overlay _ rfl (admissible_text _)
  apply Admissible.overlay _ rfl (admissible_text _)
  apply Admissible.overlay _ rfl (admissible_text _)
  exact h.overlay rfl (admissible_text _)

variable [PyFloat F]

theorem loadSpec_admissible {file : Str → Option Bytes} {path : Option Str} {loaded : Members F}
    (h : Signer.loadSpec F file (limit + 1) path = .ok loaded) : Admissible limit loaded := by
  have hempty : Admissible limit ([] : Members F) := ⟨List.nodup_nil, fun kv hkv => nomatch hkv⟩
  unfold Signer.loadSpec at h
  split at h
  · exact Except.ok.inj h ▸ hempty
  · split at h
    · exact Except.ok.inj h ▸ hempty
    · split at h
      · cases h
      · split at h
        · cases h
        · rename_i text htext
          split at h
          · cases h
          · rename_i obj hload
            cases h
            exact admissible_of_bounded (loads_bounded hload (readText_plain htext))
          · cases h

variable [Unicode]

theorem fillDefaults_admissible (h : Admissible limit m) (hlimit : 1 ≤ limit) {now : Instant}
    {filled : Members F} (hfill : Signer.fillDefaults now m = .ok filled) :
    Admissible limit filled := by
  simp only [Signer.fillDefaults] at hfill
  have hissued : Admissible limit (Signer.setdefault m "issued_at" (.str (isoText now))) :=
    h.setdefault rfl trivial (Nat.zero_le _)
  have hat : Writable (((Signer.setdefault m "issued_at" (.str (isoText now))).get
      (lit "issued_at")).getD .null) ∧ (((Signer.setdefault m "issued_at" (.str (isoText now))).get
      (lit "issued_at")).getD .null).depth ≤ limit := by
    cases hget : (Signer.setdefault m "issued_at" (.str (isoText now))).get (lit "issued_at") with
    | none => exact ⟨trivial, Nat.zero_le _⟩
    | some v => exact hissued.get hget
  split at hfill
  · cases hfill
  · rw [← Except.ok.inj hfill]
    apply Admissible.setdefault (v := .str _) _ rfl trivial (Nat.zero_le _)
    apply Admissible.setdefault (v := .arr []) _ rfl trivial hlimit
    apply Admissible.setdefault _ rfl (by simp only [Writable]; decide) (Nat.zero_le _)
    apply Admissible.setdefault _ rfl (by simp only [Writable]; decide) (Nat.zero_le _)
    exact hissued.setdefault rfl hat.1 hat.2

/-- Every accepted spec can be written and read back. -/
theorem buildSpec_admissible {file : Str → Option Bytes} {now : Instant} {args : Signer.Args}
    {spec : Members F} (hlimit : 1 ≤ limit)
    (h : Signer.buildSpec F file now (limit + 1) args = .ok spec) : Admissible limit spec := by
  unfold Signer.buildSpec at h
  split at h
  · cases h
  · rename_i loaded hloaded
    split at h
    · cases h
    · rename_i filled hfilled
      simp only at h
      split at h
      · cases h
      · rw [← Except.ok.inj h]
        exact (fillDefaults_admissible ((loadSpec_admissible hloaded).overlayFlags hlimit args)
          hlimit hfilled).without signatureField

end Tool

section Recovery
variable {F : Type} [PyFloat F] {limit : Nat}

/-- The rendered file spells the license with its pairs joined and its keys sorted. -/
theorem renderLicense_spelling {signed : Members F} (h : Admissible limit signed) :
    ∃ rendered, renderLicense signed = .ok rendered ∧
      Spelling (joined (Json.obj signed)).sorted rendered := by
  have hfit := intsFit_of_writable _ h.writable
  refine ⟨indented 0 (Json.obj signed).sorted ++ [10], ?_, [], _, [10], blank_nil, ?_, ?_, rfl⟩
  · simp only [renderLicense, dumpsIndented, hfit, if_true]
  · rw [sorted_joined, ← indented_joined]
    exact spells_indented _ 0
  · intro c hc
    rw [List.mem_singleton.mp hc]
    rfl

theorem reformats_compact {license : Members F} (h : Admissible limit license) :
    Reformats F (compact (.obj license)) (compact (.obj license)) := by
  have hspell : Spelling (joined (Json.obj license)) (compact (.obj license)) := by
    rw [← compact_joined]
    exact spelling_of_spells (spells_compact _)
  have hwf := wf_joined _ h.writable
  exact ⟨_, _, hwf, hwf, hspell, hspell, rfl⟩

variable [LawfulPyFloat F]

theorem renderLicense_encodes {signed : Members F} {rendered : Str}
    (h : renderLicense signed = .ok rendered) : ∃ bs, utf8Encode rendered = .ok bs := by
  simp only [renderLicense, dumpsIndented] at h
  split at h
  · rename_i text htext
    split at htext
    · rw [← Except.ok.inj h, ← Except.ok.inj htext]
      refine ⟨_, utf8Encode_ascii ((ascii_indented _ 0).append ?_)⟩
      intro c hc
      rw [List.mem_singleton.mp hc]
      decide
    · cases htext
  · cases h

variable [Cryptography]

/-- An admissible spec is signed, and the result can be written too. -/
theorem signLicense_ok {spec : Members F} (h : Admissible limit spec)
    (key : Cryptography.PrivateKey) :
    ∃ signed, signLicense spec key = .ok signed ∧ Admissible limit signed := by
  have hbody := h.without signatureField
  have hfit := intsFit_of_writable _ (hbody.without signatureField).writable
  have hbytes : Signer.canonicalBody (spec.without signatureField) = .ok
      ((canonical (.obj ((spec.without signatureField).without signatureField))).flatMap
        encodePoint) := by
    simp only [Signer.canonicalBody, dumpsCanonical, hfit, if_true]
    exact utf8Encode_printable (printable_compact _)
  refine ⟨_, by simp only [signLicense, hbytes]; rfl, ?_⟩
  exact hbody.set (k := signatureField) (v := .str _) rfl trivial (Nat.zero_le _)

/-- Whatever is read from a text of the signed license verifies. -/
theorem readLicense_recovers {spec signed : Members F} {key : Cryptography.PrivateKey}
    (hkey : LawfulKey key) (hsign : signLicense spec key = .ok signed)
    (h : Admissible limit signed) {nesting : Nat} (hn : limit + 1 ≤ nesting) {j : Json F}
    (hwf : WF j) (hsorted : j.sorted = (joined (.obj signed)).sorted) {text : Str}
    (ht : Spelling j text) {bs : Bytes} (hbs : utf8Encode text = .ok bs) :
    ∃ (bytes : Bytes) (obj : Members F),
      Signer.canonicalBody (spec.without signatureField) = .ok bytes ∧
      j = .obj obj ∧ readLicense F nesting (some bs) = .ok obj ∧ canonicalBody obj = .ok bytes ∧
      obj.get signatureField = some (.str (b64encode (Cryptography.sign key bytes))) ∧
      signatureVerifies (Cryptography.publicPem (Cryptography.publicKey key))
        (.str (b64encode (Cryptography.sign key bytes))) obj = true := by
  obtain ⟨obj, rfl⟩ : ∃ obj, j = .obj obj := by
    cases j with
    | obj obj => exact ⟨obj, rfl⟩
    | _ => simp [joined, sorted] at hsorted
  have hdepth : (Json.obj obj).depth ≤ nesting := by
    rw [← depth_sorted, hsorted, depth_sorted, depth_joined]
    exact h.depth_le.trans hn
  obtain ⟨bytes, hbytes, hbody, hget⟩ := recovers hsign h.writable hwf hsorted
  exact ⟨bytes, obj, hbytes, rfl, readLicense_spelling ⟨hwf, hdepth⟩ ht hbs, hbody, hget,
    signatureVerifies_recovered hkey hbody⟩

variable [Unicode]

/-- For every spec the tool accepts: the bytes that were signed are the bytes the
loader reconstructs from the rendered file and from every re-formatting of it,
and the signature verifies under the matching public key. -/
theorem signed_body_recovered {key : Cryptography.PrivateKey} (hkey : LawfulKey key)
    (file : Str → Option Bytes) (now : Instant) {nesting : Nat} (hnesting : 2 ≤ nesting)
    (args : Signer.Args) {spec : Members F}
    (hspec : Signer.buildSpec F file now nesting args = .ok spec) :
    ∃ (bytes : Bytes) (signed : Members F) (rendered : Str),
      Signer.canonicalBody (spec.without signatureField) = .ok bytes ∧
      signLicense spec key = .ok signed ∧
      signed.get signatureField = some (.str (b64encode (Cryptography.sign key bytes))) ∧
      renderLicense signed = .ok rendered ∧
      (∃ bs, utf8Encode rendered = .ok bs) ∧
      Reformats F rendered rendered ∧
      ∀ text bs, Reformats F rendered text → utf8Encode text = .ok bs →
        ∀ nesting', nesting ≤ nesting' →
          ∃ obj : Members F, readLicense F nesting' (some bs) = .ok obj ∧
            canonicalBody obj = .ok bytes ∧
            obj.get signatureField = some (.str (b64encode (Cryptography.sign key bytes))) ∧
            signatureVerifies (Cryptography.publicPem (Cryptography.publicKey key))
              (.str (b64encode (Cryptography.sign key bytes))) obj = true := by
  obtain ⟨limit, rfl⟩ : ∃ limit, nesting = limit + 1 := ⟨nesting - 1, by omega⟩
  have hadm := buildSpec_admissible (by omega) hspec
  obtain ⟨signed, hsign, hsigned⟩ := signLicense_ok hadm key
  obtain ⟨bytes, hbytes, hform⟩ := signLicense_spec hsign
  obtain ⟨rendered, hrender, hspell⟩ := renderLicense_spelling hsigned
  have hwf : WF (joined (Json.obj signed)).sorted := wf_sorted (wf_joined _ hsigned.writable)
  refine ⟨bytes, signed, rendered, hbytes, hsign, ?_, hrender, renderLicense_encodes hrender,
    ⟨_, _, hwf, hwf, hspell, hspell, rfl⟩, ?_⟩
  · rw [Members.get_eq_some_iff hsigned.nodup, hform]
    exact List.mem_append_right _ (List.mem_singleton_self _)
  · rintro text bs ⟨j, j', hj, hj', ht, ht', hsorted⟩ hbs nesting' hn
    obtain rfl := spelling_unique hwf hj hspell ht
    rw [sorted_idem] at hsorted
    obtain ⟨bytes', obj, hbytes', -, hread, hbody, hget, hverify⟩ :=
      readLicense_recovers hkey hsign hsigned hn hj' hsorted ht' hbs
    rw [hbytes] at hbytes'
    cases hbytes'
    exact ⟨obj, hread, hbody, hget, hverify⟩

end Recovery

section Acme
attribute [local instance] asciiUnicode mirrorCryptography

theorem mirror_lawful (key : Unit) : LawfulKey key where
  pem_ne := show lit "PEM" ≠ [] by decide
  pem_loads := ⟨(lit "PEM").flatMap encodePoint, rfl, if_pos rfl⟩
  verifies _ := beq_self_eq_true _
  sign_ne _ := List.cons_ne_nil _ _

/-- `sign --customer-id acme --edition saas --entitled-modules erp`. -/
def acmeArgs : Signer.Args where
  spec := none
  licenseId := none
  customerId := some (lit "acme")
  edition := some (lit "saas")
  entitledModules := some (lit "erp")
  quotaTier := none
  seats := none
  notBefore := none
  expiresAt := none
  graceDays := none
  seats_fits := Signer.unset_fits
  graceDays_fits := Signer.unset_fits

def acmeSpec : Members Unit :=
  [(lit "customer_id", .str (lit "acme")), (lit "edition", .str (lit "saas")),
    (lit "entitled_modules", .arr [.str (lit "erp")]),
    (lit "issued_at", .str (isoText 0)), (lit "not_before", .str (isoText 0)),
    (lit "grace_days", .int 0), (lit "seats", .int (-1)),
    (lit "license_id", .str (lit "acme-" ++ (isoText 0).take 10))]

theorem acme_spec : Signer.buildSpec Unit (fun _ => none) 0 2 acmeArgs = .ok acmeSpec := by
  rfl

/-- The license of the flags above, rendered and read back. -/
theorem acme_body_recovered : LawfulPyFloat Unit ∧ LawfulKey () ∧ (2 : Nat) ≤ 2 ∧
    Signer.buildSpec Unit (fun _ => none) 0 2 acmeArgs = .ok acmeSpec ∧
    ∃ (bytes : Bytes) (rendered : Str), Reformats Unit rendered rendered ∧
      ∀ text bs, Reformats Unit rendered text → utf8Encode text = .ok bs →
        ∃ obj : Members Unit, readLicense Unit 2 (some bs) = .ok obj ∧
          canonicalBody obj = .ok bytes := by
  have hlaw : LawfulKey () := mirror_lawful ()
  obtain ⟨bytes, signed, rendered, -, -, -, -, -, hself, hall⟩ :=
    signed_body_recovered hlaw (fun _ => none) 0 (Nat.le_refl 2) acmeArgs acme_spec
  refine ⟨inferInstance, hlaw, Nat.le_refl 2, acme_spec, bytes, rendered, hself, ?_⟩
  intro text bs htext hbs
  obtain ⟨obj, hread, hbody, -⟩ := hall text bs htext hbs 2 (Nat.le_refl 2)
  exact ⟨obj, hread, hbody⟩

end Acme

end IsaCloud.License
