import IsaCloud.Fleet.Agreement
import IsaCloud.Support.JsonErrors

/-!
# Intake that answers every body

`_ingest` promises a stored record or a status of its own. It maps two exceptions
of `json.loads`; the limits of the interpreter, a credential the database cannot
look up and a signature that cannot be compared pass through as they are.
`Serviceable` says of an envelope that none of this happens to it.
-/

namespace IsaCloud.Fleet

set_option autoImplicit false

open Support Support.Text Support.Python Support.DateTime Support.Encoding License

/-- The statuses intake rejects with. -/
def intakeStatuses : List Nat := [401, 403, 404, 422]

/-- An `HTTPException` of intake. -/
def Mapped (e : PyError) : Prop := ∃ status ∈ intakeStatuses, e.kind = .httpException status

theorem mapped_http {status : Nat} (h : status ∈ intakeStatuses) (detail : Str) :
    Mapped (httpException status detail) := ⟨status, h, rfl⟩

theorem not_mapped {e : PyError} (h : ∀ status, e.kind ≠ .httpException status) : ¬ Mapped e := by
  rintro ⟨status, -, hkind⟩
  exact h status hkind

/-- One record is stored and the answer describes it, or nothing is stored and
the exception is one of intake. -/
inductive Clean {F : Type} (db : Database F) : Database F × Except PyError Accepted → Prop where
  | accepted (record : TelemetryRecord F) :
      Clean db ({ db with telemetry := db.telemetry ++ [record] },
        .ok ⟨record.id, record.licenseId, record.lastSeen, record.source⟩)
  | rejected {e : PyError} (mapped : Mapped e) : Clean db (db, .error e)

theorem Clean.mapped {F : Type} {db : Database F} {out : Database F × Except PyError Accepted}
    {e : PyError} (h : Clean db out) (he : (out.2.map fun _ => ()) = .error e) : Mapped e := by
  cases h with
  | accepted record => cases he
  | rejected mapped =>
    obtain rfl := Except.error.inj he
    exact mapped

/-- What the database, its driver and the schema library raise is no `HTTPException`. -/
structure Foreign (F : Type) [IntakeLibraries F]
    (refuse : Database F → DbCommand F → Option PyError) : Prop where
  refused : ∀ db c e, refuse db c = some e → ∀ status, e.kind ≠ .httpException status
  ident : ∀ (j : Json F) e, IntakeLibraries.ident j = .error e → ∀ status, e.kind ≠ .httpException status
  detail : ∀ (data : Members F) e, IntakeLibraries.detailFault data = some e →
    ∀ status, e.kind ≠ .httpException status

/-! ## The pieces of a session -/

section Pieces
variable {F : Type} {refuse : Database F → DbCommand F → Option PyError} {db : Database F}

@[simp] theorem clean_error {e : PyError} : Clean db (db, .error e) ↔ Mapped e :=
  ⟨fun h => h.mapped rfl, .rejected⟩

theorem clean_attempt {X : Type} {x : Except PyError X} {k : X → Session F Accepted} :
    Clean db (Session.execUnder refuse (.attempt x k) db) ↔
      (∀ e, x = .error e → Mapped e) ∧
      ∀ a, x = .ok a → Clean db (Session.execUnder refuse (k a) db) := by
  cases x with
  | error e => simp
  | ok a => simp

variable [IntakeLibraries F] (hf : Foreign F refuse)
include hf

theorem clean_withLedger {licenseId : Str} {k : Option IssuanceLedger → Session F Accepted} :
    Clean db (Session.execUnder refuse (Session.withLedger licenseId k) db) ↔
      refuse db (.getLedger licenseId) = none ∧
      Clean db (Session.execUnder refuse (k (db.findLicense licenseId)) db) := by
  rw [Session.execUnder_withLedger]
  cases hr : refuse db (.getLedger licenseId) with
  | none => simp
  | some e => simp [not_mapped (hf.refused _ _ _ hr)]

theorem clean_withSecret {key : Str} {k : Option DeploymentSecret → Session F Accepted} :
    Clean db (Session.execUnder refuse (Session.withSecret key k) db) ↔
      refuse db (.getSecret key) = none ∧
      Clean db (Session.execUnder refuse (k (db.findSecret key)) db) := by
  rw [Session.execUnder_withSecret]
  cases hr : refuse db (.getSecret key) with
  | none => simp
  | some e => simp [not_mapped (hf.refused _ _ _ hr)]

/-- A record of a known license is stored unless the database refuses it. -/
theorem clean_commit {record : TelemetryRecord F} (hknown : db.lacks (some record.licenseId) = false)
    (out : Nat → Accepted)
    (hout : ∀ id, out id = ⟨id, record.licenseId, record.lastSeen, record.source⟩) :
    Clean db (Session.execUnder refuse (Session.commitWith [.insertTelemetry record] out) db) ↔
      refuse db (.commit [.insertTelemetry record]) = none := by
  rw [Session.execUnder_commitWith]
  cases hr : refuse db (.commit [.insertTelemetry record]) with
  | some e => simp [not_mapped (hf.refused _ _ _ hr)]
  | none =>
    simp only [Session.exec_commitWith, applyWrites, applyWrite, hknown, Bool.false_eq_true, if_false,
      iff_true, List.length_append, List.length_singleton, hout]
    exact .accepted { record with id := db.telemetry.length + 1 }

end Pieces

/-! ## The steps of intake -/

section Steps
variable (F : Type) [PyFloat F] [Unicode]

/-- No limit of the interpreter is met while the body is read. -/
def Parses (nesting : Nat) (raw : Bytes) : Prop :=
  (loadsBytes nesting raw : Except PyError (Json F)) ≠ .error Json.recursionError ∧
  (loadsBytes nesting raw : Except PyError (Json F)) ≠ .error Json.tooManyDigits

variable {F}

omit [Unicode] in
theorem loadsBytes_error {nesting : Nat} {raw : Bytes} {e : PyError}
    (h : (loadsBytes nesting raw : Except PyError (Json F)) = .error e) :
    e.kind = .unicodeDecodeError ∨ Json.ScanError e := by
  unfold loadsBytes at h
  split at h
  · rename_i hd
    obtain rfl := Except.error.inj h
    rw [Json.decodeBody_error hd]
    exact .inl rfl
  · exact .inr (Json.loads_error h)

theorem openEnvelope_error {members : Members F} {e : PyError} (h : openEnvelope members = .error e) :
    Mapped e := by
  unfold openEnvelope at h
  split at h
  · split at h
    · cases h
    · cases h
      exact mapped_http (by decide) _
  · cases h
    exact mapped_http (by decide) _

theorem parse_clean_iff {nesting : Nat} {raw : Bytes} :
    (∀ e, parseEnvelopeOr422 F nesting raw = .error e → Mapped e) ↔ Parses F nesting raw := by
  unfold parseEnvelopeOr422 Parses
  cases hl : (loadsBytes nesting raw : Except PyError (Json F)) with
  | ok j =>
    cases j with
    | obj members => simpa using fun e he => openEnvelope_error he
    | null | bool | int | float | str | arr => simpa using mapped_http (by decide) _
  | error e =>
    by_cases hmapped : e.kind = .jsonDecodeError ∨ e.kind = .unicodeDecodeError
    · have hlimits : e ≠ Json.recursionError ∧ e ≠ Json.tooManyDigits := by
        constructor
        · rintro rfl
          rcases hmapped with h | h <;> cases h
        · rintro rfl
          rcases hmapped with h | h <;> cases h
      simp only [if_pos hmapped]
      simpa [hlimits] using mapped_http (by decide) _
    · -- what is not mapped is a limit of the interpreter
      have hlimits : e = Json.tooManyDigits ∨ e = Json.recursionError := by
        rcases loadsBytes_error hl with h | h | h
        · exact absurd (.inr h) hmapped
        · exact absurd (.inl h) hmapped
        · exact h
      have hraised : ¬ Mapped e := by
        apply not_mapped
        rcases hlimits with rfl | rfl
        · exact fun status h => nomatch h
        · exact fun status h => nomatch h
      simp only [if_neg hmapped]
      constructor
      · intro h
        exact absurd (h e rfl) hraised
      · rintro ⟨hdeep, hdigits⟩
        rcases hlimits with rfl | rfl
        · exact absurd rfl hdigits
        · exact absurd rfl hdeep

/-- The canonical bytes of a parsed payload can be written. -/
theorem canonical_of_parse [Json.LawfulPyFloat F] {nesting : Nat} {raw : Bytes} {envelope : Envelope F}
    (h : parseEnvelopeOr422 F nesting raw = .ok envelope) :
    ∃ signed, canonicalPayloadBytes envelope.payload = .ok signed :=
  ⟨_, canonicalPayloadBytes_ok (Json.intsFit_of_dicts _ (dicts_of_parse h))⟩

section Verify
variable [Hmac]

/-- The secret can be used as a key, and the signature is text that can be compared. -/
def Comparable (row : DeploymentSecret) (signature : Json F) : Prop :=
  (∃ key, utf8Encode row.secret = .ok key) ∧ ∃ s, signature = .str s ∧ isAscii s = true

omit [Unicode] in
theorem checkHmac_comparable [HexDigest] (row : DeploymentSecret) (signed : Bytes) {signature : Json F}
    (htruthy : signature.truthy = true) :
    Comparable row signature ∧ (∃ valid, checkHmac row signed signature = .ok valid) ∨
    ¬ Comparable row signature ∧ ∃ e, checkHmac row signed signature = .error e ∧ ¬ Mapped e := by
  cases hkey : utf8Encode row.secret with
  | error e =>
    right
    have hkind : e.kind = .unicodeEncodeError := by
      unfold utf8Encode at hkey
      split at hkey
      · cases hkey
        rfl
      · cases hkey
    refine ⟨?_, e, ?_, not_mapped ?_⟩
    · rintro ⟨⟨key, h⟩, -⟩
      cases hkey.symm.trans h
    · rw [checkHmac, signTelemetry, hkey]
    · rw [hkind]
      exact fun status h => by cases h
  | ok key =>
    have hascii : isAscii (Hmac.hexdigest key signed) = true := HexDigest.ascii key signed
    have hsign : signTelemetry row.secret signed = .ok (Hmac.hexdigest key signed) := by
      rw [signTelemetry, hkey]
    rw [checkHmac_signed htruthy hsign]
    obtain ⟨s, hs, -, hascii', hok⟩ | ⟨huncompared, message, herror⟩ :=
      compareDigest_cases (Hmac.hexdigest key signed) signature
    · exact .inl ⟨⟨⟨key, hkey⟩, s, hs, hascii'⟩, _, hok⟩
    · refine .inr ⟨?_, _, herror, not_mapped fun status h => by cases h⟩
      rintro ⟨-, s, hs, hascii'⟩
      rw [huncompared s hs hascii] at hascii'
      cases hascii'

variable [IntakeLibraries F] {refuse : Database F → DbCommand F → Option PyError} {db : Database F}

omit [PyFloat F] [Unicode] [Hmac] in
theorem secretKey_foreign (hf : Foreign F refuse) {sid : Json F} {e : PyError}
    (h : secretKey sid = .error e) : ¬ Mapped e := by
  apply not_mapped
  cases sid with
  | str s => cases h
  | null => exact hf.ident _ _ h
  | bool b => exact hf.ident _ _ h
  | int n => exact hf.ident _ _ h
  | float x => exact hf.ident _ _ h
  | arr xs => exact hf.ident _ _ h
  | obj m => exact hf.ident _ _ h

variable (refuse db) in
/-- The credential can be looked up, and compared where it is found; an envelope
that has verified under a key meets `Next`. -/
def Verifiable (sid : Json F) (signed : Bytes) (signature : Json F) (Next : Str → Prop) : Prop :=
  sid.truthy = true → signature.truthy = true →
    ∃ key, secretKey sid = .ok key ∧ refuse db (.getSecret key) = none ∧
      ∀ row, db.findSecret key = some row → Comparable row signature ∧
        (checkHmac row signed signature = .ok true → Next key)

omit [Unicode] in
theorem verifiable_congr {sid : Json F} {signed : Bytes} {signature : Json F} {Next Next' : Str → Prop}
    (h : ∀ key, secretKey sid = .ok key → (Next key ↔ Next' key)) :
    Verifiable refuse db sid signed signature Next ↔ Verifiable refuse db sid signed signature Next' := by
  unfold Verifiable
  apply imp_congr_right
  intro _
  apply imp_congr_right
  intro _
  apply exists_congr
  intro key
  apply and_congr_right
  intro hkey
  rw [h key hkey]

omit [Unicode] in
theorem verify_clean_iff [HexDigest] (hf : Foreign F refuse) {sid : Json F} {signed : Bytes}
    {signature : Json F} {k : Json F → Session F Accepted} :
    Clean db (Session.execUnder refuse (verifyOr401 sid signed signature k) db) ↔
      Verifiable refuse db sid signed signature fun _ =>
        Clean db (Session.execUnder refuse (k sid) db) := by
  have h401 : ∀ detail, Mapped (httpException 401 detail) := mapped_http (by decide)
  unfold verifyOr401 Verifiable
  split
  · rename_i hmissing
    simp only [Session.execUnder_ret, clean_error, h401, true_iff]
    intro hsid hsignature
    simp [hsid, hsignature] at hmissing
  rename_i hpresent
  simp only [not_or, Bool.not_eq_false] at hpresent
  obtain ⟨hsid, hsignature⟩ := hpresent
  simp only [hsid, hsignature, true_implies]
  rw [verifyTelemetryHmac, clean_attempt]
  cases hkey : secretKey sid with
  | error e => simp [secretKey_foreign hf hkey]
  | ok key =>
    simp only [reduceCtorEq, false_implies, implies_true, true_and, Except.ok.injEq, forall_eq',
      exists_eq_left', clean_withSecret hf]
    apply and_congr_right
    intro _
    cases db.findSecret key with
    | none => simp [h401]
    | some row =>
      rw [clean_attempt]
      rcases checkHmac_comparable row signed hsignature with
        ⟨hcomparable, valid, hvalid⟩ | ⟨hcomparable, e, he, hraised⟩
      · cases valid <;> simp [hcomparable, hvalid, h401]
      · simp [hcomparable, he, hraised]

end Verify

section Persist
variable [IntakeLibraries F] {refuse : Database F → DbCommand F → Option PyError} {db : Database F}

variable (refuse db) in
/-- The database takes the reads and the record that follow an accepted payload. -/
def Storable (payload : TelemetryPayload F) (sid : Json F) (key : Str) (source : Str) (now : Instant) :
    Prop :=
  refuse db (.getLedger payload.licenseId) = none ∧
  ∀ row, db.findLicense payload.licenseId = some row → pinsOther row sid = false →
    refuse db (.commit [.insertTelemetry (telemetryRow payload key source now)]) = none

omit [PyFloat F] in
theorem persist_clean_iff (hf : Foreign F refuse) {payload : TelemetryPayload F} {sid : Json F}
    {key : Str} (hkey : secretKey sid = .ok key) {source : Str} {now : Instant} :
    Clean db (Session.execUnder refuse (persist payload sid source now) db) ↔
      Storable refuse db payload sid key source now := by
  rw [persist, clean_withLedger hf, Storable]
  apply and_congr_right
  intro _
  cases hrow : db.findLicense payload.licenseId with
  | none => simpa using mapped_http (by decide) _
  | some row =>
    by_cases hpins : pinsOther row sid = true
    · simpa [hpins] using mapped_http (by decide) _
    · have hknown : db.lacks (some (telemetryRow payload key source now).licenseId) = false := by
        rw [telemetryRow, Database.lacks, hrow]
        rfl
      simp only [hpins, hkey, Proc.attempt_ok, Bool.false_eq_true, if_false]
      rw [clean_commit hf hknown
        (fun id => (⟨id, payload.licenseId, payload.lastSeen, source⟩ : Accepted)) fun id => rfl]
      simp [hpins]

variable (refuse db) in
/-- A refusal of the schema can be put in the answer, and what it lets through is stored. -/
def Settled (data : Members F) (sid : Json F) (source : Str) (now : Instant) (key : Str) : Prop :=
  match IntakeLibraries.modelValidate data with
  | .error _ => IntakeLibraries.detailFault data = none
  | .ok payload => Storable refuse db payload sid key source now

omit [PyFloat F] in
theorem settled_clean_iff (hf : Foreign F refuse) {data : Members F} {sid : Json F} {key : Str}
    (hkey : secretKey sid = .ok key) {source : Str} {now : Instant} :
    Clean db (Session.execUnder refuse (.attempt (validatePayloadOr422 data) fun payload =>
      persist payload sid source now) db) ↔ Settled refuse db data sid source now key := by
  rw [clean_attempt, validatePayloadOr422, Settled]
  cases IntakeLibraries.modelValidate data with
  | ok payload => simp [persist_clean_iff hf hkey]
  | error detail =>
    cases hfault : IntakeLibraries.detailFault data with
    | none => simpa using mapped_http (by decide) _
    | some e => simp [not_mapped (hf.detail _ _ hfault)]

end Persist

section Ingest
variable [Hmac] [IntakeLibraries F] (refuse : Database F → DbCommand F → Option PyError) (db : Database F)

/-- Nothing outside intake fails on the envelope. -/
def Serviceable (envelope : Envelope F) (source : Str) (now : Instant) : Prop :=
  ∀ signed, canonicalPayloadBytes envelope.payload = .ok signed →
    Verifiable refuse db envelope.deploymentSecretId signed envelope.signature
      (Settled refuse db envelope.payload envelope.deploymentSecretId source now)

variable {refuse}

/-- The intake answers a body cleanly exactly when reading it meets no limit of the
interpreter and nothing outside intake fails on its envelope. -/
theorem ingest_clean_iff [Json.LawfulPyFloat F] [HexDigest] (hf : Foreign F refuse) (nesting : Nat)
    (now : Instant) (raw : Bytes) (source : Str) :
    Clean db (Session.execUnder refuse (ingest nesting now raw source) db) ↔
      Parses F nesting raw ∧ ∀ envelope, parseEnvelopeOr422 F nesting raw = .ok envelope →
        Serviceable refuse db envelope source now := by
  rw [ingest, clean_attempt, parse_clean_iff]
  apply and_congr_right
  intro _
  apply forall_congr'
  intro envelope
  apply imp_congr_right
  intro hparse
  obtain ⟨signed, hsigned⟩ := canonical_of_parse hparse
  rw [clean_attempt, Serviceable, hsigned]
  simp only [reduceCtorEq, false_implies, implies_true, true_and, Except.ok.injEq, forall_eq']
  rw [verify_clean_iff hf]
  exact verifiable_congr fun key hkey => settled_clean_iff hf hkey

end Ingest

end Steps

/-! ## Two bodies -/

section Bodies
attribute [local instance] asciiUnicode distinctHmac plainScalars schemaLibraries distinctHmac_lawful

/-- A database that takes every command. -/
def accepting : Database Unit → DbCommand Unit → Option PyError := fun _ _ => none

theorem accepting_foreign : Foreign Unit accepting where
  refused _ _ _ h := nomatch h
  ident _ _ h status hkind := by
    cases h
    cases hkind
  detail _ _ h := nomatch h

/-- A credential nobody was given. -/
def unknownBody : Bytes := writeJson (.obj (envelopeOf [] (lit "dep-acme-0b") (lit "00")) : Json Unit)

theorem unknown_credential_answered :
    Clean Database.empty (Session.execUnder accepting
      (ingest 3 newYear unknownBody (lit "realtime")) Database.empty) := by
  have hloads : ((loadsBytes 3 unknownBody : Except PyError (Json Unit)).map fun _ => ()) = .ok () := by
    decide +kernel
  have hnamed : ((parseEnvelopeOr422 Unit 3 unknownBody).map fun envelope =>
      secretKey envelope.deploymentSecretId) = .ok (.ok (lit "dep-acme-0b")) := by
    decide +kernel
  refine (ingest_clean_iff Database.empty accepting_foreign 3 newYear unknownBody
    (lit "realtime")).mpr ⟨?_, ?_⟩
  · constructor
    · intro h
      rw [h] at hloads
      cases hloads
    · intro h
      rw [h] at hloads
      cases hloads
  · intro envelope h signed _ _ _
    rw [h] at hnamed
    exact ⟨lit "dep-acme-0b", Except.ok.inj hnamed, rfl, fun row hrow => nomatch hrow⟩

/-- A number where the signature belongs, under the id of a credential that is known. -/
def numberedBody : Bytes :=
  writeJson (.obj [(lit "payload", .obj []), (lit "deployment_secret_id", .str (lit "dep-acme-0a")),
    (lit "signature", .int 5)] : Json Unit)

def acmeSecrets : Database Unit :=
  { Database.empty with
    secrets := [⟨lit "dep-acme-0a", lit "s", lit "acme", some (lit "acme-1")⟩] }

theorem numbered_signature_raises : ¬ Clean acmeSecrets
    (Session.execUnder accepting (ingest 3 newYear numberedBody (lit "realtime")) acmeSecrets) := by
  have hraises : ((Session.execUnder accepting
      (ingest 3 newYear numberedBody (lit "realtime")) acmeSecrets).2.map fun _ => ()) =
      .error ⟨.typeError,
        lit "unsupported operand types(s) or combination of types: 'str' and 'int'"⟩ := by
    decide +kernel
  intro hclean
  obtain ⟨status, -, hkind⟩ := hclean.mapped hraises
  cases hkind

end Bodies

end IsaCloud.Fleet
