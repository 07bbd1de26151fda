import IsaCloud.Fleet.Agreement

/-!
# Renewed-away credentials

`renew` mints a new credential for the successor. The row of the old secret stays,
the old license stays pinned to it, and `_persist` does not look at
`superseded_by`: a leaked old secret is good for its own license as before, and
for no other license.
-/

namespace IsaCloud.Fleet

set_option autoImplicit false

open Support Support.Text Support.Python Support.DateTime Support.Encoding License

/-! ## Renewals -/

section Renewals
variable {F : Type} [PyFloat F] [Cryptography] [Unicode]

def Commits (db : Database F) (c : LedgerCall) : Prop := (Session.exec (c.session F) db).2 = .ok ()

theorem commits_iff {db : Database F} {c : LedgerCall} :
    Commits db c ↔ ∃ plan, c.prepare F (c.reads F db) = .ok plan ∧ plan.fresh db = true := by
  rw [Commits, LedgerCall.exec_session]
  cases c.prepare F (c.reads F db) with
  | error e => simp
  | ok plan =>
    by_cases hf : plan.fresh db = true
    · simp [hf]
    · simp [hf]

theorem superseded_of_commits {db : Database F} {ambient : Ambient} {priv : Option Cryptography.PrivateKey}
    {p : Str} {req : IssuanceRequest} (h : Commits db (.renew ambient priv p req)) :
    ∃ row, (step db (.renew ambient priv p req)).findLicense p = some row ∧ row.supersededBy ≠ none := by
  obtain ⟨plan, hprep, hf⟩ := commits_iff.mp h
  rw [step_of_fresh hprep hf]
  cases found_of_prepare hprep with
  | @renew _ _ _ prior row secret found head drafted =>
    exact ⟨_, Plan.findLicense_replace_prior hf found, Option.some_ne_none _⟩

/-- A successor was there before the call, or the call is the renewal that gave it. -/
theorem step_superseded {db : Database F} (c : LedgerCall) {licenseId : Str} {new : IssuanceLedger}
    (hnew : (step db c).findLicense licenseId = some new) (hs : new.supersededBy ≠ none) :
    (∃ old, db.findLicense licenseId = some old ∧ old.supersededBy ≠ none) ∨
    ∃ ambient priv req, c = .renew ambient priv licenseId req ∧ Commits db c := by
  rcases step_cases db c with heq | ⟨plan, hprep, hf, heq⟩
  · rw [heq] at hnew
    exact .inl ⟨new, hnew, hs⟩
  rw [heq] at hnew
  have hcommits : Commits db c := commits_iff.mpr ⟨plan, hprep, hf⟩
  cases found_of_prepare hprep with
  | issue drafted =>
    rw [Plan.findLicense_add hf] at hnew
    split at hnew
    · cases hnew
      exact absurd drafted.head hs
    · exact .inl ⟨new, hnew, hs⟩
  | @renew ambient priv req prior row secret found head drafted =>
    rw [Plan.findLicense_replace hf (Plan.replace_distinct hf found)] at hnew
    split at hnew
    · rename_i hp
      subst hp
      exact .inr ⟨ambient, priv, req, rfl, hcommits⟩
    · split at hnew
      · cases hnew
        exact absurd drafted.head hs
      · exact .inl ⟨new, hnew, hs⟩
  | @revoke now reason row found head unrevoked =>
    rw [Plan.findLicense_flag] at hnew
    split at hnew
    · rw [found] at hnew
      cases hnew
      exact absurd head hs
    · exact .inl ⟨new, hnew, hs⟩

omit [PyFloat F] [Cryptography] [Unicode] in
theorem Pins.unique {db : Database F} {row : IssuanceLedger} {secret secret' : DeploymentSecret}
    (h : Pins db row secret) (h' : Pins db row secret') : secret' = secret := by
  have hid : secret'.deploymentSecretId = secret.deploymentSecretId :=
    Option.some.inj (h'.credential.symm.trans h.credential)
  have hfound := h'.found
  rw [hid, h.found] at hfound
  exact (Option.some.inj hfound).symm

variable [Hmac] [IntakeLibraries F]

theorem fleetStep_keeps {db : Database F} (c : FleetCall) {licenseId : Str} {row : IssuanceLedger}
    {secret : DeploymentSecret} (hrow : db.findLicense licenseId = some row) (hpins : Pins db row secret) :
    ∃ row', (fleetStep db c).findLicense licenseId = some row' ∧ Evolves row row' ∧
      Pins (fleetStep db c) row' secret := by
  cases c with
  | ledger c =>
    obtain ⟨row', hrow', hev⟩ := step_evolves c hrow
    obtain ⟨row'', hrow'', -, hpins'⟩ := pins_step c hrow hpins
    obtain rfl := Option.some.inj (hrow'.symm.trans hrow'')
    exact ⟨row', hrow', hev, hpins'⟩
  | ingest nesting now raw source =>
    rcases ingest_cases db nesting now raw source with hrejects | ⟨record, _, _, -, haccepts⟩
    · rw [fleetStep, hrejects.unchanged]
      exact ⟨row, hrow, .refl row, hpins⟩
    · rw [fleetStep, haccepts.stored]
      exact ⟨row, hrow, .refl row, hpins.credential, hpins.found, hpins.customer, hpins.license⟩

/-- A license keeps its row, its marks and its credential. -/
theorem fleetRun_keeps {db : Database F} (calls : List FleetCall) {licenseId : Str} {row : IssuanceLedger}
    {secret : DeploymentSecret} (hrow : db.findLicense licenseId = some row) (hpins : Pins db row secret) :
    ∃ row', (run fleetStep db calls).findLicense licenseId = some row' ∧ Evolves row row' ∧
      Pins (run fleetStep db calls) row' secret := by
  induction calls generalizing db row with
  | nil => exact ⟨row, hrow, .refl row, hpins⟩
  | cons c calls ih =>
    obtain ⟨mid, hmid, hev, hpins⟩ := fleetStep_keeps c hrow hpins
    obtain ⟨row', hrow', hev', hpins'⟩ := ih hmid hpins
    exact ⟨row', hrow', hev.trans hev', hpins'⟩

/-- What is superseded was renewed. -/
theorem renewal_of_superseded (history : List FleetCall) {licenseId : Str} {row : IssuanceLedger}
    (hrow : (fleetAfter F history).findLicense licenseId = some row) (hs : row.supersededBy ≠ none) :
    ∃ before ambient priv req between,
      history = before ++ .ledger (.renew ambient priv licenseId req) :: between ∧
      Commits (fleetAfter F before) (.renew ambient priv licenseId req) := by
  induction history using List.reverseRecOn generalizing row with
  | nil => cases hrow
  | append_singleton history c ih =>
    have hearlier : ∀ old, (fleetAfter F history).findLicense licenseId = some old → old.supersededBy ≠ none →
        ∃ before ambient priv req between,
          history ++ [c] = before ++ .ledger (.renew ambient priv licenseId req) :: between ∧
          Commits (fleetAfter F before) (.renew ambient priv licenseId req) := by
      intro old hold hs
      obtain ⟨before, ambient, priv, req, between, rfl, hcommits⟩ := ih hold hs
      refine ⟨before, ambient, priv, req, between ++ [c], ?_, hcommits⟩
      rw [List.append_assoc, List.cons_append]
    rw [fleetAfter_concat] at hrow
    cases c with
    | ledger c =>
      rcases step_superseded c hrow hs with ⟨old, hold, hs⟩ | ⟨ambient, priv, req, rfl, hcommits⟩
      · exact hearlier old hold hs
      · exact ⟨history, ambient, priv, req, [], rfl, hcommits⟩
    | ingest nesting now raw source =>
      rcases ingest_cases (fleetAfter F history) nesting now raw source with
        hrejects | ⟨record, _, _, -, haccepts⟩
      · rw [fleetStep, hrejects.unchanged] at hrow
        exact hearlier row hrow hs
      · rw [fleetStep, haccepts.stored] at hrow
        exact hearlier row hrow hs

end Renewals

/-! ## Old secrets -/

section Retirement
variable {F : Type} [PyFloat F] [Cryptography] [Unicode] [Hmac] [IntakeLibraries F]

/-- Signed with this secret, and with no other one there is. -/
def SignedWith (db : Database F) (nesting : Nat) (raw : Bytes) (secret : DeploymentSecret) : Prop :=
  VerifiesUnder F nesting raw secret.secret ∧
  ∀ other ∈ db.secrets, other ≠ secret → ¬ VerifiesUnder F nesting raw other.secret

variable (F) in
/-- The envelope gives the id of this credential and reports on the license it was minted for. -/
def Presents (nesting : Nat) (raw : Bytes) (secret : DeploymentSecret) : Prop :=
  ∃ envelope payload, parseEnvelopeOr422 F nesting raw = .ok envelope ∧
    envelope.deploymentSecretId = .str secret.deploymentSecretId ∧
    validatePayloadOr422 envelope.payload = .ok payload ∧ secret.licenseId = some payload.licenseId

/-- A report on a renewed-away license, signed with its own credential. -/
def usesRetired (db : Database F) : FleetCall → Prop
  | .ledger _ => False
  | .ingest nesting _ raw _ => ∃ row secret, db.findLicense row.licenseId = some row ∧ row.supersededBy ≠ none ∧
      Pins db row secret ∧ SignedWith db nesting raw secret ∧ Presents F nesting raw secret

variable (F) in
/-- From the renewal of a license on, nothing signed with its secret is accepted. -/
def RetiresSecrets (history : List FleetCall) : Prop :=
  ∀ before ambient priv p req between nesting now raw source rest,
    history = before ++ .ledger (.renew ambient priv p req) :: between ++ .ingest nesting now raw source :: rest →
    Commits (fleetAfter F before) (.renew ambient priv p req) →
    ∀ row secret, (fleetAfter F before).findLicense p = some row → Pins (fleetAfter F before) row secret →
    SignedWith (fleetAfter F (before ++ .ledger (.renew ambient priv p req) :: between)) nesting raw secret →
    Session.Rejects (fleetAfter F (before ++ .ledger (.renew ambient priv p req) :: between))
      (ingest nesting now raw source)

omit [Cryptography] in
/-- Nothing in the way of a credential asks whether its license is still current. -/
theorem accepts_of_presents [HexDigest] {db : Database F} {row : IssuanceLedger} {secret : DeploymentSecret}
    {nesting : Nat} {raw : Bytes} (hnamed : secret.deploymentSecretId ≠ [])
    (hrow : db.findLicense row.licenseId = some row) (hpins : Pins db row secret)
    (hsigned : VerifiesUnder F nesting raw secret.secret) (h : Presents F nesting raw secret)
    (source : Str) (now : Instant) : ∃ record, Accepts db (ingest nesting now raw source) record := by
  obtain ⟨envelope, payload, hparse, hsid, hvalid, hlicense⟩ := h
  obtain ⟨envelope', signed, signature, hparse', hsigned, hsignature, hsign⟩ := hsigned
  obtain rfl := Except.ok.inj (hparse.symm.trans hparse')
  have hsame : payload.licenseId = row.licenseId := Option.some.inj (hlicense.symm.trans hpins.license)
  exact ⟨_, ingest_of_acceptable hparse
    { credential := hsid
      named := hnamed
      found := hpins.found
      signed := ⟨signed, signature, hsigned, hsign, hsignature⟩
      valid := validatePayloadOr422_ok.mp hvalid
      license := hsame ▸ hrow
      pinned := hpins.credential } source now⟩

omit [PyFloat F] [Unicode] [Hmac] [IntakeLibraries F] [Cryptography] in
theorem Accepts.not_rejects {db : Database F} {call : Session F Accepted} {record : TelemetryRecord F}
    (h : Accepts db call record) : ¬ Session.Rejects db call := by
  rintro ⟨e, he⟩
  rw [Accepts, he] at h
  cases (Prod.mk.inj h).2

omit [Cryptography] in
/-- What a secret alone gets accepted is a report on its own license. -/
theorem presents_of_signedWith {db : Database F} (hdb : Credentialed db) {secret : DeploymentSecret}
    {nesting : Nat} {raw : Bytes} (h : SignedWith db nesting raw secret) (source : Str) (now : Instant) :
    Session.Rejects db (ingest nesting now raw source) ∨
    ∃ licenseId row, db.findLicense licenseId = some row ∧ Pins db row secret ∧ Presents F nesting raw secret := by
  rcases ingest_opened db nesting now raw source with
    hrejects | ⟨record, secret', row, hstored, ⟨envelope, payload, hparse, hvalid, hid, hsid⟩, -⟩
  · exact .inl hrejects
  have hsame : secret' = secret := by
    by_contra hne
    exact h.2 secret' (Table.mem_of_find hstored.credential).1 hne hstored.verifies
  subst hsame
  have hpins := hstored.pins hdb
  have hsid : envelope.deploymentSecretId = .str secret'.deploymentSecretId := by
    rcases hsid with hnone | hsid
    · rw [hpins.credential] at hnone
      cases hnone
    · exact hsid
  refine .inr ⟨record.licenseId, row, hstored.found, hpins, envelope, payload, hparse, hsid, hvalid, ?_⟩
  rw [hpins.license, (Table.mem_of_find hstored.found).2, hid]

theorem not_retiresSecrets_of_uses [HexDigest] {before rest : List FleetCall} {c : FleetCall}
    (h : usesRetired (fleetAfter F before) c) : ¬ RetiresSecrets F (before ++ c :: rest) := by
  intro hretires
  cases c with
  | ledger c => exact h
  | ingest nesting now raw source =>
    obtain ⟨row, secret, hrow, hs, hpins, hsigned, hpresents⟩ := h
    obtain ⟨earlier, ambient, priv, req, between, rfl, hcommits⟩ := renewal_of_superseded before hrow hs
    obtain ⟨plan, hprep, -⟩ := commits_iff.mp hcommits
    obtain ⟨prior, hprior⟩ : ∃ prior, (fleetAfter F earlier).findLicense row.licenseId = some prior := by
      generalize hlicense : row.licenseId = licenseId at hprep
      cases found_of_prepare hprep with
      | renew found => exact ⟨_, found⟩
    obtain ⟨minted, hminted⟩ := fleetAfter_credentialed earlier prior (Table.mem_of_find hprior).1
    -- the credential the license was minted with is the one it has now
    obtain ⟨row', hrow', -, hpins'⟩ := fleetRun_keeps (.ledger (.renew ambient priv row.licenseId req) :: between)
      hprior hminted
    rw [fleetAfter, run_append] at hrow hpins hsigned
    obtain rfl := Option.some.inj (hrow.symm.trans hrow')
    obtain rfl := hpins.unique hpins'
    have hnamed := fleetAfter_named earlier minted (Table.mem_of_find hminted.found).1
    obtain ⟨record, haccepts⟩ := accepts_of_presents hnamed hrow hpins hsigned.1 hpresents source now
    refine haccepts.not_rejects ?_
    have hrejects := hretires earlier ambient priv row.licenseId req between nesting now raw source rest rfl hcommits
      prior minted hprior hminted
    rw [fleetAfter, run_append] at hrejects
    exact hrejects hsigned

/-- Old secrets are retired in the runs in which nobody uses one for its own license. -/
theorem secrets_retired_iff [HexDigest] (history : List FleetCall) :
    RetiresSecrets F history ↔
      Guarded fleetStep (fun db c => ¬ usesRetired db c) (Database.empty : Database F) history := by
  constructor
  · intro hretires
    rw [guarded_iff]
    rintro before c rest rfl huses
    exact not_retiresSecrets_of_uses huses hretires
  · rintro hguard before ambient priv p req between nesting now raw source rest rfl hcommits row secret hrow hpins
      hsigned
    have hunused := guarded_iff.mp hguard _ _ rest rfl
    rcases presents_of_signedWith (fleetAfter_credentialed _) hsigned source now with
      hrejects | ⟨licenseId, row', hrow', hpins', hpresents⟩
    · exact hrejects
    exfalso
    apply hunused
    obtain ⟨renewed, hrenewed, hs⟩ := superseded_of_commits hcommits
    have hstep := fleetStep_keeps (.ledger (.renew ambient priv p req)) hrow hpins
    obtain ⟨mid, hmid, -, hpinsMid⟩ := hstep
    obtain rfl := Option.some.inj (hrenewed.symm.trans hmid)
    obtain ⟨final, hfinal, hev, hpinsFinal⟩ := fleetRun_keeps between hmid hpinsMid
    have hstate : run fleetStep (fleetStep (fleetAfter F before) (.ledger (.renew ambient priv p req))) between =
        fleetAfter F (before ++ .ledger (.renew ambient priv p req) :: between) := by
      rw [fleetAfter, fleetAfter, run_append, run_cons]
    rw [hstate] at hfinal hpinsFinal
    obtain ⟨successor, hsuccessor⟩ := Option.ne_none_iff_exists'.mp hs
    refine ⟨final, secret, ?_, ?_, hpinsFinal, hsigned, hpresents⟩
    · rw [(Table.mem_of_find hfinal).2]
      exact hfinal
    · rw [hev.superseded successor hsuccessor]
      exact Option.some_ne_none _

end Retirement

/-! ## A leaked secret -/

section Acme
attribute [local instance] asciiUnicode mirrorCryptography distinctHmac schemaLibraries distinctHmac_lawful

def acmeRenewed : List FleetCall := [.ledger acmeIssue, .ledger acmeRenew]

def acmeLeak : FleetCall := .ingest 1000 newYear acmeEnvelope (lit "realtime")

/-- The report is signed with the first secret, and the second one signs differently. -/
theorem acme_signed {secret : Str} (h : VerifiesUnder Unit 1000 acmeEnvelope secret) : secret ≠ lit "t" := by
  have hbytes : (parseEnvelopeOr422 Unit 1000 acmeEnvelope).toOption.map
      (fun e => ((canonicalPayloadBytes e.payload).toOption, e.signature.pyStr)) =
        some (some acmeSigned, acmeDigest) := by
    decide +kernel
  obtain ⟨envelope, signed, signature, hparse, hsigned, hsignature, hsign⟩ := h
  rw [hparse] at hbytes
  simp only [Except.toOption, Option.map_some, hsigned, hsignature, Option.some.injEq, Prod.mk.injEq] at hbytes
  obtain ⟨rfl, rfl⟩ := hbytes
  rintro rfl
  revert hsign
  decide

theorem acme_uses_retired : usesRetired (fleetAfter Unit acmeRenewed) acmeLeak := by
  have hstores : (fleetStep (fleetAfter Unit acmeRenewed) acmeLeak).telemetry.map TelemetryRecord.licenseId =
      [lit "acme-1"] := by
    decide +kernel
  have hempty : (fleetAfter Unit acmeRenewed).telemetry.length = 0 := by decide +kernel
  have hold : ∀ row, (fleetAfter Unit acmeRenewed).findLicense (lit "acme-1") = some row → row.supersededBy ≠ none := by
    intro row hrow
    have h : ((fleetAfter Unit acmeRenewed).findLicense (lit "acme-1")).bind IssuanceLedger.supersededBy ≠ none := by
      decide +kernel
    rw [hrow] at h
    exact h
  rw [List.length_eq_zero_iff] at hempty
  rw [acmeLeak, fleetStep] at hstores
  rcases ingest_opened (fleetAfter Unit acmeRenewed) 1000 newYear acmeEnvelope (lit "realtime") with
    hrejects | ⟨record, secret, row, hstored, ⟨envelope, payload, hparse, hvalid, hid, hsid⟩, haccepts⟩
  · rw [hrejects.unchanged, hempty] at hstores
    cases hstores
  have hpins := hstored.pins (fleetAfter_credentialed acmeRenewed)
  rw [haccepts.stored, hempty] at hstores
  have hlicense : record.licenseId = lit "acme-1" := List.singleton_inj.mp hstores
  have hold := hold row (hlicense ▸ hstored.found)
  have hid' : row.licenseId = record.licenseId := (Table.mem_of_find hstored.found).2
  refine ⟨row, secret, hid' ▸ hstored.found, hold, hpins, ⟨hstored.verifies, ?_⟩, envelope, payload, hparse, ?_, hvalid,
    ?_⟩
  · have hother : ∀ a ∈ (fleetAfter Unit acmeRenewed).secrets, ∀ b ∈ (fleetAfter Unit acmeRenewed).secrets, b ≠ a →
        a.secret = lit "t" ∨ b.secret = lit "t" := by
      decide +kernel
    intro other hmem hne hverifies
    rcases hother secret (Table.mem_of_find hpins.found).1 other hmem hne with h | h
    · exact acme_signed hstored.verifies h
    · exact acme_signed hverifies h
  · rcases hsid with hnone | hsid
    · rw [hpins.credential] at hnone
      cases hnone
    · exact hsid
  · rw [hpins.license, hid', hid]

/-- Issue, renew, and a report under the old secret: it is accepted. -/
theorem old_secret_accepted : ¬ RetiresSecrets Unit (acmeRenewed ++ [acmeLeak]) :=
  not_retiresSecrets_of_uses acme_uses_retired

/-- The same report before the renewal. -/
theorem secret_used_in_time : RetiresSecrets Unit [.ledger acmeIssue, acmeLeak, .ledger acmeRenew] := by
  refine (secrets_retired_iff _).mpr ⟨id, ?_, id, trivial⟩
  rintro ⟨row, secret, hrow, hs, -⟩
  have hcurrent : ∀ row ∈ (fleetAfter Unit [.ledger acmeIssue]).ledger, row.supersededBy = none := by
    decide
  exact hs (hcurrent row (Table.mem_of_find hrow).1)

end Acme

end IsaCloud.Fleet
