import IsaCloud.Fleet.Attribution
import IsaCloud.Fleet.Showback
import IsaCloud.Support.JsonNesting

/-!
# Telemetry that comes in twice

Intake does not remember the envelopes it has accepted, so each of them can be sent
again and is stored again. The read side looks for the newest `last_seen` of a
license; a record that repeats another one moves neither it nor what stands beside it.
-/

namespace IsaCloud.Fleet

set_option autoImplicit false

open Support Support.Text Support.Python Support.DateTime Support.IsoTime Support.Encoding License

/-! ## One envelope, one payload -/

section Parsing
variable {F : Type} [PyFloat F] [Unicode]

omit [Unicode] in
theorem loadsBytes_agree {nesting nesting' : Nat} {raw : Bytes} {j j' : Json F}
    (h : loadsBytes nesting raw = .ok j) (h' : loadsBytes nesting' raw = .ok j') : j = j' := by
  unfold loadsBytes at h h'
  cases hdecode : decodeBody raw with
  | error e =>
    rw [hdecode] at h
    cases h
  | ok text =>
    rw [hdecode] at h h'
    exact Json.loads_agree h h'

theorem parse_ok {nesting : Nat} {raw : Bytes} {envelope : Envelope F}
    (h : parseEnvelopeOr422 F nesting raw = .ok envelope) :
    ∃ members, loadsBytes nesting raw = .ok (.obj members) ∧ openEnvelope members = .ok envelope := by
  unfold parseEnvelopeOr422 at h
  split at h
  · split at h <;> cases h
  · rename_i members hloads
    exact ⟨members, hloads, h⟩
  · cases h

/-- The stack that was left shows in no envelope. -/
theorem parse_agree {nesting nesting' : Nat} {raw : Bytes} {envelope envelope' : Envelope F}
    (h : parseEnvelopeOr422 F nesting raw = .ok envelope)
    (h' : parseEnvelopeOr422 F nesting' raw = .ok envelope') : envelope = envelope' := by
  obtain ⟨members, hloads, hopen⟩ := parse_ok h
  obtain ⟨members', hloads', hopen'⟩ := parse_ok h'
  obtain rfl := Json.obj.inj (loadsBytes_agree hloads hloads')
  exact Except.ok.inj (hopen.symm.trans hopen')

end Parsing

/-! ## Stores and their events -/

/-- An envelope comes in, or the console leaves the other tables as it wants them. -/
inductive StoreEvent where
  | ingest (nesting : Nat) (now : Instant) (raw : Bytes) (source : Str)
  | console (ledger : List IssuanceLedger) (secrets : List DeploymentSecret)

section Stores
variable {F : Type} [PyFloat F] [Unicode] [Hmac] [IntakeLibraries F]

def storeStep (db : Database F) : StoreEvent → Database F
  | .ingest nesting now raw source => (Session.exec (ingest nesting now raw source) db).1
  | .console ledger secrets => { db with ledger := ledger, secrets := secrets }

variable (F) in
def storeAfter (events : List StoreEvent) : Database F := run storeStep Database.empty events

variable (F) in
/-- The envelope was accepted in the course of the events. -/
def AcceptedIn (events : List StoreEvent) (raw : Bytes) : Prop :=
  ∃ before nesting now source rest record, events = before ++ .ingest nesting now raw source :: rest ∧
    Accepts (storeAfter F before) (ingest nesting now raw source) record

variable (F) in
/-- An envelope that was accepted comes in again, over either entrypoint. -/
def Replays (events : List StoreEvent) : StoreEvent → Prop
  | .ingest _ _ raw _ => AcceptedIn F events raw
  | .console _ _ => False

theorem storeAfter_concat (events : List StoreEvent) (e : StoreEvent) :
    storeAfter F (events ++ [e]) = storeStep (storeAfter F events) e :=
  run_append storeStep Database.empty events [e]

theorem mem_storeStep {db : Database F} {record : TelemetryRecord F} (h : record ∈ db.telemetry)
    (e : StoreEvent) : record ∈ (storeStep db e).telemetry := by
  cases e with
  | console ledger secrets => exact h
  | ingest nesting now raw source =>
    rcases ingest_cases db nesting now raw source with hrejects | ⟨stored, secret, row, -, haccepts⟩
    · rw [storeStep, hrejects.unchanged]
      exact h
    · rw [storeStep, haccepts.stored]
      exact List.mem_append_left [stored] h

/-- What a record says does not depend on when and how it came in. -/
structure Echoes (record record' : TelemetryRecord F) : Prop where
  licenseId : record'.licenseId = record.licenseId
  lastSeen : record'.lastSeen = record.lastSeen
  activeEdition : record'.activeEdition = record.activeEdition
  activeModules : record'.activeModules = record.activeModules
  moduleUsage : record'.moduleUsage = record.moduleUsage
  showbackTotals : record'.showbackTotals = record.showbackTotals
  overLicense : record'.overLicense = record.overLicense

omit [PyFloat F] [Unicode] [Hmac] [IntakeLibraries F] in
theorem echoes_refl (record : TelemetryRecord F) : Echoes record record :=
  ⟨rfl, rfl, rfl, rfl, rfl, rfl, rfl⟩

omit [PyFloat F] [Unicode] [Hmac] [IntakeLibraries F] in
theorem echoes_recordOf (db db' : Database F) (payload : TelemetryPayload F) (sid sid' source source' : Str)
    (now now' : Instant) : Echoes (recordOf db payload sid source now) (recordOf db' payload sid' source' now') :=
  ⟨rfl, rfl, rfl, rfl, rfl, rfl, rfl⟩

/-- The record of an accepted envelope. -/
theorem accepted_payload {db : Database F} {nesting : Nat} {now : Instant} {raw : Bytes} {source : Str}
    {record : TelemetryRecord F} (h : Accepts db (ingest nesting now raw source) record) :
    ∃ (envelope : Envelope F) (payload : TelemetryPayload F) (sid : Str),
      parseEnvelopeOr422 F nesting raw = .ok envelope ∧
      validatePayloadOr422 envelope.payload = .ok payload ∧ record = recordOf db payload sid source now := by
  rcases ingest_traced db nesting now raw source with
    ⟨e, hraises⟩ | ⟨envelope, payload, secret, row, hparse, hvalid, -, -, haccepts⟩
  · rw [Accepts, hraises] at h
    cases (Prod.mk.inj h).2
  · have hsame := haccepts.stored.symm.trans h.stored
    rw [Database.mk.injEq] at hsame
    have hrecord := List.append_cancel_left hsame.2.2
    exact ⟨envelope, payload, secret.deploymentSecretId, hparse, hvalid,
      (List.singleton_inj.mp hrecord).symm⟩

/-- Two records of one envelope say the same. -/
theorem accepted_echoes {db db' : Database F} {nesting nesting' : Nat} {now now' : Instant} {raw : Bytes}
    {source source' : Str} {record record' : TelemetryRecord F}
    (h : Accepts db (ingest nesting now raw source) record)
    (h' : Accepts db' (ingest nesting' now' raw source') record') : Echoes record record' := by
  obtain ⟨envelope, payload, sid, hparse, hvalid, rfl⟩ := accepted_payload h
  obtain ⟨envelope', payload', sid', hparse', hvalid', rfl⟩ := accepted_payload h'
  obtain rfl := parse_agree hparse hparse'
  obtain rfl := Except.ok.inj (hvalid.symm.trans hvalid')
  exact echoes_recordOf db db' payload sid sid' source source' now now'

/-- The record of an accepted envelope is still there. -/
theorem accepted_recorded {events : List StoreEvent} {raw : Bytes} (h : AcceptedIn F events raw) :
    ∃ record ∈ (storeAfter F events).telemetry, ∃ db nesting now source,
      Accepts db (ingest nesting now raw source) record := by
  obtain ⟨before, nesting, now, source, rest, record, rfl, haccepts⟩ := h
  refine ⟨record, ?_, storeAfter F before, nesting, now, source, haccepts⟩
  rw [storeAfter, run_append, run_cons]
  apply run_invariant (fun db : Database F => record ∈ db.telemetry) fun _ e hs => mem_storeStep hs e
  have hstored := haccepts.stored
  rw [storeStep]
  exact hstored ▸ List.mem_append_right _ List.mem_cons_self

/-- The second store is the first one with some of its records repeated. -/
structure Repeats (db db' : Database F) : Prop where
  ledger : db'.ledger = db.ledger
  kept : ∀ record ∈ db.telemetry, record ∈ db'.telemetry
  echoed : ∀ record' ∈ db'.telemetry, ∃ record ∈ db.telemetry, Echoes record record'

omit [PyFloat F] [Unicode] [Hmac] [IntakeLibraries F] in
theorem repeats_refl (db : Database F) : Repeats db db :=
  ⟨rfl, fun _ h => h, fun record h => ⟨record, h, echoes_refl record⟩⟩

theorem repeats_step {events : List StoreEvent} {db : Database F} (h : Repeats (storeAfter F events) db)
    {e : StoreEvent} (he : Replays F events e) : Repeats (storeAfter F events) (storeStep db e) := by
  cases e with
  | console ledger secrets => cases he
  | ingest nesting now raw source =>
    rcases ingest_cases db nesting now raw source with hrejects | ⟨stored, secret, row, -, haccepts⟩
    · rw [storeStep, hrejects.unchanged]
      exact h
    · rw [storeStep, haccepts.stored]
      refine ⟨h.ledger, fun record hr => List.mem_append_left _ (h.kept record hr), ?_⟩
      intro record' hr'
      rcases List.mem_append.mp hr' with hr' | hr'
      · exact h.echoed record' hr'
      · obtain ⟨record, hrecord, db₀, nesting₀, now₀, source₀, haccepts₀⟩ := accepted_recorded he
        rw [List.mem_singleton.mp hr']
        exact ⟨record, hrecord, accepted_echoes haccepts₀ haccepts⟩

/-- However often and in whatever order accepted envelopes come in again. -/
theorem repeats_run {events replays : List StoreEvent} (h : ∀ e ∈ replays, Replays F events e) :
    Repeats (storeAfter F events) (storeAfter F (events ++ replays)) := by
  induction replays using List.reverseRecOn with
  | nil =>
    rw [List.append_nil]
    exact repeats_refl _
  | append_singleton replays e ih =>
    have hbefore := ih fun e' he' => h e' (List.mem_append_left [e] he')
    have hlast := repeats_step hbefore (h e (List.mem_append_right _ List.mem_cons_self))
    rw [← List.append_assoc, storeAfter_concat]
    exact hlast

end Stores

/-! ## The read side -/

section Reads
variable {F : Type}

/-- The same usage report; dicts are compared without their order. -/
structure SamePayload (record record' : TelemetryRecord F) : Prop where
  activeEdition : record'.activeEdition = record.activeEdition
  activeModules : record'.activeModules = record.activeModules
  moduleUsage : record.moduleUsage.Perm record'.moduleUsage
  showbackTotals : record.showbackTotals.Perm record'.showbackTotals
  overLicense : record'.overLicense = record.overLicense

theorem SamePayload.of_echo {record record' record'' : TelemetryRecord F} (h : SamePayload record record')
    (he : Echoes record' record'') : SamePayload record record'' where
  activeEdition := he.activeEdition.trans h.activeEdition
  activeModules := he.activeModules.trans h.activeModules
  moduleUsage := he.moduleUsage ▸ h.moduleUsage
  showbackTotals := he.showbackTotals ▸ h.showbackTotals
  overLicense := he.overLicense.trans h.overLicense

/-- Records of one license with equal `last_seen` carry equal payloads. -/
def Consistent (R : Reading F) (db : Database F) : Prop :=
  ∀ record ∈ db.telemetry, ∀ record' ∈ db.telemetry, record.licenseId = record'.licenseId →
    R.seen record.lastSeen = R.seen record'.lastSeen → SamePayload record record'

variable {R R' : Reading F} (hseen : R'.seen = R.seen) {db db' : Database F} (h : Repeats db db')
include h

theorem recordsOf_repeats (licenseId : Str) :
    (∀ record ∈ recordsOf db licenseId, record ∈ recordsOf db' licenseId) ∧
    ∀ record' ∈ recordsOf db' licenseId, ∃ record ∈ recordsOf db licenseId, Echoes record record' := by
  constructor
  · intro record hrecord
    obtain ⟨hmem, hlicense⟩ := mem_recordsOf.mp hrecord
    exact mem_recordsOf.mpr ⟨h.kept record hmem, hlicense⟩
  · intro record' hrecord'
    obtain ⟨hmem, hlicense⟩ := mem_recordsOf.mp hrecord'
    obtain ⟨record, hrecord, hecho⟩ := h.echoed record' hmem
    exact ⟨record, mem_recordsOf.mpr ⟨hrecord, hecho.licenseId.symm.trans hlicense⟩, hecho⟩

theorem recordsOf_nil_iff {licenseId : Str} : recordsOf db' licenseId = [] ↔ recordsOf db licenseId = [] := by
  obtain ⟨hkept, hechoed⟩ := recordsOf_repeats h licenseId
  simp only [List.eq_nil_iff_forall_not_mem]
  constructor
  · intro hnil record hrecord
    exact hnil record (hkept record hrecord)
  · intro hnil record' hrecord'
    obtain ⟨record, hrecord, -⟩ := hechoed record' hrecord'
    exact hnil record hrecord

include hseen

/-- A repeated `last_seen` is not a new maximum. -/
theorem maxSeen_repeats (licenseId : Str) : maxSeen R' db' licenseId = maxSeen R db licenseId := by
  obtain ⟨hkept, hechoed⟩ := recordsOf_repeats h licenseId
  have hsame : ∀ t, t ∈ (recordsOf db' licenseId).map (fun record => R.seen record.lastSeen) ↔
      t ∈ (recordsOf db licenseId).map fun record => R.seen record.lastSeen := by
    intro t
    simp only [List.mem_map]
    constructor
    · rintro ⟨record', hrecord', rfl⟩
      obtain ⟨record, hrecord, hecho⟩ := hechoed record' hrecord'
      exact ⟨record, hrecord, by rw [hecho.lastSeen]⟩
    · rintro ⟨record, hrecord, rfl⟩
      exact ⟨record, hkept record hrecord, rfl⟩
  apply Option.ext
  intro t
  rw [maxSeen, maxSeen, hseen, List.max?_eq_some_iff, List.max?_eq_some_iff, hsame]
  simp only [hsame]

theorem lastSeenPerDeployment_repeats (silentAfterDays : Option Int) (now : Instant) (includeSuperseded : Bool) :
    lastSeenPerDeployment R' db' silentAfterDays now includeSuperseded =
      lastSeenPerDeployment R db silentAfterDays now includeSuperseded := by
  have hrow : deploymentSilence R' db' = deploymentSilence R db := by
    funext threshold row
    rw [deploymentSilence, deploymentSilence, maxSeen_repeats hseen h]
  rw [lastSeenPerDeployment, lastSeenPerDeployment, hrow, h.ledger]

/-- The latest record says the same, whichever of the newest ones it is. -/
theorem latestRecord_repeats (hconsistent : Consistent R db) (licenseId : Str) :
    Option.Rel SamePayload (latestRecord R db licenseId) (latestRecord R' db' licenseId) := by
  by_cases hnil : recordsOf db licenseId = []
  · have hnone : ∀ (T : Reading F) (d : Database F), recordsOf d licenseId = [] →
        latestRecord T d licenseId = none := by
      intro T d hd
      cases hlatest : latestRecord T d licenseId with
      | none => rfl
      | some record =>
        have hmem := (latestRecord_spec hlatest).1
        rw [hd] at hmem
        cases hmem
    rw [hnone R db hnil, hnone R' db' ((recordsOf_nil_iff h).mpr hnil)]
    exact .none
  · obtain ⟨record, hrecord⟩ := latestRecord_isSome (R := R) hnil
    obtain ⟨record', hrecord'⟩ := latestRecord_isSome (R := R') (fun hnil' => hnil ((recordsOf_nil_iff h).mp hnil'))
    rw [hrecord, hrecord']
    obtain ⟨hmem, -⟩ := latestRecord_spec hrecord
    obtain ⟨echoed, hechoed, hecho⟩ := (recordsOf_repeats h licenseId).2 record' (latestRecord_spec hrecord').1
    obtain ⟨hstored, hlicense⟩ := mem_recordsOf.mp hmem
    obtain ⟨hstored', hlicense'⟩ := mem_recordsOf.mp hechoed
    have hsame : R.seen record.lastSeen = R.seen echoed.lastSeen := by
      have hmax := (latestRecord_seen hrecord').symm.trans (maxSeen_repeats hseen h licenseId)
      rw [latestRecord_seen hrecord, hseen, hecho.lastSeen] at hmax
      exact (Option.some.inj hmax).symm
    have hpayload := hconsistent record hstored echoed hstored' (hlicense.trans hlicense'.symm) hsame
    exact .some (hpayload.of_echo hecho)

end Reads

/-! ## Harmless replays -/

section Harmless
variable {F : Type} [PyFloat F] [Unicode] [Hmac] [IntakeLibraries F]

/-- Envelopes that come in again change neither when a license was last heard of nor
what its latest record says. -/
theorem replay_harmless {R R' : Reading F} (hseen : R'.seen = R.seen) (events replays : List StoreEvent)
    (hconsistent : Consistent R (storeAfter F events)) (hreplays : ∀ e ∈ replays, Replays F events e) :
    (∀ silentAfterDays now includeSuperseded,
      lastSeenPerDeployment R' (storeAfter F (events ++ replays)) silentAfterDays now includeSuperseded =
        lastSeenPerDeployment R (storeAfter F events) silentAfterDays now includeSuperseded) ∧
    ∀ licenseId, Option.Rel SamePayload (latestRecord R (storeAfter F events) licenseId)
      (latestRecord R' (storeAfter F (events ++ replays)) licenseId) := by
  have hrepeats := repeats_run hreplays
  constructor
  · intro silentAfterDays now includeSuperseded
    exact lastSeenPerDeployment_repeats hseen hrepeats silentAfterDays now includeSuperseded
  · intro licenseId
    exact latestRecord_repeats hseen hrepeats hconsistent licenseId

/-- A history of the fleet is one of its telemetry store. -/
theorem fleetAfter_reached [Cryptography] (history : List FleetCall) :
    ∃ events, storeAfter F events = fleetAfter F history := by
  induction history using List.reverseRecOn with
  | nil => exact ⟨[], rfl⟩
  | append_singleton history c ih =>
    obtain ⟨events, hevents⟩ := ih
    rw [fleetAfter_concat]
    cases c with
    | ingest nesting now raw source =>
      refine ⟨events ++ [.ingest nesting now raw source], ?_⟩
      rw [storeAfter_concat, hevents]
      rfl
    | ledger c =>
      refine ⟨events ++ [.console (step (fleetAfter F history) c).ledger (step (fleetAfter F history) c).secrets],
        ?_⟩
      rw [storeAfter_concat, hevents, storeStep, fleetStep, ← step_telemetry (fleetAfter F history) c]

end Harmless

section Acme
attribute [local instance] asciiUnicode mirrorCryptography acmeHmac acmeLibraries

def acmeConsole : StoreEvent :=
  .console (fleetAfter Unit [.ledger acmeIssue]).ledger (fleetAfter Unit [.ledger acmeIssue]).secrets

def acmePush : StoreEvent := .ingest 1000 newYear acmeEnvelope (lit "realtime")

/-- The report again, as an upload. -/
def acmeUpload : StoreEvent := .ingest 1000 newYear acmeEnvelope (lit "offline-upload")

theorem acme_upload_harmless :
    Option.Rel SamePayload (latestRecord inOrder (storeAfter Unit [acmeConsole, acmePush]) (lit "acme-1"))
      (latestRecord inOrder (storeAfter Unit ([acmeConsole, acmePush] ++ [acmeUpload])) (lit "acme-1")) := by
  have hone : (storeAfter Unit [acmeConsole, acmePush]).telemetry.length = 1 := by decide +kernel
  obtain ⟨report, hreport⟩ := List.length_eq_one_iff.mp hone
  have hconsistent : Consistent inOrder (storeAfter Unit [acmeConsole, acmePush]) := by
    intro record hrecord record' hrecord' _ _
    rw [hreport, List.mem_singleton] at hrecord hrecord'
    rw [hrecord, hrecord']
    exact ⟨rfl, rfl, .refl _, .refl _, rfl⟩
  have haccepted : AcceptedIn Unit [acmeConsole, acmePush] acmeEnvelope := by
    rcases ingest_cases (storeAfter Unit [acmeConsole]) 1000 newYear acmeEnvelope (lit "realtime") with
      hrejects | ⟨record, secret, row, -, haccepts⟩
    · have hpush : storeAfter Unit [acmeConsole, acmePush] = storeStep (storeAfter Unit [acmeConsole]) acmePush :=
        storeAfter_concat [acmeConsole] acmePush
      have hnone : (storeAfter Unit [acmeConsole]).telemetry = [] := rfl
      rw [hpush, acmePush, storeStep, hrejects.unchanged, hnone] at hone
      cases hone
    · exact ⟨[acmeConsole], 1000, newYear, lit "realtime", [], record, rfl, haccepts⟩
  have hseen : inOrder.seen = inOrder.seen := rfl
  refine (replay_harmless hseen [acmeConsole, acmePush] [acmeUpload] hconsistent ?_).2 _
  intro e he
  obtain rfl := List.mem_singleton.mp he
  exact haccepted

end Acme

end IsaCloud.Fleet
