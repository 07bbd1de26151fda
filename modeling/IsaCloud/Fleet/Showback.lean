import IsaCloud.Fleet.TelemetryQueries
import IsaCloud.Support.Dict

/-!
# Showback

`GET /fleet/showback`: a row for each license of the roster, from its newest record
while that is recent enough. The age is subtracted from the clock before anything is
compared, and a calendar without that day ends the request.
-/

namespace IsaCloud.Fleet

set_option autoImplicit false

open Support Support.Text Support.Python Support.DateTime Support.IsoTime

inductive TelemetryState where
  | realtime
  | lastUpload
  | none
  deriving DecidableEq, Repr

structure ShowbackRow (F : Type) where
  customerId : Str
  licenseId : Str
  edition : Str
  telemetryState : TelemetryState
  lastSeen : Option Str := Option.none
  source : Option Str := Option.none
  activeEdition : Option Str := Option.none
  activeModules : List Str := []
  moduleUsage : List (Str × Int) := []
  showbackTotals : List (Str × F) := []
  overLicense : Bool := false
  note : Option Str := Option.none

section Rows
variable {F : Type} (R : Reading F) (db : Database F)

def silenceNote (d : DeploymentSilence) : Str :=
  match d.lastSeen with
  | some seen => lit "no telemetry since " ++ isoformat seen
  | none => lit "no telemetry on record"

def noneRow (editions : Dict Str Str) (d : DeploymentSilence) : ShowbackRow F where
  customerId := d.customerId
  licenseId := d.licenseId
  edition := (editions.get d.licenseId).getD []
  telemetryState := .none
  lastSeen := d.lastSeen.map isoformat
  note := some (silenceNote d)

def liveRow (editions : Dict Str Str) (d : DeploymentSilence) (record : TelemetryRecord F) :
    ShowbackRow F where
  customerId := d.customerId
  licenseId := d.licenseId
  edition := (editions.get d.licenseId).getD (record.activeEdition.getD [])
  telemetryState := if record.source = lit "realtime" then .realtime else .lastUpload
  lastSeen := d.lastSeen.map isoformat
  source := some record.source
  activeEdition := record.activeEdition
  activeModules := record.activeModules
  moduleUsage := record.moduleUsage
  showbackTotals := record.showbackTotals
  overLicense := record.overLicense

def showbackRow (editions : Dict Str Str) (d : DeploymentSilence) : ShowbackRow F :=
  match latestRecord R db d.licenseId with
  | none => noneRow editions d
  | some record => if d.silent then noneRow editions d else liveRow editions d record

def editions : Dict Str Str :=
  Dict.comprehension IssuanceLedger.licenseId IssuanceLedger.edition (roster db false)

/-- The handler; the router lets no negative age in. -/
def getShowback (silentAfterDays : Option Nat) (now : Instant) :
    Except PyError (List (ShowbackRow F)) :=
  match lastSeenPerDeployment R db (silentAfterDays.map Int.ofNat) now false with
  | .error e => .error e
  | .ok silences => .ok (silences.map (showbackRow R db (editions db)))

/-- A license without telemetry, or with none that is recent enough. -/
def Quiet (silentAfterDays : Option Nat) (now : Instant) (licenseId : Str) : Prop :=
  (∀ record ∈ db.telemetry, record.licenseId ≠ licenseId) ∨
  ∃ days ∈ silentAfterDays, ∃ newest, maxSeen R db licenseId = some newest ∧
    newest + days * usPerDay < now

/-- A row that shows the record of a license. -/
structure Shows (row : ShowbackRow F) (record : TelemetryRecord F) : Prop where
  stored : record ∈ db.telemetry
  license : record.licenseId = row.licenseId
  newest : ∀ other ∈ db.telemetry, other.licenseId = row.licenseId →
    R.seen other.lastSeen ≤ R.seen record.lastSeen
  lastSeen : row.lastSeen = some (isoformat (R.seen record.lastSeen))
  activeEdition : row.activeEdition = record.activeEdition
  activeModules : row.activeModules = record.activeModules
  moduleUsage : row.moduleUsage = record.moduleUsage
  showbackTotals : row.showbackTotals = record.showbackTotals
  overLicense : row.overLicense = record.overLicense

/-- A row that shows nothing. -/
structure ShowsNothing (row : ShowbackRow F) : Prop where
  telemetryState : row.telemetryState = .none
  activeModules : row.activeModules = []
  moduleUsage : row.moduleUsage = []
  showbackTotals : row.showbackTotals = []
  overLicense : row.overLicense = false

/-- One row for each license of the roster, and nothing in it that no record says. -/
structure Complete (silentAfterDays : Option Nat) (now : Instant) (rows : List (ShowbackRow F)) :
    Prop where
  licenses : (rows.map ShowbackRow.licenseId).Perm
    ((roster db false).map IssuanceLedger.licenseId)
  ledger : ∀ row ∈ rows, ∃ license ∈ roster db false, license.licenseId = row.licenseId ∧
    license.edition = row.edition
  quiet : ∀ row ∈ rows, Quiet R db silentAfterDays now row.licenseId → ShowsNothing row
  shown : ∀ row ∈ rows, ¬ Quiet R db silentAfterDays now row.licenseId →
    ∃ record, Shows R db row record

variable {R db}

/-- The days before now are those before the threshold. -/
theorem quiet_iff {silentAfterDays : Option Nat} {now : Instant} {threshold : Option Instant}
    (h : silentBefore (silentAfterDays.map Int.ofNat) now = .ok threshold) (licenseId : Str) :
    Quiet R db silentAfterDays now licenseId ↔ isSilent threshold (maxSeen R db licenseId) = true := by
  have hempty : (∀ record ∈ db.telemetry, record.licenseId ≠ licenseId) ↔
      maxSeen R db licenseId = none := by
    rw [maxSeen_eq_none_iff, recordsOf, List.filter_eq_nil_iff]
    simp
  rw [Quiet, hempty]
  cases hmax : maxSeen R db licenseId with
  | none => simp [isSilent]
  | some newest =>
    cases silentAfterDays with
    | none =>
      obtain rfl := Except.ok.inj h
      simp [isSilent]
    | some days =>
      obtain ⟨t, rfl, ht⟩ := silentBefore_some h
      have hbefore : newest + days * usPerDay < now ↔ newest < t := by
        rw [Int.ofNat_eq_natCast] at ht
        constructor
        · intro hlt
          have : ((newest + days * usPerDay : Nat) : Int) < now := Int.ofNat_lt.mpr hlt
          rw [Int.natCast_add, Int.natCast_mul] at this
          exact Int.ofNat_lt.mp (by omega)
        · intro hlt
          have : (newest : Int) < t := Int.ofNat_lt.mpr hlt
          apply Int.ofNat_lt.mp
          rw [Int.natCast_add, Int.natCast_mul]
          omega
      simp [isSilent, hbefore]

theorem showbackRow_fields (es : Dict Str Str) (d : DeploymentSilence) :
    (showbackRow R db es d).licenseId = d.licenseId ∧
      ∃ fallback, (showbackRow R db es d).edition = (es.get d.licenseId).getD fallback := by
  unfold showbackRow
  split
  · exact ⟨rfl, _, rfl⟩
  · split
    · exact ⟨rfl, _, rfl⟩
    · exact ⟨rfl, _, rfl⟩

theorem noneRow_showsNothing (es : Dict Str Str) (d : DeploymentSilence) :
    ShowsNothing (noneRow es d : ShowbackRow F) := ⟨rfl, rfl, rfl, rfl, rfl⟩

theorem silent_showsNothing (es : Dict Str Str) {d : DeploymentSilence} (h : d.silent = true) :
    ShowsNothing (showbackRow R db es d) := by
  unfold showbackRow
  split
  · exact noneRow_showsNothing es d
  · rw [if_pos h]
    exact noneRow_showsNothing es d

theorem live_shows (es : Dict Str Str) {threshold : Option Instant} {license : IssuanceLedger}
    (h : (deploymentSilence R db threshold license).silent = false) :
    ∃ record, Shows R db (showbackRow R db es (deploymentSilence R db threshold license)) record := by
  have hsome : recordsOf db license.licenseId ≠ [] := by
    intro hnil
    have hmax := maxSeen_eq_none_iff (R := R).mpr hnil
    simp [deploymentSilence, hmax, isSilent] at h
  obtain ⟨record, hrecord⟩ := latestRecord_isSome (R := R) hsome
  obtain ⟨hmem, hnewest⟩ := latestRecord_spec hrecord
  obtain ⟨hstored, hlicense⟩ := mem_recordsOf.mp hmem
  have hrow : showbackRow R db es (deploymentSilence R db threshold license) =
      liveRow es (deploymentSilence R db threshold license) record := by
    have hlatest : latestRecord R db (deploymentSilence R db threshold license).licenseId =
        some record := hrecord
    simp only [showbackRow, hlatest, h, Bool.false_eq_true, if_false]
  rw [hrow]
  refine ⟨record, ⟨hstored, hlicense, ?_, ?_, rfl, rfl, rfl, rfl, rfl⟩⟩
  · intro other hother hof
    exact hnewest other (mem_recordsOf.mpr ⟨hother, hof⟩)
  · simp only [liveRow, deploymentSilence, latestRecord_seen hrecord, Option.map_some]

theorem edition_of_roster (row : ShowbackRow F) {license : IssuanceLedger} {fallback : Str}
    (hlicense : license ∈ roster db false)
    (h : row.edition = ((editions db).get license.licenseId).getD fallback) :
    ∃ other ∈ roster db false, other.licenseId = license.licenseId ∧ other.edition = row.edition := by
  obtain ⟨other, hother, hid, hget⟩ := Dict.get_comprehension IssuanceLedger.licenseId
    IssuanceLedger.edition hlicense
  have hget' : (editions db).get license.licenseId = some other.edition := hget
  rw [hget', Option.getD_some] at h
  exact ⟨other, hother, hid, h.symm⟩

theorem complete_of_threshold {silentAfterDays : Option Nat} {now : Instant} {threshold : Option Instant}
    (h : silentBefore (silentAfterDays.map Int.ofNat) now = .ok threshold) :
    ∃ rows, getShowback R db silentAfterDays now = .ok rows ∧
      Complete R db silentAfterDays now rows := by
  have hget : getShowback R db silentAfterDays now =
      .ok ((((selected false db.ledger).insertionSort byCustomerThenLicense).map
        (deploymentSilence R db threshold)).map (showbackRow R db (editions db))) := by
    rw [getShowback, lastSeenPerDeployment, h]
  have hrows : ∀ row, row ∈ (((selected false db.ledger).insertionSort byCustomerThenLicense).map
      (deploymentSilence R db threshold)).map (showbackRow R db (editions db)) →
      ∃ license ∈ roster db false,
        row = showbackRow R db (editions db) (deploymentSilence R db threshold license) := by
    intro row hrow
    obtain ⟨d, hd, rfl⟩ := List.mem_map.mp hrow
    obtain ⟨license, hlicense, rfl⟩ := List.mem_map.mp hd
    refine ⟨license, ?_, rfl⟩
    rw [roster, List.mem_insertionSort]
    exact (List.mem_insertionSort _).mp hlicense
  refine ⟨_, hget, ?_, ?_, ?_, ?_⟩
  · rw [List.map_map, List.map_map]
    have hid : (ShowbackRow.licenseId ∘ showbackRow R db (editions db)) ∘ deploymentSilence R db threshold =
        IssuanceLedger.licenseId := by
      funext license
      exact (showbackRow_fields (editions db) (deploymentSilence R db threshold license)).1
    rw [hid, roster]
    have hsame := (List.perm_insertionSort byCustomerThenLicense (selected false db.ledger)).trans
      (List.perm_insertionSort byCustomerThenIssued (selected false db.ledger)).symm
    exact hsame.map IssuanceLedger.licenseId
  · intro row hrow
    obtain ⟨license, hlicense, rfl⟩ := hrows row hrow
    obtain ⟨hid, fallback, hedition⟩ :=
      showbackRow_fields (R := R) (editions db) (deploymentSilence R db threshold license)
    obtain ⟨other, hother, hsame, heq⟩ := edition_of_roster _ hlicense hedition
    exact ⟨other, hother, hsame.trans hid.symm, heq⟩
  · intro row hrow hquiet
    obtain ⟨license, -, rfl⟩ := hrows row hrow
    rw [(showbackRow_fields _ _).1, quiet_iff h] at hquiet
    exact silent_showsNothing _ hquiet
  · intro row hrow hquiet
    obtain ⟨license, -, rfl⟩ := hrows row hrow
    rw [(showbackRow_fields _ _).1, quiet_iff h, Bool.not_eq_true] at hquiet
    exact live_shows _ hquiet

variable (R db) in
/-- Showback is complete whenever the calendar reaches back to the threshold. -/
theorem showback_complete_iff (silentAfterDays : Option Nat) {now : Instant} (hnow : now < maxInstant) :
    (∃ rows, getShowback R db silentAfterDays now = .ok rows ∧
      Complete R db silentAfterDays now rows) ↔
      ∀ days ∈ silentAfterDays, days * usPerDay ≤ now := by
  constructor
  · rintro ⟨rows, hrows, -⟩ days rfl
    apply (minusDays_iff hnow days).mp
    cases hday : minusDays now (days : Int) with
    | ok t => exact ⟨t, rfl⟩
    | error e =>
      simp only [getShowback, lastSeenPerDeployment, Option.map_some, silentBefore,
        Int.ofNat_eq_natCast, hday] at hrows
      cases hrows
  · intro hdays
    cases silentAfterDays with
    | none => exact complete_of_threshold rfl
    | some days =>
      obtain ⟨t, ht⟩ := (minusDays_iff hnow days).mpr (hdays days rfl)
      have hthreshold : silentBefore ((some days).map Int.ofNat) now = .ok (some t) := by
        simp only [Option.map_some, silentBefore, Int.ofNat_eq_natCast, ht]
        rfl
      exact complete_of_threshold hthreshold

end Rows

/-! ## One yard -/

section Yard

/-- A database that keeps instants and returns rows that tie in table order. -/
def inOrder : Reading Unit where
  seen d := (d.wall - d.offset.getD 0).toNat
  first := List.head?
  first_mem := List.mem_of_head?
  first_isSome {records} h := by
    cases records with
    | nil => exact absurd rfl h
    | cons r rs => rfl

/-- 2026-01-01 -/
def firstDay : Instant := 63902822400000000

def yardLicense : IssuanceLedger where
  licenseId := lit "yard-1"
  customerId := lit "yard"
  edition := lit "saas"
  entitledModules := []
  quotaTier := none
  issuedAt := firstDay
  notBefore := firstDay
  expiresAt := none
  supersededBy := none
  delivery := none
  deploymentSecretId := none
  revokedAt := none
  revokedReason := none

def yardReport : TelemetryRecord Unit where
  id := 1
  licenseId := lit "yard-1"
  deploymentSecretId := none
  lastSeen := ⟨firstDay, some 0⟩
  receivedAt := firstDay
  source := lit "realtime"
  activeEdition := some (lit "saas")
  activeModules := []
  moduleUsage := [(lit "erp", 1200)]
  showbackTotals := []
  overLicense := false

def yard : Database Unit := ⟨[yardLicense], [], [yardReport]⟩

theorem yard_shown : ∃ rows, getShowback inOrder yard (some 30) firstDay = .ok rows ∧
    Complete inOrder yard (some 30) firstDay rows := by
  refine (showback_complete_iff inOrder yard (some 30) (by decide : firstDay < maxInstant)).mpr ?_
  intro days hdays
  obtain rfl := Option.mem_some_iff.mp hdays
  decide

/-- A million days ago there was no calendar. -/
theorem yard_not_shown : ¬ ∃ rows, getShowback inOrder yard (some 1000000) firstDay = .ok rows ∧
    Complete inOrder yard (some 1000000) firstDay rows := by
  rintro ⟨rows, hrows, -⟩
  have hraises : ((getShowback inOrder yard (some 1000000) firstDay).map fun _ => ()) =
      .error dateOutOfRange := by
    decide
  rw [hrows] at hraises
  cases hraises

end Yard

end IsaCloud.Fleet
