import IsaCloud.Fleet.Queries

/-!
# The read side of the telemetry store

`telemetry_queries.py`: the newest record of a license, and when each current license
was last heard of. How a `last_seen` is kept, and which of several newest records the
database returns first, is up to the database: both are a `Reading`.
-/

namespace IsaCloud.Fleet

set_option autoImplicit false

open Support Support.Text Support.Python Support.DateTime Support.IsoTime License

/-- What the database does with stored datetimes and with ties. -/
structure Reading (F : Type) where
  /-- The instant a stored `last_seen` is read back as. -/
  seen : PyDateTime → Instant
  /-- The row that comes first of rows that tie. -/
  first : List (TelemetryRecord F) → Option (TelemetryRecord F)
  first_mem : ∀ {records record}, first records = some record → record ∈ records
  first_isSome : ∀ {records}, records ≠ [] → (first records).isSome = true

section Latest
variable {F : Type} (R : Reading F) (db : Database F) (licenseId : Str)

/-- `WHERE license_id = …`. -/
def recordsOf : List (TelemetryRecord F) :=
  db.telemetry.filter fun record => decide (record.licenseId = licenseId)

/-- No record of the list was seen later. -/
def Newest (records : List (TelemetryRecord F)) (record : TelemetryRecord F) : Prop :=
  ∀ other ∈ records, R.seen other.lastSeen ≤ R.seen record.lastSeen

instance (records : List (TelemetryRecord F)) (record : TelemetryRecord F) :
    Decidable (Newest R records record) :=
  inferInstanceAs (Decidable (∀ other ∈ records, R.seen other.lastSeen ≤ R.seen record.lastSeen))

/-- `ORDER BY last_seen DESC LIMIT 1`. -/
def latestRecord : Option (TelemetryRecord F) :=
  R.first ((recordsOf db licenseId).filter fun record => decide (Newest R (recordsOf db licenseId) record))

/-- `max(last_seen)` in the group of the license; without records there is no group. -/
def maxSeen : Option Instant := ((recordsOf db licenseId).map fun record => R.seen record.lastSeen).max?

variable {R db licenseId}

theorem mem_recordsOf {record : TelemetryRecord F} :
    record ∈ recordsOf db licenseId ↔ record ∈ db.telemetry ∧ record.licenseId = licenseId := by
  simp [recordsOf]

theorem max_eq_some_iff {records : List (TelemetryRecord F)} {t : Instant} :
    (records.map fun record => R.seen record.lastSeen).max? = some t ↔
      ∃ record ∈ records, Newest R records record ∧ R.seen record.lastSeen = t := by
  rw [List.max?_eq_some_iff]
  simp only [List.mem_map, forall_exists_index, and_imp, forall_apply_eq_imp_iff₂]
  constructor
  · rintro ⟨⟨record, hrecord, rfl⟩, hmax⟩
    exact ⟨record, hrecord, hmax, rfl⟩
  · rintro ⟨record, hrecord, hnewest, rfl⟩
    exact ⟨⟨record, hrecord, rfl⟩, hnewest⟩

theorem exists_newest {records : List (TelemetryRecord F)} (h : records ≠ []) :
    ∃ record ∈ records, Newest R records record := by
  have hmax : (records.map fun record => R.seen record.lastSeen).max? ≠ none := by
    rw [ne_eq, List.max?_eq_none_iff, List.map_eq_nil_iff]
    exact h
  obtain ⟨t, ht⟩ := Option.ne_none_iff_exists'.mp hmax
  obtain ⟨record, hrecord, hnewest, -⟩ := max_eq_some_iff.mp ht
  exact ⟨record, hrecord, hnewest⟩

theorem maxSeen_eq_some_iff {t : Instant} : maxSeen R db licenseId = some t ↔
    ∃ record ∈ recordsOf db licenseId, Newest R (recordsOf db licenseId) record ∧
      R.seen record.lastSeen = t :=
  max_eq_some_iff

theorem maxSeen_eq_none_iff : maxSeen R db licenseId = none ↔ recordsOf db licenseId = [] := by
  rw [maxSeen, List.max?_eq_none_iff, List.map_eq_nil_iff]

/-- The latest record is one of the newest of its license. -/
theorem latestRecord_spec {record : TelemetryRecord F} (h : latestRecord R db licenseId = some record) :
    record ∈ recordsOf db licenseId ∧ Newest R (recordsOf db licenseId) record := by
  have hmem := R.first_mem h
  rw [List.mem_filter, decide_eq_true_eq] at hmem
  exact hmem

theorem latestRecord_isSome (h : recordsOf db licenseId ≠ []) :
    ∃ record, latestRecord R db licenseId = some record := by
  obtain ⟨record, hrecord, hnewest⟩ := exists_newest (R := R) h
  apply Option.isSome_iff_exists.mp
  apply R.first_isSome
  apply List.ne_nil_of_mem
  exact List.mem_filter.mpr ⟨hrecord, decide_eq_true hnewest⟩

/-- The two queries look at the same instant. -/
theorem latestRecord_seen {record : TelemetryRecord F} (h : latestRecord R db licenseId = some record) :
    maxSeen R db licenseId = some (R.seen record.lastSeen) := by
  obtain ⟨hmem, hnewest⟩ := latestRecord_spec h
  exact maxSeen_eq_some_iff.mpr ⟨record, hmem, hnewest, rfl⟩

end Latest

structure DeploymentSilence where
  licenseId : Str
  customerId : Str
  deploymentSecretId : Option Str
  lastSeen : Option Instant
  silent : Bool
  deriving DecidableEq, Repr

def byCustomerThenLicense (a b : IssuanceLedger) : Prop :=
  a.customerId < b.customerId ∨ a.customerId = b.customerId ∧ a.licenseId ≤ b.licenseId

instance : DecidableRel byCustomerThenLicense := fun a b =>
  inferInstanceAs
    (Decidable (a.customerId < b.customerId ∨ a.customerId = b.customerId ∧ a.licenseId ≤ b.licenseId))

/-- `now - timedelta(days=days)`. -/
def minusDays (now : Instant) (days : Int) : Except PyError Instant :=
  match timedeltaDays days with
  | .error e => .error e
  | .ok delta => checkInstant (now - delta)

theorem minusDays_ok {now threshold : Instant} {days : Int} (h : minusDays now days = .ok threshold) :
    (threshold : Int) = now - days * usPerDay := by
  unfold minusDays at h
  cases hdelta : timedeltaDays days with
  | error e =>
    rw [hdelta] at h
    cases h
  | ok delta =>
    rw [hdelta] at h
    rw [← timedeltaDays_ok hdelta]
    exact checkInstant_val h

/-- There is a day so long ago as long as the calendar has one. -/
theorem minusDays_iff {now : Instant} (hnow : now < maxInstant) (days : Nat) :
    (∃ threshold, minusDays now days = .ok threshold) ↔ days * usPerDay ≤ now := by
  constructor
  · rintro ⟨threshold, h⟩
    have := minusDays_ok h
    omega
  · intro hdays
    have hfew : days < 3652059 := by
      have hlt : days * usPerDay < 3652059 * usPerDay := Nat.lt_of_le_of_lt hdays hnow
      exact Nat.lt_of_mul_lt_mul_right hlt
    have hdelta : timedeltaDays days = .ok (days * usPerDay) := by
      have hmax : maxDeltaDays = 999999999 := rfl
      rw [timedeltaDays, if_neg (by omega), if_neg (by rw [hmax, Int.abs_natCast]; omega)]
    have hin : (0 : Int) ≤ (now : Int) - days * usPerDay ∧ (now : Int) - days * usPerDay < maxInstant := by
      have hlt : (now : Int) < maxInstant := Int.ofNat_lt.mpr hnow
      have hle : ((days * usPerDay : Nat) : Int) ≤ now := Int.ofNat_le.mpr hdays
      rw [Int.natCast_mul] at hle
      constructor
      · omega
      · omega
    rw [minusDays, hdelta]
    simp only [checkInstant]
    rw [if_pos hin]
    exact ⟨_, rfl⟩

/-- Before this instant a deployment has gone silent. -/
def silentBefore (silentAfterDays : Option Int) (now : Instant) : Except PyError (Option Instant) :=
  match silentAfterDays with
  | none => .ok none
  | some days => (minusDays now days).map some

theorem silentBefore_some {days : Int} {now : Instant} {threshold : Option Instant}
    (h : silentBefore (some days) now = .ok threshold) :
    ∃ t : Instant, threshold = some t ∧ (t : Int) = now - days * usPerDay := by
  cases hday : minusDays now days with
  | error e =>
    simp only [silentBefore, hday] at h
    cases h
  | ok t =>
    simp only [silentBefore, hday] at h
    exact ⟨t, (Except.ok.inj h).symm, minusDays_ok hday⟩

/-- Never heard of, or not since the threshold. -/
def isSilent (threshold : Option Instant) (lastSeen : Option Instant) : Bool :=
  match lastSeen, threshold with
  | none, _ => true
  | some seen, some threshold => decide (seen < threshold)
  | some _, none => false

section Silence
variable {F : Type} (R : Reading F) (db : Database F)

def deploymentSilence (threshold : Option Instant) (row : IssuanceLedger) : DeploymentSilence where
  licenseId := row.licenseId
  customerId := row.customerId
  deploymentSecretId := row.deploymentSecretId
  lastSeen := maxSeen R db row.licenseId
  silent := isSilent threshold (maxSeen R db row.licenseId)

def lastSeenPerDeployment (silentAfterDays : Option Int) (now : Instant) (includeSuperseded : Bool) :
    Except PyError (List DeploymentSilence) :=
  match silentBefore silentAfterDays now with
  | .error e => .error e
  | .ok threshold =>
    .ok (((selected includeSuperseded db.ledger).insertionSort byCustomerThenLicense).map
      (deploymentSilence R db threshold))

end Silence

end IsaCloud.Fleet
