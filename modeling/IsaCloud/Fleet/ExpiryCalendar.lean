import IsaCloud.Fleet.RosterStatus

/-!
# The expiry calendar and the status badge

`expiring_soon` compares an expiry with `now + within_days`, `derive_status` cuts the time
left down to whole days first. A license in the last day after the window has the badge
and is not in the calendar.
-/

namespace IsaCloud.Fleet

set_option autoImplicit false

open Support Support.Text Support.Python Support.DateTime Support.IsoTime License

/-- `"expiring"` or `"expired"`. -/
def RosterStatus.Lapsing : RosterStatus → Prop
  | expired | expiring => True
  | revoked | perpetual | current => False

instance : DecidablePred RosterStatus.Lapsing := fun s => by
  cases s <;> unfold RosterStatus.Lapsing <;> infer_instance

/-- At most `days` whole days are less than one day more. -/
theorem wholeDays_le_iff {span days : Int} : span / usPerDay ≤ days ↔ span < days * usPerDay + usPerDay := by
  have hpos : (0 : Int) < usPerDay := by decide
  rw [← Int.lt_add_one_iff, Int.ediv_lt_iff_lt_mul hpos, Int.add_mul, Int.one_mul]

section Window
variable {row : IssuanceLedger} (hrow : row.Current) {now windowEnd : Instant} {days : Int} (hdays : 0 ≤ days)
  (hwindow : plusDays now days = .ok windowEnd)
include hrow hdays hwindow

/-- The badge marks what expires less than a day after the window. -/
theorem lapsing_iff : (deriveStatus row days now).Lapsing ↔
    ∃ e, row.expiresAt = some e ∧ e < windowEnd + usPerDay := by
  have hend := plusDays_ok hwindow
  have hlater : 0 ≤ days * usPerDay := Int.mul_nonneg hdays (by decide)
  rw [deriveStatus, if_neg (not_not.mpr hrow.2)]
  cases row.expiresAt with
  | none => simp [RosterStatus.Lapsing]
  | some e =>
    simp only [Option.some.injEq, exists_eq_left']
    split_ifs with hle hnear
    · have : (e : Int) ≤ now := Int.ofNat_le.mpr hle
      have hsoon : (e : Int) < windowEnd + usPerDay := by
        have : (0 : Int) < usPerDay := by decide
        omega
      exact iff_of_true trivial (by exact_mod_cast hsoon)
    · have hsoon : (e : Int) < windowEnd + usPerDay := by
        have := wholeDays_le_iff.mp hnear
        omega
      exact iff_of_true trivial (by exact_mod_cast hsoon)
    · refine iff_of_false id fun hsoon => hnear (wholeDays_le_iff.mpr ?_)
      have : (e : Int) < windowEnd + usPerDay := by exact_mod_cast hsoon
      omega

/-- Whatever the calendar lists has the badge. -/
theorem lapsing_of_listed {F : Type} {db : Database F} {rows : List IssuanceLedger}
    (hrows : expiringSoon db days now false = .ok rows) (hmem : row ∈ rows) :
    (deriveStatus row days now).Lapsing := by
  obtain ⟨listed, hlisted, hiff⟩ := mem_expiringSoon db hwindow
  obtain rfl := Except.ok.inj (hrows.symm.trans hlisted)
  obtain ⟨-, -, e, he, hle⟩ := (hiff row).mp hmem
  have hpos : 0 < usPerDay := by decide
  exact (lapsing_iff hrow hdays hwindow).mpr ⟨e, he, Nat.lt_of_le_of_lt hle (Nat.lt_add_of_pos_right hpos)⟩

/-- Calendar and badge agree on a license that does not expire in the day after the window. -/
theorem calendar_agrees_iff {F : Type} {db : Database F} (hmem : row ∈ db.ledger) :
    (∃ rows, expiringSoon db days now false = .ok rows ∧
      (row ∈ rows ↔ deriveStatus row days now = .expiring ∨ deriveStatus row days now = .expired)) ↔
      ∀ e, row.expiresAt = some e → e ≤ windowEnd ∨ windowEnd + usPerDay ≤ e := by
  obtain ⟨listed, hlisted, hiff⟩ := mem_expiringSoon db hwindow
  have hbadge : (deriveStatus row days now = .expiring ∨ deriveStatus row days now = .expired) ↔
      ∃ e, row.expiresAt = some e ∧ e < windowEnd + usPerDay := by
    rw [← lapsing_iff hrow hdays hwindow]
    cases deriveStatus row days now <;> simp [RosterStatus.Lapsing]
  have hcalendar : row ∈ listed ↔ ∃ e, row.expiresAt = some e ∧ e ≤ windowEnd := by
    rw [hiff row]
    exact ⟨fun h => h.2.2, fun h => ⟨hmem, hrow, h⟩⟩
  constructor
  · rintro ⟨rows, hrows, hagree⟩ e he
    obtain rfl := Except.ok.inj (hrows.symm.trans hlisted)
    rcases Nat.lt_or_ge e (windowEnd + usPerDay) with hlt | hge
    · obtain ⟨e', he', hle⟩ := hcalendar.mp (hagree.mpr (hbadge.mpr ⟨e, he, hlt⟩))
      obtain rfl := Option.some.inj (he.symm.trans he')
      exact .inl hle
    · exact .inr hge
  · intro h
    refine ⟨listed, hlisted, ?_⟩
    rw [hcalendar, hbadge]
    constructor
    · rintro ⟨e, he, hle⟩
      have hpos : 0 < usPerDay := by decide
      exact ⟨e, he, Nat.lt_of_le_of_lt hle (Nat.lt_add_of_pos_right hpos)⟩
    · rintro ⟨e, he, hlt⟩
      rcases h e he with hle | hge
      · exact ⟨e, he, hle⟩
      · exact absurd hlt (Nat.not_lt.mpr hge)

end Window

section Acme
attribute [local instance] asciiUnicode mirrorCryptography

/-- Noon of 2026-01-01, thirty days and a half before the expiry. -/
def issueNoon : Instant := issueTime + 12 * usPerHour

theorem termBody_stored : ∃ db' result, issuedFrom termBody = (db', .ok result) ∧
    result.ledgerRow ∈ db'.ledger ∧ result.ledgerRow.Current ∧ result.ledgerRow.expiresAt = some termEnd := by
  obtain ⟨result, hresult, hrow⟩ := exists_of_map_ok termBody_row
  have hissue : issuedFrom termBody = ((issuedFrom termBody).1, .ok result) := by
    rw [← hresult]
  refine ⟨_, result, hissue, ?_, ?_, ?_⟩
  · exact (Table.mem_of_find (issued_row hissue)).1
  · rw [hrow]
    exact ⟨rfl, rfl⟩
  · rw [hrow]

/-- The roster says expiring and the calendar is silent, both for the default of thirty days. -/
theorem noon_disputed : ∃ db' result windowEnd rows, issuedFrom termBody = (db', .ok result) ∧
    result.ledgerRow ∈ db'.ledger ∧ result.ledgerRow.Current ∧ plusDays issueNoon 30 = .ok windowEnd ∧
    expiringSoon db' 30 issueNoon false = .ok rows ∧ result.ledgerRow ∉ rows ∧
    deriveStatus result.ledgerRow 30 issueNoon = .expiring := by
  obtain ⟨db', result, hissue, hmem, hcurrent, hexpires⟩ := termBody_stored
  have hwindow : plusDays issueNoon 30 = .ok (issueNoon + 30 * usPerDay) := by decide
  obtain ⟨rows, hrows, hiff⟩ := mem_expiringSoon db' hwindow
  refine ⟨db', result, _, rows, hissue, hmem, hcurrent, hwindow, hrows, fun hlisted => ?_, ?_⟩
  · obtain ⟨-, -, e, he, hle⟩ := (hiff _).mp hlisted
    obtain rfl := Option.some.inj (hexpires.symm.trans he)
    exact absurd hle (by decide)
  · rw [deriveStatus, hexpires, hcurrent.2]
    decide

/-- A day more brings the license into the calendar. -/
theorem noon_agreed : ∃ db' result rows, issuedFrom termBody = (db', .ok result) ∧
    expiringSoon db' 31 issueNoon false = .ok rows ∧
    (result.ledgerRow ∈ rows ↔ deriveStatus result.ledgerRow 31 issueNoon = .expiring ∨
      deriveStatus result.ledgerRow 31 issueNoon = .expired) := by
  obtain ⟨db', result, hissue, hmem, hcurrent, hexpires⟩ := termBody_stored
  have hwindow : plusDays issueNoon 31 = .ok (issueNoon + 31 * usPerDay) := by decide
  obtain ⟨rows, hrows, hagree⟩ := (calendar_agrees_iff hcurrent (by decide) hwindow hmem).mpr fun e he => by
    obtain rfl := Option.some.inj (hexpires.symm.trans he)
    exact .inl (by decide)
  exact ⟨db', result, rows, hissue, hrows, hagree⟩

end Acme

end IsaCloud.Fleet
