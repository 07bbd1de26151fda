import IsaCloud.Fleet.Models
import IsaCloud.License.Config
import Mathlib.Data.List.Sort

/-!
# The read side of the ledger

The roster, the licenses of one customer and the expiry calendar, from `queries.py`.
Current means neither superseded nor revoked. Rows that tie in the order come in
table order.
-/

namespace IsaCloud.Fleet

set_option autoImplicit false

open Support Support.Text Support.Python Support.DateTime Support.IsoTime License

variable {F : Type}

/-- `superseded_by IS NULL AND revoked_at IS NULL`. -/
def IssuanceLedger.Current (row : IssuanceLedger) : Prop :=
  row.supersededBy = none ∧ row.revokedAt = none

instance : DecidablePred IssuanceLedger.Current := fun row =>
  inferInstanceAs (Decidable (row.supersededBy = none ∧ row.revokedAt = none))

/-- The `WHERE` clause that `include_superseded` leaves out. -/
def selected (includeSuperseded : Bool) (rows : List IssuanceLedger) : List IssuanceLedger :=
  if includeSuperseded then rows else rows.filter fun row => decide row.Current

def byCustomerThenIssued (a b : IssuanceLedger) : Prop :=
  a.customerId < b.customerId ∨ a.customerId = b.customerId ∧ a.issuedAt ≤ b.issuedAt

instance : DecidableRel byCustomerThenIssued := fun a b =>
  inferInstanceAs
    (Decidable (a.customerId < b.customerId ∨ a.customerId = b.customerId ∧ a.issuedAt ≤ b.issuedAt))

def newestFirst (a b : IssuanceLedger) : Prop := b.issuedAt ≤ a.issuedAt

instance : DecidableRel newestFirst := fun a b =>
  inferInstanceAs (Decidable (b.issuedAt ≤ a.issuedAt))

def roster (db : Database F) (includeSuperseded : Bool) : List IssuanceLedger :=
  (selected includeSuperseded db.ledger).insertionSort byCustomerThenIssued

def byCustomer (db : Database F) (customerId : Str) (includeSuperseded : Bool) :
    List IssuanceLedger :=
  (selected includeSuperseded (db.ledger.filter fun row => decide (row.customerId = customerId))).insertionSort
    newestFirst

/-- `timedelta(days=days)` in microseconds. -/
def timedeltaDays (days : Int) : Except PyError Int :=
  if days < -2147483648 ∨ 2147483647 < days then
    .error ⟨.overflowError, lit "Python int too large to convert to C int"⟩
  else if maxDeltaDays < |days| then
    .error ⟨.overflowError, lit "days=" ++ intText days ++ lit "; must have magnitude <= 999999999"⟩
  else .ok (days * usPerDay)

/-- `now + timedelta(days=days)`. -/
def plusDays (now : Instant) (days : Int) : Except PyError Instant :=
  match timedeltaDays days with
  | .error e => .error e
  | .ok delta => checkInstant (now + delta)

/-- `expires_at IS NOT NULL AND expires_at <= window_end`. -/
def expiresBy (windowEnd : Instant) (row : IssuanceLedger) : Bool :=
  row.expiresAt.any fun e => decide (e ≤ windowEnd)

def soonestFirst (a b : IssuanceLedger) : Prop := a.expiresAt.getD 0 ≤ b.expiresAt.getD 0

instance : DecidableRel soonestFirst := fun a b =>
  inferInstanceAs (Decidable (a.expiresAt.getD 0 ≤ b.expiresAt.getD 0))

def expiringSoon (db : Database F) (withinDays : Int) (now : Instant) (includeSuperseded : Bool) :
    Except PyError (List IssuanceLedger) :=
  match plusDays now withinDays with
  | .error e => .error e
  | .ok windowEnd =>
    .ok ((selected includeSuperseded (db.ledger.filter (expiresBy windowEnd))).insertionSort soonestFirst)

theorem timedeltaDays_ok {days delta : Int} (h : timedeltaDays days = .ok delta) : delta = days * usPerDay := by
  unfold timedeltaDays at h
  split_ifs at h
  exact (Except.ok.inj h).symm

theorem plusDays_ok {now windowEnd : Instant} {days : Int} (h : plusDays now days = .ok windowEnd) :
    (windowEnd : Int) = now + days * usPerDay := by
  unfold plusDays at h
  cases hdelta : timedeltaDays days with
  | error e =>
    rw [hdelta] at h
    cases h
  | ok delta =>
    rw [hdelta] at h
    rw [← timedeltaDays_ok hdelta]
    exact checkInstant_val h

theorem expiresBy_iff {windowEnd : Instant} {row : IssuanceLedger} :
    expiresBy windowEnd row ↔ ∃ e, row.expiresAt = some e ∧ e ≤ windowEnd := by
  simp [expiresBy, Option.any_eq_true]

theorem mem_selected_false {rows : List IssuanceLedger} {row : IssuanceLedger} :
    row ∈ selected false rows ↔ row ∈ rows ∧ row.Current := by
  simp [selected]

theorem mem_roster {db : Database F} {row : IssuanceLedger} :
    row ∈ roster db false ↔ row ∈ db.ledger ∧ row.Current := by
  rw [roster, List.mem_insertionSort, mem_selected_false]

theorem mem_byCustomer {db : Database F} {customerId : Str} {row : IssuanceLedger} :
    row ∈ byCustomer db customerId false ↔
      row ∈ db.ledger ∧ row.customerId = customerId ∧ row.Current := by
  rw [byCustomer, List.mem_insertionSort, mem_selected_false, List.mem_filter, decide_eq_true_eq,
    and_assoc]

theorem mem_expiringSoon (db : Database F) {withinDays : Int} {now windowEnd : Instant}
    (hwindow : plusDays now withinDays = .ok windowEnd) :
    ∃ rows, expiringSoon db withinDays now false = .ok rows ∧ ∀ row, row ∈ rows ↔
      row ∈ db.ledger ∧ row.Current ∧ ∃ e, row.expiresAt = some e ∧ e ≤ windowEnd := by
  rw [expiringSoon, hwindow]
  refine ⟨_, rfl, fun row => ?_⟩
  rw [List.mem_insertionSort, mem_selected_false, List.mem_filter, expiresBy_iff, and_assoc]
  exact and_congr_right fun _ => and_comm

theorem roster_nodup {db : Database F} (h : db.ledger.Nodup) : (roster db false).Nodup :=
  (List.perm_insertionSort _ _).nodup_iff.mpr (h.filter _)

end IsaCloud.Fleet
