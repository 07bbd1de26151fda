import IsaCloud.Fleet.Calls
import IsaCloud.Fleet.Queries

/-!
# Runs of ledger calls

Every run of serially executed `issue`, `renew` and `revoke` calls keeps the
ledger a disjoint union of chains. Rows stay, and the two marks a row can get
stay as they were set. `renew` does not look at `revoked_at`, so a revoked
license comes back in its successor exactly when a run renews a revoked row.
-/

namespace IsaCloud.Fleet

set_option autoImplicit false

open Support Support.Text Support.DateTime Support.Lineage Relation License

section Tables
variable {F : Type}

/-- The successor of a license, by id. -/
def Database.successor (db : Database F) : Str → Option Str :=
  nextKey IssuanceLedger.licenseId IssuanceLedger.supersededBy db.ledger

theorem Database.successor_eq (db : Database F) (licenseId : Str) :
    db.successor licenseId = (db.findLicense licenseId).bind IssuanceLedger.supersededBy := rfl

def Database.Linked (db : Database F) : Prop :=
  Lineages IssuanceLedger.licenseId IssuanceLedger.supersededBy db.ledger

theorem linked_empty : (Database.empty : Database F).Linked := Lineages.nil

namespace Plan

/-- The row a plan replaces is in the ledger. -/
def Anchored (db : Database F) : Plan → Prop
  | .replace prior _ _ => prior ∈ db.ledger.map IssuanceLedger.licenseId
  | _ => True

theorem license_free {db : Database F} {row : IssuanceLedger} {secret : DeploymentSecret}
    (h : (Plan.add row secret).fresh db = true) :
    row.licenseId ∉ db.ledger.map IssuanceLedger.licenseId := by
  rw [fresh, Bool.and_eq_true] at h
  exact Table.find_eq_none_iff.mp (Option.isNone_iff_eq_none.mp h.1)

theorem apply_linked {db : Database F} {plan : Plan} (hdb : db.Linked) (hp : plan.Proper)
    (hf : plan.fresh db = true) (ha : plan.Anchored db) : (plan.apply db).Linked := by
  cases plan with
  | add row secret => exact hdb.append (license_free hf) hp
  | replace prior row secret =>
    obtain ⟨old, hold, rfl⟩ := List.mem_map.mp ha
    have hfree : row.licenseId ∉ db.ledger.map IssuanceLedger.licenseId := license_free hf
    exact hdb.link hold hfree hp (fun old => old.supersede_licenseId _)
      (fun old => old.supersede_supersededBy _)
  | flag licenseId at_ reason => 
    exact hdb.update (fun old => old.revoke_licenseId at_ reason)
      (fun old => old.revoke_supersededBy at_ reason) licenseId

theorem findLicense_add {db : Database F} {row : IssuanceLedger} {secret : DeploymentSecret}
    (hf : (Plan.add row secret).fresh db = true) (licenseId : Str) :
    ((Plan.add row secret).apply db).findLicense licenseId =
      if row.licenseId = licenseId then some row else db.findLicense licenseId :=
  Table.find_append_fresh (license_free hf) licenseId

theorem findLicense_replace {db : Database F} {prior : Str} {row : IssuanceLedger}
    {secret : DeploymentSecret} (hf : (Plan.replace prior row secret).fresh db = true)
    (hne : row.licenseId ≠ prior) (licenseId : Str) :
    ((Plan.replace prior row secret).apply db).findLicense licenseId =
      if licenseId = prior then
        (db.findLicense prior).map (·.supersede row.licenseId)
      else if row.licenseId = licenseId then some row else db.findLicense licenseId := by
  have hfree : row.licenseId ∉ db.ledger.map IssuanceLedger.licenseId := license_free hf
  simp only [Database.findLicense, apply]
  rw [Table.find_update (fun old => old.supersede_licenseId row.licenseId), Table.find_append_fresh hfree, Table.find_append_fresh hfree,
    if_neg hne]

theorem replace_distinct {db : Database F} {prior row : IssuanceLedger} {secret : DeploymentSecret}
    (hf : (Plan.replace prior.licenseId row secret).fresh db = true)
    (found : db.findLicense prior.licenseId = some prior) : row.licenseId ≠ prior.licenseId := by
  intro h
  exact license_free hf (h ▸ List.mem_map_of_mem (Table.mem_of_find found).1)

section Replace
variable {db : Database F} {prior row : IssuanceLedger} {secret : DeploymentSecret}
  (hf : (Plan.replace prior.licenseId row secret).fresh db = true)
  (found : db.findLicense prior.licenseId = some prior)
include hf found

theorem findLicense_replace_prior :
    ((Plan.replace prior.licenseId row secret).apply db).findLicense prior.licenseId =
      some (prior.supersede row.licenseId) := by
  rw [findLicense_replace hf (replace_distinct hf found), if_pos rfl, found]
  rfl

theorem findLicense_replace_new :
    ((Plan.replace prior.licenseId row secret).apply db).findLicense row.licenseId = some row := by
  have hne := replace_distinct hf found
  rw [findLicense_replace hf hne, if_neg hne, if_pos rfl]

/-- The replaced row leads to the new one. -/
theorem follows_replace :
    Follows ((Plan.replace prior.licenseId row secret).apply db).successor prior.licenseId
      row.licenseId := by
  rw [Follows, Database.successor_eq, findLicense_replace_prior hf found]
  rfl

end Replace

theorem findLicense_flag (db : Database F) (target : Str) (at_ : Instant)
    (reason : Option (Option Str)) (licenseId : Str) :
    ((Plan.flag target at_ reason).apply db).findLicense licenseId =
      if licenseId = target then (db.findLicense target).map (·.revoke at_ reason)
      else db.findLicense licenseId :=
  Table.find_update (fun old => old.revoke_licenseId at_ reason) db.ledger target licenseId

end Plan

/-- What happens to a row over time: it may get a successor and a revocation,
each once; nothing else changes. -/
structure Evolves (old new : IssuanceLedger) : Prop where
  fixed : new = { old with
    supersededBy := new.supersededBy, revokedAt := new.revokedAt, revokedReason := new.revokedReason }
  superseded : ∀ successor, old.supersededBy = some successor → new.supersededBy = some successor
  revoked : ∀ t, old.revokedAt = some t →
    new.revokedAt = some t ∧ new.revokedReason = old.revokedReason

theorem Evolves.refl (row : IssuanceLedger) : Evolves row row :=
  ⟨rfl, fun _ h => h, fun _ h => ⟨h, rfl⟩⟩

theorem Evolves.trans {a b c : IssuanceLedger} (hab : Evolves a b) (hbc : Evolves b c) :
    Evolves a c := by
  refine ⟨?_, fun s h => hbc.superseded s (hab.superseded s h), ?_⟩
  · have h := hbc.fixed
    rw [hab.fixed] at h
    exact h
  · intro t ht
    obtain ⟨h1, h2⟩ := hab.revoked t ht
    obtain ⟨h3, h4⟩ := hbc.revoked t h1
    exact ⟨h3, h4.trans h2⟩

theorem evolves_supersede {row : IssuanceLedger} (h : row.supersededBy = none) (successor : Str) :
    Evolves row (row.supersede successor) := by
  refine ⟨rfl, ?_, fun _ ht => ⟨ht, rfl⟩⟩
  intro s hs
  rw [h] at hs
  cases hs

theorem evolves_revoke {row : IssuanceLedger} (h : row.revokedAt = none) (at_ : Instant)
    (reason : Option (Option Str)) : Evolves row (row.revoke at_ reason) := by
  refine ⟨rfl, fun _ hs => hs, ?_⟩
  intro t ht
  rw [h] at ht
  cases ht

end Tables

section Steps
variable {F : Type} [PyFloat F] [Cryptography] [Unicode]

def step (db : Database F) (c : LedgerCall) : Database F := (Session.exec (c.session F) db).1

/-- A call leaves the database as it was or commits its plan. -/
theorem step_cases (db : Database F) (c : LedgerCall) :
    step db c = db ∨ ∃ plan, c.prepare F (c.reads F db) = .ok plan ∧ plan.fresh db = true ∧
      step db c = plan.apply db := by
  rw [step, LedgerCall.exec_session]
  cases c.prepare F (c.reads F db) with
  | error e => exact .inl rfl
  | ok plan =>
    by_cases hf : plan.fresh db = true
    · exact .inr ⟨plan, rfl, hf, by simp only [if_pos hf]⟩
    · exact .inl (by simp only [if_neg hf])

theorem step_of_fresh {db : Database F} {c : LedgerCall} {plan : Plan}
    (h : c.prepare F (c.reads F db) = .ok plan) (hf : plan.fresh db = true) :
    step db c = plan.apply db := by
  simp only [step, LedgerCall.exec_session, h, if_pos hf]

/-- What an admitted call read is in the ledger. -/
inductive Found (db : Database F) : LedgerCall → Plan → Prop where
  | issue {ambient : Ambient} {priv : Option Cryptography.PrivateKey} {req : IssuanceRequest}
      {row : IssuanceLedger} {secret : DeploymentSecret} (drafted : Drafted row secret) :
      Found db (.issue ambient priv req) (.add row secret)
  | renew {ambient : Ambient} {priv : Option Cryptography.PrivateKey} {req : IssuanceRequest}
      {prior row : IssuanceLedger} {secret : DeploymentSecret}
      (found : db.findLicense prior.licenseId = some prior)
      (head : prior.supersededBy = none) (drafted : Drafted row secret) :
      Found db (.renew ambient priv prior.licenseId req) (.replace prior.licenseId row secret)
  | revoke {now : Instant} {reason : Option Str} {row : IssuanceLedger}
      (found : db.findLicense row.licenseId = some row)
      (head : row.supersededBy = none) (unrevoked : row.revokedAt = none) :
      Found db (.revoke now row.licenseId reason)
        (.flag row.licenseId now (changed row.revokedReason reason))

theorem found_of_prepare {db : Database F} {c : LedgerCall} {plan : Plan}
    (h : c.prepare F (c.reads F db) = .ok plan) : Found db c plan := by
  have hadm := prepare_admitted h
  generalize hread : c.reads F db = read at hadm
  cases hadm with
  | issue drafted => exact .issue drafted
  | renew head drafted =>
    obtain ⟨-, rfl⟩ := Table.mem_of_find hread
    exact .renew hread head drafted
  | revoke head unrevoked =>
    obtain ⟨-, rfl⟩ := Table.mem_of_find hread
    exact .revoke hread head unrevoked

theorem step_linked {db : Database F} (h : db.Linked) (c : LedgerCall) : (step db c).Linked := by
  rcases step_cases db c with heq | ⟨plan, hprep, hf, heq⟩
  · rw [heq]
    exact h
  · rw [heq]
    refine Plan.apply_linked h (prepare_admitted hprep).proper hf ?_
    cases found_of_prepare hprep with
    | issue => trivial
    | renew found => exact List.mem_map_of_mem (Table.mem_of_find found).1
    | revoke => trivial

theorem run_linked (history : List LedgerCall) :
    (run step (Database.empty : Database F) history).Linked :=
  run_invariant Database.Linked (fun _ c h => step_linked h c) history linked_empty

/-- A row found before a call is found after it. -/
theorem step_evolves {db : Database F} (c : LedgerCall) {licenseId : Str} {old : IssuanceLedger}
    (hold : db.findLicense licenseId = some old) :
    ∃ new, (step db c).findLicense licenseId = some new ∧ Evolves old new := by
  rcases step_cases db c with heq | ⟨plan, hprep, hf, heq⟩
  · exact ⟨old, by rw [heq]; exact hold, .refl old⟩
  rw [heq]
  obtain ⟨hmem, hid⟩ := Table.mem_of_find hold
  -- a row that is there has another id than one that is added
  have hother : ∀ {row : IssuanceLedger} {secret : DeploymentSecret},
      (Plan.add row secret).fresh db = true → row.licenseId ≠ licenseId := by
    rintro row secret hfree rfl
    exact Plan.license_free hfree (hid ▸ List.mem_map_of_mem hmem)
  cases found_of_prepare hprep with
  | issue drafted =>
    rw [Plan.findLicense_add hf, if_neg (hother hf)]
    exact ⟨old, hold, .refl old⟩
  | @renew _ _ _ prior row secret found head drafted =>
    rw [Plan.findLicense_replace hf (Plan.replace_distinct hf found)]
    by_cases hp : licenseId = prior.licenseId
    · subst hp
      rw [found] at hold
      cases hold
      rw [if_pos rfl, found]
      exact ⟨_, rfl, evolves_supersede head _⟩
    · rw [if_neg hp, if_neg (hother hf)]
      exact ⟨old, hold, .refl old⟩
  | @revoke now reason row found head unrevoked =>
    rw [Plan.findLicense_flag]
    by_cases hp : licenseId = row.licenseId
    · subst hp
      rw [found] at hold
      cases hold
      rw [if_pos rfl, found]
      exact ⟨_, rfl, evolves_revoke unrevoked _ _⟩
    · rw [if_neg hp]
      exact ⟨old, hold, .refl old⟩

theorem run_evolves {db : Database F} (calls : List LedgerCall) {licenseId : Str}
    {old : IssuanceLedger} (hold : db.findLicense licenseId = some old) :
    ∃ new, (run step db calls).findLicense licenseId = some new ∧ Evolves old new := by
  induction calls generalizing db old with
  | nil => exact ⟨old, hold, .refl old⟩
  | cons c calls ih =>
    obtain ⟨mid, hmid, hev⟩ := step_evolves c hold
    obtain ⟨new, hnew, hev'⟩ := ih hmid
    exact ⟨new, hnew, hev.trans hev'⟩

/-- A revocation was there before the call, or the call put it on a head. -/
theorem step_revoked {db : Database F} (c : LedgerCall) {licenseId : Str} {new : IssuanceLedger}
    {t : Instant} (hnew : (step db c).findLicense licenseId = some new)
    (ht : new.revokedAt = some t) :
    ∃ old, db.findLicense licenseId = some old ∧ (old.revokedAt = some t ∨
      old.revokedAt = none ∧ old.supersededBy = none ∧ new.supersededBy = none) := by
  rcases step_cases db c with heq | ⟨plan, hprep, hf, heq⟩
  · rw [heq] at hnew
    exact ⟨new, hnew, .inl ht⟩
  rw [heq] at hnew
  cases found_of_prepare hprep with
  | issue drafted =>
    rw [Plan.findLicense_add hf] at hnew
    split at hnew
    · cases hnew
      rw [drafted.unrevoked] at ht
      cases ht
    · exact ⟨new, hnew, .inl ht⟩
  | @renew _ _ _ prior row secret found head drafted =>
    rw [Plan.findLicense_replace hf (Plan.replace_distinct hf found)] at hnew
    split at hnew
    · rename_i hp
      rw [found] at hnew
      cases hnew
      exact ⟨prior, hp ▸ found, .inl ht⟩
    · split at hnew
      · cases hnew
        rw [drafted.unrevoked] at ht
        cases ht
      · exact ⟨new, hnew, .inl ht⟩
  | @revoke now reason row found head unrevoked =>
    rw [Plan.findLicense_flag] at hnew
    split at hnew
    · rename_i hp
      rw [found] at hnew
      cases hnew
      exact ⟨row, hp ▸ found, .inr ⟨unrevoked, head, head⟩⟩
    · exact ⟨new, hnew, .inl ht⟩

end Steps

section Chains
variable {F : Type}

/-- The ledger is a disjoint union of chains along `superseded_by`. -/
structure Chains (db : Database F) : Prop where
  keyed : (db.ledger.map IssuanceLedger.licenseId).Nodup
  successor_exists : ∀ row ∈ db.ledger, ∀ successor, row.supersededBy = some successor →
    successor ≠ row.licenseId ∧ ∃ next ∈ db.ledger, next.licenseId = successor
  no_cycle : ∀ licenseId, ¬ TransGen (Follows db.successor) licenseId licenseId
  one_predecessor : ∀ a ∈ db.ledger, ∀ b ∈ db.ledger, ∀ successor,
    a.supersededBy = some successor → b.supersededBy = some successor → a = b
  one_head : ∀ row ∈ db.ledger, ∃! head, head ∈ db.ledger ∧ head.supersededBy = none ∧
    Reaches db.successor row.licenseId head.licenseId
  ordered : ∀ a ∈ db.ledger, ∀ b ∈ db.ledger, ∀ head ∈ db.ledger,
    Reaches db.successor a.licenseId head.licenseId →
    Reaches db.successor b.licenseId head.licenseId →
    Reaches db.successor a.licenseId b.licenseId ∨ Reaches db.successor b.licenseId a.licenseId

theorem successor_of_mem {db : Database F} (h : db.Linked) {row : IssuanceLedger}
    (hr : row ∈ db.ledger) : db.successor row.licenseId = row.supersededBy := by
  rw [Database.successor, nextKey, Table.find_of_mem h.keyed hr, Option.bind_some]

/-- Where a row leads to is a row. -/
theorem exists_of_reaches {db : Database F} (h : db.Linked) {row : IssuanceLedger}
    (hr : row ∈ db.ledger) {licenseId : Str} (hreach : Reaches db.successor row.licenseId licenseId) :
    ∃ other ∈ db.ledger, other.licenseId = licenseId := by
  induction hreach with
  | refl => exact ⟨row, hr, rfl⟩
  | @tail b c _ hbc ih =>
    obtain ⟨other, hother, rfl⟩ := ih
    rw [Follows, successor_of_mem h hother] at hbc
    exact List.mem_map.mp (h.forward other hother _ hbc).1

theorem chains_of_linked {db : Database F} (h : db.Linked) : Chains db where
  keyed := h.keyed
  successor_exists := by
    intro row hr successor hs
    obtain ⟨hmem, hlt⟩ := h.forward row hr successor hs
    refine ⟨?_, List.mem_map.mp hmem⟩
    rintro rfl
    exact Nat.lt_irrefl _ hlt
  no_cycle := lineage_acyclic h
  one_predecessor := h.single
  one_head := by
    intro row hr
    obtain ⟨headId, ⟨hreach, hnone⟩, huniq⟩ := lineage_head h row.licenseId
    obtain ⟨head, hhead, rfl⟩ := exists_of_reaches h hr hreach
    have hend : head.supersededBy = none := by
      rw [← successor_of_mem h hhead]
      exact hnone
    refine ⟨head, ⟨hhead, hend, hreach⟩, ?_⟩
    rintro other ⟨hother, hotherEnd, hotherReach⟩
    have hid := huniq other.licenseId ⟨hotherReach, (successor_of_mem h hother).trans hotherEnd⟩
    exact Table.eq_of_mem h.keyed hother hhead hid
  ordered := by
    intro a _ b _ head _ ha hb
    exact lineage_ordered h ha hb

end Chains

section History
variable {F : Type} [PyFloat F] [Cryptography] [Unicode]

/-- The database after a run from empty tables. -/
def after (F : Type) [PyFloat F] (history : List LedgerCall) : Database F :=
  run step Database.empty history

theorem after_append (history later : List LedgerCall) :
    after F (history ++ later) = run step (after F history) later :=
  run_append step Database.empty history later

theorem ledger_history (history : List LedgerCall) :
    Chains (after F history) ∧
    (∀ later, ∀ row ∈ (after F history).ledger,
      ∃ row' ∈ (after F (history ++ later)).ledger, Evolves row row') ∧
    (∀ c, ∀ row' ∈ (step (after F history) c).ledger, ∀ t, row'.revokedAt = some t →
      ∃ row ∈ (after F history).ledger, row.licenseId = row'.licenseId ∧
        (row.revokedAt = some t ∨
          row.revokedAt = none ∧ row.supersededBy = none ∧ row'.supersededBy = none)) ∧
    (roster (after F history) false).Nodup ∧
    (∀ row, row ∈ roster (after F history) false ↔
      row ∈ (after F history).ledger ∧ row.supersededBy = none ∧ row.revokedAt = none) := by
  have hlinked : (after F history).Linked := run_linked history
  refine ⟨chains_of_linked hlinked, ?_, ?_, ?_, ?_⟩
  · intro later row hr
    obtain ⟨new, hnew, hev⟩ := run_evolves later (Table.find_of_mem hlinked.keyed hr)
    rw [after_append]
    exact ⟨new, (Table.mem_of_find hnew).1, hev⟩
  · intro c row' hr' t ht
    have hlinked' := step_linked hlinked c
    obtain ⟨old, hold, hcases⟩ := step_revoked c (Table.find_of_mem hlinked'.keyed hr') ht
    obtain ⟨hmem, hid⟩ := Table.mem_of_find hold
    exact ⟨old, hmem, hid, hcases⟩
  · exact roster_nodup (List.Nodup.of_map _ hlinked.keyed)
  · intro row
    exact mem_roster

/-- A renewal of a revoked row that passes every check there is: those of
`renew`, and the database's on the new keys. -/
def resurrects (db : Database F) (c : LedgerCall) : Bool :=
  match c with
  | .renew _ _ priorLicenseId _ =>
    match db.findLicense priorLicenseId with
    | none => false
    | some prior =>
      prior.revokedAt.isSome &&
        match c.prepare F (some prior) with
        | .ok plan => plan.fresh db
        | .error _ => false
  | _ => false

/-- In the later state no row that a revoked row leads to is current. -/
def StaysRevoked (db later : Database F) : Prop :=
  ∀ row ∈ db.ledger, row.revokedAt ≠ none → ∀ other ∈ later.ledger,
    Reaches later.successor row.licenseId other.licenseId →
    other ∉ roster later false ∧ ∀ customerId, other ∉ byCustomer later customerId false

theorem not_staysRevoked_of_resurrects {db : Database F} {c : LedgerCall}
    (h : resurrects db c = true) : ¬ StaysRevoked db (step db c) := by
  cases c with
  | issue ambient priv req => cases h
  | revoke now licenseId reason => cases h
  | renew ambient priv priorLicenseId req =>
    simp only [resurrects] at h
    split at h
    · cases h
    rename_i prior found
    rw [Bool.and_eq_true] at h
    obtain ⟨hrev, h⟩ := h
    split at h
    · rename_i plan hprep
      have hread : (LedgerCall.renew ambient priv priorLicenseId req).reads F db = some prior := found
      rw [← hread] at hprep
      rw [step_of_fresh hprep h]
      intro hstays
      have hfound := found_of_prepare hprep
      cases hfound with
      | @renew _ _ _ _ row secret found' head drafted =>
        rw [found'] at found
        cases found
        have hmem := (Table.mem_of_find (Plan.findLicense_replace_new h found')).1
        have hrev' : prior.revokedAt ≠ none := by
          intro hnone
          rw [hnone] at hrev
          cases hrev
        have hout := hstays prior (Table.mem_of_find found').1 hrev' row hmem
          (.single (Plan.follows_replace h found'))
        exact hout.1 (mem_roster.mpr ⟨hmem, drafted.head, drafted.unrevoked⟩)
    · cases h

/-- Revoked rows are heads. -/
def RevokedHeads (db : Database F) : Prop :=
  ∀ licenseId row, db.findLicense licenseId = some row → row.revokedAt ≠ none →
    row.supersededBy = none

theorem step_revokedHeads {db : Database F} {c : LedgerCall} (hc : ¬ resurrects db c = true)
    (h : RevokedHeads db) : RevokedHeads (step db c) := by
  intro licenseId new hnew hrev
  rcases step_cases db c with heq | ⟨plan, hprep, hf, heq⟩
  · rw [heq] at hnew
    exact h licenseId new hnew hrev
  rw [heq] at hnew
  cases found_of_prepare hprep with
  | issue drafted =>
    rw [Plan.findLicense_add hf] at hnew
    split at hnew
    · cases hnew
      exact drafted.head
    · exact h licenseId new hnew hrev
  | @renew ambient priv req prior row secret found head drafted =>
    rw [Plan.findLicense_replace hf (Plan.replace_distinct hf found)] at hnew
    split at hnew
    · -- the row that is renewed: it was not revoked
      rw [found] at hnew
      cases hnew
      exfalso
      apply hc
      have hread : (LedgerCall.renew ambient priv prior.licenseId req).reads F db = some prior := found
      rw [hread] at hprep
      have hsome : prior.revokedAt.isSome = true := Option.isSome_iff_ne_none.mpr hrev
      simp only [resurrects, found, hprep, hsome, hf, Bool.and_self]
    · split at hnew
      · cases hnew
        exact drafted.head
      · exact h licenseId new hnew hrev
  | @revoke now reason row found head unrevoked =>
    rw [Plan.findLicense_flag] at hnew
    split at hnew
    · rw [found] at hnew
      cases hnew
      exact head
    · exact h licenseId new hnew hrev

theorem staysRevoked_of_revokedHeads {db : Database F} (hdb : db.Linked) (calls : List LedgerCall)
    (hlinked : (run step db calls).Linked) (hheads : RevokedHeads (run step db calls)) :
    StaysRevoked db (run step db calls) := by
  intro row hr hrev other hother hreach
  obtain ⟨t, ht⟩ := Option.ne_none_iff_exists'.mp hrev
  obtain ⟨new, hnew, hev⟩ := run_evolves calls (Table.find_of_mem hdb.keyed hr)
  have hnewRev : new.revokedAt = some t := (hev.revoked t ht).1
  have hhead : new.supersededBy = none := by
    apply hheads row.licenseId new hnew
    rw [hnewRev]
    exact Option.some_ne_none t
  -- a revoked row leads only to itself
  have hend : (run step db calls).successor row.licenseId = none := by
    rw [Database.successor_eq, hnew]
    exact hhead
  have hid : other.licenseId = row.licenseId := eq_of_reaches_of_head hreach hend
  have hsame : other = new := by
    obtain ⟨hmem, hnid⟩ := Table.mem_of_find hnew
    exact Table.eq_of_mem hlinked.keyed hother hmem (hid.trans hnid.symm)
  have hnot : ¬ other.Current := by
    rintro ⟨-, hnone⟩
    rw [hsame, hnewRev] at hnone
    cases hnone
  refine ⟨fun h => hnot (mem_roster.mp h).2, fun customerId h => ?_⟩
  exact hnot (mem_byCustomer.mp h).2.2

/-- A revoked license is gone for good exactly in the runs that renew no revoked row. -/
theorem revoked_for_good_iff (history : List LedgerCall) :
    (∀ before between rest, history = before ++ between ++ rest →
      StaysRevoked (after F before) (after F (before ++ between))) ↔
    Guarded step (fun db c => ¬ resurrects db c = true) (Database.empty : Database F) history := by
  constructor
  · intro hstays
    by_contra hnot
    obtain ⟨before, c, rest, rfl, hc⟩ := not_guarded_split hnot
    rw [not_not] at hc
    have hbad := hstays before [c] rest (by rw [List.append_assoc]; rfl)
    rw [after_append] at hbad
    exact not_staysRevoked_of_resurrects hc hbad
  · rintro hguard before between rest rfl
    obtain ⟨hguard, -⟩ := guarded_append.mp hguard
    have hempty : RevokedHeads (Database.empty : Database F) := by
      intro licenseId row hrow
      cases hrow
    have hheads : RevokedHeads (after F (before ++ between)) :=
      guarded_invariant RevokedHeads (fun _ _ hc h => step_revokedHeads hc h) hguard hempty
    have hlinked : (after F (before ++ between)).Linked := run_linked _
    rw [after_append] at hheads hlinked ⊢
    exact staysRevoked_of_revokedHeads (run_linked before) between hlinked hheads

end History

section Acme
attribute [local instance] asciiUnicode mirrorCryptography

/-- Midnight of 2026-01-01. -/
def newYear : Instant := 63902822400000000

def acmeIssue : LedgerCall :=
  .issue ⟨newYear, ⟨lit "0a", lit "s"⟩⟩ (some ())
    { customerId := lit "acme", edition := lit "saas", licenseId := some (lit "acme-1") }

def acmeRevoke : LedgerCall := .revoke newYear (lit "acme-1") (some (lit "contract terminated"))

def acmeRenew : LedgerCall :=
  .renew ⟨newYear, ⟨lit "0b", lit "t"⟩⟩ (some ()) (lit "acme-1")
    { customerId := [], edition := [], licenseId := some (lit "acme-2") }

/-- Issue, revoke, renew: the successor of the revoked license is on the roster. -/
theorem revoked_license_renewed :
    ¬ StaysRevoked (after Unit [acmeIssue, acmeRevoke])
      (after Unit ([acmeIssue, acmeRevoke] ++ [acmeRenew])) := by
  rw [after_append]
  apply not_staysRevoked_of_resurrects
  decide +kernel

end Acme

end IsaCloud.Fleet
