import IsaCloud.Fleet.LedgerRuns
import IsaCloud.Support.Pool
import IsaCloud.Support.Race

/-!
# Two transactions on one license

The guards of `renew` and `revoke` look at the row as it was read; nothing
locks it until the commit. Two such transactions on one license then have the
outcome of a serial order, unless both read before either commits, both pass
their guards, and they are of one kind: two renewals with different new keys, or
two revocations. A renewal and a revocation that overlap write different
columns and end as the revocation followed by the renewal.
-/

namespace IsaCloud.Fleet

set_option autoImplicit false

open Support Support.Text Support.Python Support.DateTime Support.Lineage Relation License

section Growth
variable {F : Type}

/-- No license is gone. -/
def Database.Grows (db db' : Database F) : Prop :=
  db.ledger.map IssuanceLedger.licenseId ⊆ db'.ledger.map IssuanceLedger.licenseId

/-- The licenses a plan adds. -/
def Plan.licenses : Plan → List Str
  | .add row _ | .replace _ row _ => [row.licenseId]
  | .flag _ _ _ => []

theorem Plan.keys_apply (db : Database F) (plan : Plan) :
    (plan.apply db).ledger.map IssuanceLedger.licenseId =
      db.ledger.map IssuanceLedger.licenseId ++ plan.licenses := by
  cases plan with
  | add row secret =>
    simp only [apply]
    rw [List.map_append]
    rfl
  | replace prior row secret =>
    simp only [apply]
    rw [Table.map_key_update (fun old => old.supersede_licenseId row.licenseId), List.map_append]
    rfl
  | flag licenseId at_ reason =>
    simp only [apply]
    rw [Table.map_key_update (fun old => old.revoke_licenseId at_ reason)]
    exact (List.append_nil _).symm

/-- The credentials a plan adds. -/
def Plan.secretIds : Plan → List Str
  | .add _ secret | .replace _ _ secret => [secret.deploymentSecretId]
  | .flag _ _ _ => []

theorem Plan.secret_keys_apply (db : Database F) (plan : Plan) :
    (plan.apply db).secrets.map DeploymentSecret.deploymentSecretId =
      db.secrets.map DeploymentSecret.deploymentSecretId ++ plan.secretIds := by
  cases plan with
  | add row secret => exact List.map_append
  | replace prior row secret => exact List.map_append
  | flag licenseId at_ reason => exact (List.append_nil _).symm

theorem Plan.fresh_iff (db : Database F) (plan : Plan) : plan.fresh db = true ↔
    (∀ k ∈ plan.licenses, k ∉ db.ledger.map IssuanceLedger.licenseId) ∧
    (∀ k ∈ plan.secretIds, k ∉ db.secrets.map DeploymentSecret.deploymentSecretId) := by
  have hkeys : ∀ (row : IssuanceLedger) (secret : DeploymentSecret),
      ((db.findLicense row.licenseId).isNone &&
        (db.findSecret secret.deploymentSecretId).isNone) = true ↔
      row.licenseId ∉ db.ledger.map IssuanceLedger.licenseId ∧
        secret.deploymentSecretId ∉ db.secrets.map DeploymentSecret.deploymentSecretId := by
    intro row secret
    rw [Bool.and_eq_true, Option.isNone_iff_eq_none, Option.isNone_iff_eq_none,
      Database.findLicense, Database.findSecret, Table.find_eq_none_iff, Table.find_eq_none_iff]
  cases plan with
  | add row secret => simpa [fresh, licenses, secretIds] using hkeys row secret
  | replace prior row secret => simpa [fresh, licenses, secretIds] using hkeys row secret
  | flag licenseId at_ reason => simp [fresh, licenses, secretIds]

/-- Free after another plan: free before, and not what that plan adds. -/
theorem Plan.fresh_apply_iff (db : Database F) (plan other : Plan) :
    other.fresh (plan.apply db) = true ↔ other.fresh db = true ∧
      (∀ k ∈ other.licenses, k ∉ plan.licenses) ∧ (∀ k ∈ other.secretIds, k ∉ plan.secretIds) := by
  rw [fresh_iff, fresh_iff, keys_apply, secret_keys_apply]
  simp only [List.mem_append, not_or]
  constructor
  · rintro ⟨hl, hs⟩
    exact ⟨⟨fun k hk => (hl k hk).1, fun k hk => (hs k hk).1⟩, fun k hk => (hl k hk).2,
      fun k hk => (hs k hk).2⟩
  · rintro ⟨⟨hl, hs⟩, hl', hs'⟩
    exact ⟨fun k hk => ⟨hl k hk, hl' k hk⟩, fun k hk => ⟨hs k hk, hs' k hk⟩⟩

/-- Superseding and revoking a row write different columns. -/
theorem Plan.apply_comm (db : Database F) {p : Str} {row : IssuanceLedger}
    {secret : DeploymentSecret} (hne : row.licenseId ≠ p) (at_ : Instant)
    (reason : Option (Option Str)) :
    (Plan.flag p at_ reason).apply ((Plan.replace p row secret).apply db) =
      (Plan.replace p row secret).apply ((Plan.flag p at_ reason).apply db) := by
  simp only [apply]
  congr 1
  have hcols : ∀ old : IssuanceLedger, (old.supersede row.licenseId).revoke at_ reason =
      (old.revoke at_ reason).supersede row.licenseId := fun _ => rfl
  rw [Table.update_comm (fun old => old.revoke_licenseId at_ reason)
    (fun old => old.supersede_licenseId row.licenseId) hcols, Table.update_append,
    Table.update_singleton_of_ne hne]

theorem Plan.grows_apply (db : Database F) (plan : Plan) : db.Grows (plan.apply db) := by
  rw [Database.Grows, Plan.keys_apply]
  exact List.subset_append_left _ _

theorem Plan.Anchored.mono {db db' : Database F} {plan : Plan} (hgrows : db.Grows db')
    (h : plan.Anchored db) : plan.Anchored db' := by
  cases plan with
  | add => trivial
  | replace prior row secret => exact hgrows h
  | flag => trivial

end Growth

section Traffic
variable (F : Type) [PyFloat F] [Cryptography] [Unicode]

/-- Any number of calls on one database, command by command. -/
def ledgerSystem : System (Database F) Empty LedgerCall (DbCommand F) DbReply (Except PyError Unit) :=
  ⟨serve, fun _ e => e.elim, fun _ c => c.session F⟩

abbrev LedgerPool := Pool (Database F) LedgerCall (DbCommand F) DbReply (Except PyError Unit)

variable {F}

/-- Reached by some interleaving of calls from empty tables. -/
def Reachable (db : Database F) : Prop :=
  ∃ actions, (run (ledgerSystem F).step (Pool.init Database.empty) actions).server = db

/-- What is left of a call that is under way. -/
inductive Underway (db : Database F) : Session F Unit → Prop where
  | returned (out : Except PyError Unit) : Underway db (.ret out)
  | reading {c : LedgerCall} {licenseId : Str} (target : c.target = some licenseId) :
      Underway db (Session.withLedger licenseId fun read =>
        LedgerCall.carryOut F (c.prepare F read))
  | committing {plan : Plan} (proper : plan.Proper) (anchored : plan.Anchored db) :
      Underway db (Session.commitThen plan.writes ())

theorem underway_carryOut {db : Database F} {c : LedgerCall} {read : Option IssuanceLedger}
    (hread : read = c.reads F db) : Underway db (LedgerCall.carryOut F (c.prepare F read)) := by
  subst hread
  cases hprep : c.prepare F (c.reads F db) with
  | error e => exact .returned _
  | ok plan =>
    refine .committing (prepare_admitted hprep).proper ?_
    cases found_of_prepare hprep with
    | issue => trivial
    | renew found => exact List.mem_map_of_mem (Table.mem_of_find found).1
    | revoke => trivial

theorem underway_session (db : Database F) (c : LedgerCall) : Underway db (c.session F) := by
  cases ht : c.target with
  | some licenseId =>
    rw [LedgerCall.session_of_target ht]
    exact .reading ht
  | none =>
    cases c with
    | issue ambient priv req =>
      rw [LedgerCall.session_issue]
      exact underway_carryOut rfl
    | renew => cases ht
    | revoke => cases ht

theorem Underway.mono {db db' : Database F} {s : Session F Unit} (hgrows : db.Grows db')
    (h : Underway db s) : Underway db' s := by
  cases h with
  | returned out => exact .returned out
  | reading target => exact .reading target
  | committing proper anchored => exact .committing proper (anchored.mono hgrows)

/-- One command of a call keeps the ledger linked and leaves a call under way. -/
theorem Underway.advance {db : Database F} {s : Session F Unit} (hdb : db.Linked)
    (h : Underway db s) :
    (Proc.advance serve db s).1.Linked ∧
    db.Grows (Proc.advance serve db s).1 ∧
    Underway (Proc.advance serve db s).1 (Proc.advance serve db s).2 := by
  cases h with
  | returned out => exact ⟨hdb, fun _ hk => hk, .returned out⟩
  | @reading c licenseId target =>
    refine ⟨hdb, fun _ hk => hk, ?_⟩
    have hread : db.findLicense licenseId = c.reads F db := by
      rw [LedgerCall.reads, target, Option.bind_some]
    exact underway_carryOut hread
  | @committing plan proper anchored =>
    simp only [Session.commitThen, Session.commitWith, Proc.advance, serve, Plan.applyWrites_writes proper]
    by_cases hf : plan.fresh db = true
    · simp only [if_pos hf]
      exact ⟨Plan.apply_linked hdb proper hf anchored, Plan.grows_apply db plan, .returned _⟩
    · simp only [if_neg hf]
      exact ⟨hdb, fun _ hk => hk, .returned _⟩

/-- The ledger stays linked under any interleaving. -/
theorem linked_of_reachable {db : Database F} (h : Reachable db) : db.Linked := by
  obtain ⟨actions, rfl⟩ := h
  have hinit : InOrder Database.Linked Underway (Pool.init Database.empty : LedgerPool F) :=
    ⟨linked_empty, fun i call hi => by cases hi⟩
  exact (run_inOrder (fun _ e => e.elim) (fun db c _ => underway_session db c)
    (fun _ _ hdb h => h.advance hdb) (fun _ _ _ hgrows h => h.mono hgrows) hinit actions).server

end Traffic

/-- A transaction on a given license. -/
inductive Contender [Cryptography] where
  | renew (ambient : Ambient) (priv : Option Cryptography.PrivateKey) (req : IssuanceRequest)
  | revoke (now : Instant) (reason : Option Str)

namespace Contender
variable [Cryptography]

def call (p : Str) : Contender → LedgerCall
  | .renew ambient priv req => .renew ambient priv p req
  | .revoke now reason => .revoke now p reason

def isRenewal : Contender → Bool
  | .renew _ _ _ => true
  | .revoke _ _ => false

theorem target_call (p : Str) (c : Contender) : (c.call p).target = some p := by
  cases c <;> rfl

end Contender

section Serial
variable {F : Type} [PyFloat F] [Cryptography] [Unicode]

omit [PyFloat F] [Unicode] in
theorem reads_call (db : Database F) (p : Str) (c : Contender) :
    (c.call p).reads F db = db.findLicense p := by
  rw [LedgerCall.reads, c.target_call p, Option.bind_some]

/-- The calls one after another, all of them committing. -/
def serially (db : Database F) : List LedgerCall → Option (Database F)
  | [] => some db
  | c :: cs =>
    match Session.exec (c.session F) db with
    | (db', .ok _) => serially db' cs
    | (_, .error _) => none

theorem serially_cons_iff {db db' : Database F} {c : LedgerCall} {cs : List LedgerCall} :
    serially db (c :: cs) = some db' ↔ ∃ plan, c.prepare F (c.reads F db) = .ok plan ∧
      plan.fresh db = true ∧ serially (plan.apply db) cs = some db' := by
  simp only [serially, LedgerCall.exec_session]
  cases c.prepare F (c.reads F db) with
  | error e => simp
  | ok plan =>
    by_cases hf : plan.fresh db = true
    · simp [hf]
    · simp [hf]

theorem serially_linked {db db' : Database F} (h : db.Linked) {cs : List LedgerCall}
    (hs : serially db cs = some db') : db'.Linked := by
  induction cs generalizing db with
  | nil =>
    cases hs
    exact h
  | cons c cs ih =>
    obtain ⟨plan, hprep, hf, hrest⟩ := serially_cons_iff.mp hs
    refine ih ?_ hrest
    rw [← step_of_fresh hprep hf]
    exact step_linked h c

/-- A superseded license can be neither renewed nor revoked. -/
theorem prepare_superseded {row : IssuanceLedger} {successor : Str}
    (h : row.supersededBy = some successor) (p : Str) (c : Contender) (plan : Plan) :
    (c.call p).prepare F (some row) ≠ .ok plan := by
  intro hprep
  have hadm := prepare_admitted hprep
  cases c with
  | renew ambient priv req =>
    cases hadm with
    | renew head =>
      rw [h] at head
      cases head
  | revoke now reason =>
    cases hadm with
    | revoke head =>
      rw [h] at head
      cases head

theorem serially_superseded {db db' : Database F} {p : Str} {row : IssuanceLedger} {successor : Str}
    (hrow : db.findLicense p = some row) (h : row.supersededBy = some successor)
    {cs : List Contender} (hs : serially db (cs.map (Contender.call p)) = some db') : cs = [] := by
  cases cs with
  | nil => rfl
  | cons c cs =>
    obtain ⟨plan, hprep, -⟩ := serially_cons_iff.mp hs
    rw [reads_call, hrow] at hprep
    exact absurd hprep (prepare_superseded h p c plan)

/-- A revoked license cannot be revoked again. -/
theorem serially_revoked {db db' : Database F} {p : Str} {row : IssuanceLedger}
    (hrow : db.findLicense p = some row) (h : row.revokedAt ≠ none)
    {cs : List Contender} (hs : serially db (cs.map (Contender.call p)) = some db') :
    cs.filter (fun c => !c.isRenewal) = [] := by
  cases cs with
  | nil => rfl
  | cons c cs =>
    obtain ⟨plan, hprep, hf, hrest⟩ := serially_cons_iff.mp hs
    cases c with
    | renew ambient priv req =>
      cases found_of_prepare hprep with
      | renew found =>
        rw [serially_superseded (Plan.findLicense_replace_prior hf found) rfl hrest]
        rfl
    | revoke now reason =>
      cases found_of_prepare hprep with
      | revoke found _ unrevoked =>
        rw [hrow] at found
        cases found
        exact absurd unrevoked h

/-- Committing transactions on one license: there is at most one of each kind,
and what they add is reached from the license. -/
theorem serially_contenders {db db' : Database F} {p : Str} {cs : List Contender}
    (hs : serially db (cs.map (Contender.call p)) = some db') :
    (cs.filter Contender.isRenewal).length ≤ 1 ∧
    (cs.filter fun c => !c.isRenewal).length ≤ 1 ∧
    ∀ row ∈ db'.ledger, row.licenseId ∉ db.ledger.map IssuanceLedger.licenseId →
      Reaches db'.successor p row.licenseId := by
  induction cs generalizing db with
  | nil =>
    cases hs
    exact ⟨Nat.zero_le _, Nat.zero_le _, fun row hr hnew => absurd (List.mem_map_of_mem hr) hnew⟩
  | cons c cs ih =>
    obtain ⟨plan, hprep, hf, hrest⟩ := serially_cons_iff.mp hs
    cases c with
    | renew ambient priv req =>
      cases found_of_prepare hprep with
      | @renew _ _ _ prior row secret found head drafted =>
        have hnil := serially_superseded (Plan.findLicense_replace_prior hf found)
          (prior.supersede_supersededBy row.licenseId) hrest
        subst hnil
        cases hrest
        refine ⟨Nat.le_refl 1, Nat.zero_le _, ?_⟩
        intro other hother hnew
        have hid : other.licenseId = row.licenseId := by
          have hkey : other.licenseId ∈ _ := List.mem_map_of_mem hother
          rw [Plan.keys_apply] at hkey
          rcases List.mem_append.mp hkey with hkey | hkey
          · exact absurd hkey hnew
          · exact List.mem_singleton.mp hkey
        rw [hid]
        exact .single (Plan.follows_replace hf found)
    | revoke now reason =>
      cases found_of_prepare hprep with
      | @revoke _ _ row found head unrevoked =>
        obtain ⟨hone, -, hreach⟩ := ih hrest
        have hread : ((Plan.flag row.licenseId now (changed row.revokedReason reason)).apply
            db).findLicense row.licenseId =
            some (row.revoke now (changed row.revokedReason reason)) := by
          rw [Plan.findLicense_flag, if_pos rfl, found]
          rfl
        have hnone := serially_revoked hread (Option.some_ne_none now) hrest
        refine ⟨hone, ?_, ?_⟩
        · rw [List.filter_cons_of_pos rfl, hnone]
          exact Nat.le_refl 1
        intro other hother hnew
        apply hreach other hother
        rw [Plan.keys_apply, Plan.licenses, List.append_nil]
        exact hnew

end Serial

section Races
variable {F : Type} [PyFloat F] [Cryptography] [Unicode]

abbrev LedgerRace (F : Type) := Race (Database F) (DbCommand F) DbReply (Except PyError Unit)

/-- Two transactions on license `p`, neither of which has read yet. -/
def start (db : Database F) (p : Str) (calls : Bool → Contender) : LedgerRace F :=
  ⟨db, fun b => ((calls b).call p).session F⟩

def committed (r : LedgerRace F) (b : Bool) : Bool :=
  match r.proc b with
  | .ret out => out.isOk
  | .call _ _ => false

def InLineage (db : Database F) (p : Str) (row : IssuanceLedger) : Prop :=
  Reaches db.successor p row.licenseId ∨ Reaches db.successor row.licenseId p

/-- The outcome of a serial order of the calls that committed. -/
structure Serializes (db : Database F) (p : Str) (calls : Bool → Contender)
    (final : LedgerRace F) : Prop where
  order : ∃ order : List Bool, order.Perm ([false, true].filter (committed final)) ∧
    serially db (order.map fun b => (calls b).call p) = some final.server
  one_renewal :
    (([false, true].filter (committed final)).filter fun b => (calls b).isRenewal).length ≤ 1
  connected : ∀ row ∈ final.server.ledger, row.licenseId ∉ db.ledger.map IssuanceLedger.licenseId →
    Reaches final.server.successor p row.licenseId
  one_current : ∀ a ∈ final.server.ledger, ∀ b ∈ final.server.ledger,
    InLineage final.server p a → InLineage final.server p b → a.Current → b.Current → a = b

/-- Two decisions that cannot both be carried out one after the other. -/
inductive Clash (db : Database F) : Plan → Plan → Prop where
  | revocations (p p' : Str) (at_ at_' : Instant) (reason reason' : Option (Option Str)) :
      Clash db (.flag p at_ reason) (.flag p' at_' reason')
  | renewals {p p' : Str} {row row' : IssuanceLedger} {secret secret' : DeploymentSecret}
      (fresh : (Plan.replace p row secret).fresh db = true)
      (fresh' : (Plan.replace p' row' secret').fresh db = true)
      (licenses : row.licenseId ≠ row'.licenseId)
      (secrets : secret.deploymentSecretId ≠ secret'.deploymentSecretId) :
      Clash db (.replace p row secret) (.replace p' row' secret')

/-- Both calls pass their guards on the row as it is, with decisions that clash. -/
def Collide (db : Database F) (p : Str) (calls : Bool → Contender) : Prop :=
  ∃ plan plan', ((calls false).call p).prepare F (db.findLicense p) = .ok plan ∧
    ((calls true).call p).prepare F (db.findLicense p) = .ok plan' ∧ Clash db plan plan'

/-- Both calls read before either commits. -/
def Overlap (schedule : List Bool) : Prop := ∃ b rest, schedule = b :: (!b) :: rest

omit [PyFloat F] [Cryptography] [Unicode] in
theorem Clash.symm {db : Database F} {plan plan' : Plan} (h : Clash db plan plan') :
    Clash db plan' plan := by
  cases h with
  | revocations => exact .revocations _ _ _ _ _ _
  | renewals hf hf' hl hs => exact .renewals hf' hf hl.symm hs.symm

theorem Collide.plans {db : Database F} {p : Str} {calls : Bool → Contender}
    (h : Collide db p calls) (x : Bool) :
    ∃ plan plan', ((calls x).call p).prepare F (db.findLicense p) = .ok plan ∧
      ((calls !x).call p).prepare F (db.findLicense p) = .ok plan' ∧ Clash db plan plan' := by
  obtain ⟨plan, plan', hprep, hprep', hclash⟩ := h
  cases x with
  | false => exact ⟨plan, plan', hprep, hprep', hclash⟩
  | true => exact ⟨plan', plan, hprep', hprep, hclash.symm⟩

theorem collide_of_clash {db : Database F} {p : Str} {calls : Bool → Contender} {x : Bool}
    {plan plan' : Plan} (hprep : ((calls x).call p).prepare F (db.findLicense p) = .ok plan)
    (hprep' : ((calls !x).call p).prepare F (db.findLicense p) = .ok plan')
    (h : Clash db plan plan') : Collide db p calls := by
  cases x with
  | false => exact ⟨plan, plan', hprep, hprep', h⟩
  | true => exact ⟨plan', plan, hprep', hprep, h.symm⟩

/-! ## How a complete schedule ends -/

/-- `x` to its end, then the other. -/
structure InTurn (procs : Bool → Session F Unit) (db : Database F) (x : Bool)
    (final : LedgerRace F) : Prop where
  server : final.server = (Session.exec (procs !x) (Session.exec (procs x) db).1).1
  first : final.proc x = .ret (Session.exec (procs x) db).2
  second : final.proc (!x) = .ret (Session.exec (procs !x) (Session.exec (procs x) db).1).2

/-- What the calls do after both have read the row as it is now. -/
def decided (db : Database F) (p : Str) (calls : Bool → Contender) (b : Bool) : Session F Unit :=
  LedgerCall.carryOut F (((calls b).call p).prepare F (db.findLicense p))

omit [PyFloat F] [Cryptography] [Unicode] in
theorem short_carryOut (decision : Except PyError Plan) :
    Race.Short serve (LedgerCall.carryOut F decision) := by
  intro db
  cases decision with
  | error e => exact ⟨_, rfl⟩
  | ok plan =>
    simp only [LedgerCall.carryOut, Proc.attempt_ok, Session.commitThen, Session.commitWith, Proc.advance, serve]
    cases applyWrites db plan.writes with
    | ok db' => exact ⟨_, rfl⟩
    | error e => exact ⟨_, rfl⟩

theorem start_proc (db : Database F) (p : Str) (calls : Bool → Contender) (b : Bool) :
    (start db p calls).proc b = Session.withLedger p fun read =>
      LedgerCall.carryOut F (((calls b).call p).prepare F read) :=
  LedgerCall.session_of_target ((calls b).target_call p)

/-- A read leaves the database and the other call alone. -/
theorem advance_start (db : Database F) (p : Str) (calls : Bool → Contender) (b : Bool) :
    Proc.advance serve db ((start db p calls).proc b) = (db, decided db p calls b) := by
  rw [start_proc]
  rfl

theorem exec_session_eq_decided (db : Database F) (p : Str) (calls : Bool → Contender) (b : Bool) :
    Session.exec (((calls b).call p).session F) db = Session.exec (decided db p calls b) db := by
  have h := Proc.exec_advance serve db ((start db p calls).proc b)
  rw [advance_start] at h
  exact h.symm

theorem short_decided (db : Database F) (p : Str) (calls : Bool → Contender) (b : Bool) :
    Race.Short serve (decided db p calls b) :=
  short_carryOut _

/-- The race after the first read. -/
structure ReadFirst (db : Database F) (p : Str) (calls : Bool → Contender) (x : Bool)
    (r : LedgerRace F) : Prop where
  server : r.server = db
  first : r.proc x = decided db p calls x
  second : r.proc (!x) = (start db p calls).proc (!x)

theorem readFirst_step (db : Database F) (p : Str) (calls : Bool → Contender) (x : Bool) :
    ReadFirst db p calls x (Race.step serve (start db p calls) x) := by
  constructor
  · rw [Race.step_server]
    exact congrArg Prod.fst (advance_start db p calls x)
  · rw [Race.step_proc_self]
    exact congrArg Prod.snd (advance_start db p calls x)
  · exact Race.step_proc_of_ne _ (Bool.not_eq_self x).mp

section Schedules
variable {db : Database F} {p : Str} {calls : Bool → Contender} {x : Bool} {r : LedgerRace F}
  (hr : ReadFirst db p calls x r) {schedule : List Bool}
include hr

/-- The call that read goes on and commits before the other reads. -/
theorem ReadFirst.inTurn (hdone : (run (Race.step serve) (Race.step serve r x) schedule).Done) :
    InTurn (fun b => ((calls b).call p).session F) db x
      (run (Race.step serve) (Race.step serve r x) schedule) := by
  obtain ⟨hs, hp⟩ := Race.exec_of_short (short_decided db p calls x) db
  have hret : (Race.step serve r x).proc x =
      .ret (Proc.exec serve (decided db p calls x) db).2 := by
    rw [Race.step_proc_self, hr.first, hr.server, hp]
  have hrest := Race.run_of_returned hret hdone
  rw [Race.step_server, hr.first, hr.server, hs,
    Race.step_proc_of_ne _ (Bool.not_eq_self x).mp, hr.second] at hrest
  have hexec := exec_session_eq_decided db p calls x
  constructor
  · rw [hexec]
    exact hrest.1
  · rw [hexec]
    exact hrest.2.1
  · rw [hexec]
    exact hrest.2.2

/-- The other call reads too: each has its decision left. -/
theorem ReadFirst.overlapping
    (hdone : (run (Race.step serve) (Race.step serve r !x) schedule).Done) :
    ∃ y, InTurn (decided db p calls) db y
      (run (Race.step serve) (Race.step serve r !x) schedule) := by
  have hserver : (Race.step serve r (!x)).server = db := by
    rw [Race.step_server, hr.second, hr.server, advance_start]
  have hproc : ∀ b, (Race.step serve r (!x)).proc b = decided db p calls b := by
    intro b
    by_cases hb : b = x
    · subst hb
      rw [Race.step_proc_of_ne _ (Ne.symm (Bool.not_eq_self b).mp), hr.first]
    · have hbx : b = !x := Bool.eq_not.mpr hb
      subst hbx
      rw [Race.step_proc_self, hr.second, hr.server, advance_start]
  have hshort : ∀ b, Race.Short serve ((Race.step serve r (!x)).proc b) := by
    intro b
    rw [hproc b]
    exact short_decided db p calls b
  obtain ⟨y, hy⟩ := Race.run_of_short hshort hdone
  rw [hproc, hproc, hserver] at hy
  exact ⟨y, hy.1, hy.2.1, hy.2.2⟩

end Schedules

theorem race_outcome {db : Database F} {p : Str} {calls : Bool → Contender} {schedule : List Bool}
    (hdone : (run (Race.step serve) (start db p calls) schedule).Done) :
    (Overlap schedule ∧ ∃ x, InTurn (decided db p calls) db x
      (run (Race.step serve) (start db p calls) schedule)) ∨
    (¬ Overlap schedule ∧ ∃ x, InTurn (fun b => ((calls b).call p).session F) db x
      (run (Race.step serve) (start db p calls) schedule)) := by
  -- a call that has not read yet has not returned
  have hopen : ∀ r : LedgerRace F, ∀ b, r.proc b = (start db p calls).proc b → ¬ r.Done := by
    intro r b hb hd
    have := hd b
    rw [hb, start_proc] at this
    cases this
  match schedule with
  | [] => exact absurd hdone (hopen _ true rfl)
  | [x] => exact absurd hdone (hopen _ (!x) (readFirst_step db p calls x).second)
  | x :: y :: schedule =>
    rw [run_cons, run_cons] at hdone ⊢
    by_cases hy : y = x
    · subst hy
      refine .inr ⟨?_, y, (readFirst_step db p calls y).inTurn hdone⟩
      rintro ⟨b, rest, heq⟩
      rw [List.cons.injEq, List.cons.injEq] at heq
      exact (Bool.not_eq_self b).mp (heq.2.1.symm.trans heq.1)
    · have hyx : y = !x := Bool.eq_not.mpr hy
      subst hyx
      exact .inl ⟨⟨x, schedule, rfl⟩, (readFirst_step db p calls x).overlapping hdone⟩

/-! ## Outcomes that are serial -/

theorem serializes_of_order {db : Database F} (hdb : db.Linked) {p : Str}
    {calls : Bool → Contender} {final : LedgerRace F} {order : List Bool}
    (hperm : order.Perm ([false, true].filter (committed final)))
    (hs : serially db (order.map fun b => (calls b).call p) = some final.server) :
    Serializes db p calls final := by
  have hs' : serially db ((order.map calls).map (Contender.call p)) = some final.server := by
    rw [List.map_map]
    exact hs
  obtain ⟨hone, -, hreach⟩ := serially_contenders hs'
  have hlinked := serially_linked hdb hs
  refine ⟨⟨order, hperm, hs⟩, ?_, hreach, ?_⟩
  · rw [List.filter_map, List.length_map] at hone
    rw [← (hperm.filter _).length_eq]
    exact hone
  · intro a ha b hb hina hinb hca hcb
    have hhead : ∀ row ∈ final.server.ledger, row.Current → InLineage final.server p row →
        Reaches final.server.successor p row.licenseId := by
      intro row hr hcur hin
      rcases hin with hin | hin
      · exact hin
      · rw [eq_of_reaches_of_head hin ((successor_of_mem hlinked hr).trans hcur.1)]
    have hid := head_unique (hhead a ha hca hina) ((successor_of_mem hlinked ha).trans hca.1)
      (hhead b hb hcb hinb) ((successor_of_mem hlinked hb).trans hcb.1)
    exact Table.eq_of_mem hlinked.keyed ha hb hid.symm

omit [Cryptography] [Unicode] in
theorem perm_sides (x : Bool) : [x, !x].Perm [false, true] := by
  cases x with
  | false => exact .refl _
  | true => exact .swap _ _ _

omit [PyFloat F] [Cryptography] [Unicode] in
theorem committed_of_ret {r : LedgerRace F} {b : Bool} {out : Except PyError Unit}
    (h : r.proc b = .ret out) : committed r b = out.isOk := by
  rw [committed, h]

/-- A call with its effect, if it has one. -/
theorem serially_exec (db : Database F) (c : LedgerCall) (cs : List LedgerCall) :
    serially db ((if (Session.exec (c.session F) db).2.isOk then [c] else []) ++ cs) =
      serially (Session.exec (c.session F) db).1 cs := by
  have hserial : serially db (c :: cs) =
      match Session.exec (c.session F) db with
      | (db', .ok _) => serially db' cs
      | (_, .error _) => none := rfl
  rw [LedgerCall.exec_session] at hserial ⊢
  cases hprep : c.prepare F (c.reads F db) with
  | error e => rfl
  | ok plan =>
    rw [hprep] at hserial
    by_cases hf : plan.fresh db = true
    · simp only [if_pos hf] at hserial ⊢
      exact hserial
    · simp only [if_neg hf]
      rfl

omit [PyFloat F] [Unicode] in
theorem map_committed (calls : Bool → Contender) (p : Str) (final : LedgerRace F) (x : Bool) :
    (([x, !x].filter (committed final)).map fun b => (calls b).call p) =
      (if committed final x then [(calls x).call p] else []) ++
        (if committed final (!x) then [(calls !x).call p] else []) := by
  cases hx : committed final x <;> cases hy : committed final (!x) <;> simp [hx, hy]

theorem serializes_of_inTurn {db : Database F} (hdb : db.Linked) {p : Str}
    {calls : Bool → Contender} {final : LedgerRace F} {x : Bool}
    (h : InTurn (fun b => ((calls b).call p).session F) db x final) :
    Serializes db p calls final := by
  refine serializes_of_order hdb ((perm_sides x).filter (committed final)) ?_
  rw [map_committed, committed_of_ret h.first, committed_of_ret h.second, serially_exec]
  have hlast := serially_exec (Session.exec (((calls x).call p).session F) db).1
    ((calls !x).call p) []
  rw [List.append_nil] at hlast
  rw [hlast, h.server]
  rfl

/-- Only call `x` may have had an effect, and it had it as if alone. -/
theorem serializes_alone {db : Database F} (hdb : db.Linked) {p : Str} {calls : Bool → Contender}
    {final : LedgerRace F} {x : Bool}
    (hserver : final.server = (Session.exec (((calls x).call p).session F) db).1)
    (hproc : final.proc x = .ret (Session.exec (((calls x).call p).session F) db).2)
    (hother : committed final (!x) = false) : Serializes db p calls final := by
  refine serializes_of_order hdb ((perm_sides x).filter (committed final)) ?_
  rw [map_committed, committed_of_ret hproc, hother, serially_exec, hserver]
  rfl

/-- Both calls committed, and so they do in some order one after the other. -/
theorem serializes_both {db : Database F} (hdb : db.Linked) {p : Str} {calls : Bool → Contender}
    {final : LedgerRace F} (x : Bool) (hfirst : committed final x = true)
    (hsecond : committed final (!x) = true)
    (hs : serially db [(calls x).call p, (calls !x).call p] = some final.server) :
    Serializes db p calls final := by
  refine serializes_of_order hdb ((perm_sides x).filter (committed final)) ?_
  rw [map_committed, hfirst, hsecond]
  exact hs

section Overlapping
variable {db : Database F} (hdb : db.Linked) {p : Str} {calls : Bool → Contender} {x : Bool}
  {final : LedgerRace F} (h : InTurn (decided db p calls) db x final)
include hdb h

/-- The first to commit fails: the other is as if alone. -/
theorem serializes_of_first_failed {e : PyError}
    (hexec : Session.exec (decided db p calls x) db = (db, .error e)) :
    Serializes db p calls final := by
  have hfirst := committed_of_ret h.first
  have hserver := h.server
  have hproc := h.second
  rw [hexec] at hfirst hserver hproc
  rw [← exec_session_eq_decided] at hserver hproc
  refine serializes_alone hdb hserver hproc ?_
  rw [Bool.not_not]
  exact hfirst

/-- The second to commit fails: the first is as if alone. -/
theorem serializes_of_second_failed {e : PyError}
    (hexec : Session.exec (decided db p calls !x) (Session.exec (decided db p calls x) db).1 =
      ((Session.exec (decided db p calls x) db).1, .error e)) :
    Serializes db p calls final := by
  have hsecond := committed_of_ret h.second
  have hserver := h.server
  have hproc := h.first
  rw [hexec] at hsecond hserver
  rw [← exec_session_eq_decided] at hserver hproc
  exact serializes_alone hdb hserver hproc hsecond

end Overlapping

/-- `renew` does not see a revocation. -/
theorem prepare_renew_revoke (row : IssuanceLedger) (at_ : Instant) (reason : Option (Option Str))
    (ambient : Ambient) (priv : Option Cryptography.PrivateKey) (p : Str) (req : IssuanceRequest) :
    LedgerCall.prepare F (some (row.revoke at_ reason)) (.renew ambient priv p req) =
      LedgerCall.prepare F (some row) (.renew ambient priv p req) := rfl

/-- A renewal after the revocation it overlapped with. -/
theorem serially_revoke_renew {db : Database F} {p : Str} {now : Instant} {reason : Option Str}
    {ambient : Ambient} {priv : Option Cryptography.PrivateKey} {req : IssuanceRequest}
    {row : IssuanceLedger} (hrow : db.findLicense p = some row) {plan plan' : Plan}
    (hprep : LedgerCall.prepare F (some row) (.revoke now p reason) = .ok plan)
    (hprep' : LedgerCall.prepare F (some row) (.renew ambient priv p req) = .ok plan')
    (hf : plan'.fresh db = true) :
    serially db [.revoke now p reason, .renew ambient priv p req] =
      some (plan'.apply (plan.apply db)) := by
  cases prepare_admitted hprep with
  | revoke head unrevoked =>
    refine serially_cons_iff.mpr ⟨_, ?_, rfl, serially_cons_iff.mpr ⟨plan', ?_, ?_, rfl⟩⟩
    · rw [← hprep]
      exact congrArg (fun read => LedgerCall.prepare F read _) hrow
    · have hread : LedgerCall.reads F ((Plan.flag p now (changed row.revokedReason reason)).apply db)
          (.renew ambient priv p req) = some (row.revoke now (changed row.revokedReason reason)) := by
        rw [LedgerCall.reads, LedgerCall.target, Option.bind_some, Plan.findLicense_flag, if_pos rfl,
          hrow]
        rfl
      rw [hread, prepare_renew_revoke]
      exact hprep'
    · rw [Plan.fresh_apply_iff]
      refine ⟨hf, ?_, ?_⟩
      · intro k _ hk
        cases hk
      · intro k _ hk
        cases hk

theorem exec_decided {db db' : Database F} {p : Str} {calls : Bool → Contender} {b : Bool}
    {plan : Plan} (hprep : ((calls b).call p).prepare F (db.findLicense p) = .ok plan)
    (hf : plan.fresh db' = true) :
    Session.exec (decided db p calls b) db' = (plan.apply db', .ok ()) := by
  rw [decided, LedgerCall.exec_carryOut, hprep]
  exact if_pos hf

/-- Both overlapping calls commit and do not clash: they are of different kinds. -/
theorem serializes_of_both {db : Database F} (hdb : db.Linked) {p : Str} {calls : Bool → Contender}
    {x : Bool} {final : LedgerRace F} (h : InTurn (decided db p calls) db x final)
    {plan plan' : Plan} (hprep : ((calls x).call p).prepare F (db.findLicense p) = .ok plan)
    (hprep' : ((calls !x).call p).prepare F (db.findLicense p) = .ok plan')
    (hf : plan.fresh db = true) (hf' : plan'.fresh (plan.apply db) = true)
    (hclash : ¬ Clash db plan plan') : Serializes db p calls final := by
  have hfirst := committed_of_ret h.first
  have hsecond := committed_of_ret h.second
  have hserver := h.server
  rw [exec_decided hprep hf] at hfirst hsecond hserver
  rw [exec_decided hprep' hf'] at hsecond hserver
  obtain ⟨hfree, hlicenses, hsecrets⟩ := (Plan.fresh_apply_iff db plan plan').mp hf'
  generalize hread : db.findLicense p = read at hprep hprep'
  cases hx : calls x with
  | renew ambient priv req =>
    rw [hx] at hprep
    cases prepare_admitted hprep with
    | @renew _ _ _ _ prior row secret head drafted =>
      cases hy : calls !x with
      | renew ambient' priv' req' =>
        rw [hy] at hprep'
        cases prepare_admitted hprep' with
        | @renew _ _ _ _ _ row' secret' head' drafted' =>
          refine absurd (.renewals hf hfree ?_ ?_) hclash
          · intro heq
            exact hlicenses row'.licenseId (List.mem_singleton_self _) (List.mem_singleton.mpr heq.symm)
          · intro heq
            exact hsecrets secret'.deploymentSecretId (List.mem_singleton_self _)
              (List.mem_singleton.mpr heq.symm)
      | revoke now' reason' =>
        rw [hy] at hprep'
        cases prepare_admitted hprep' with
        | revoke head' unrevoked' =>
          have hne : row.licenseId ≠ p := by
            obtain ⟨hmem, rfl⟩ := Table.mem_of_find hread
            intro heq
            exact Plan.license_free hf (heq ▸ List.mem_map_of_mem hmem)
          refine serializes_both hdb (!x) hsecond (by rw [Bool.not_not]; exact hfirst) ?_
          rw [Bool.not_not, hx, hy, hserver, Plan.apply_comm db hne]
          exact serially_revoke_renew hread hprep' hprep hf
  | revoke now reason =>
    rw [hx] at hprep
    cases prepare_admitted hprep with
    | @revoke _ _ _ row head unrevoked =>
      cases hy : calls !x with
      | renew ambient' priv' req' =>
        rw [hy] at hprep'
        refine serializes_both hdb x hfirst hsecond ?_
        rw [hx, hy, hserver]
        exact serially_revoke_renew hread hprep hprep' hfree
      | revoke now' reason' =>
        rw [hy] at hprep'
        cases prepare_admitted hprep' with
        | revoke => exact absurd (.revocations _ _ _ _ _ _) hclash

theorem serializes_of_not_collide {db : Database F} (hdb : db.Linked) {p : Str}
    {calls : Bool → Contender} {x : Bool} {final : LedgerRace F}
    (h : InTurn (decided db p calls) db x final) (hc : ¬ Collide db p calls) :
    Serializes db p calls final := by
  cases hprep : ((calls x).call p).prepare F (db.findLicense p) with
  | error e =>
    refine serializes_of_first_failed hdb h (e := e) ?_
    rw [decided, LedgerCall.exec_carryOut, hprep]
  | ok plan =>
    by_cases hf : plan.fresh db = true
    · have hexec := exec_decided hprep hf
      cases hprep' : ((calls !x).call p).prepare F (db.findLicense p) with
      | error e =>
        refine serializes_of_second_failed hdb h (e := e) ?_
        rw [decided, LedgerCall.exec_carryOut, hprep']
      | ok plan' =>
        by_cases hf' : plan'.fresh (plan.apply db) = true
        · refine serializes_of_both hdb h hprep hprep' hf hf' ?_
          intro hclash
          exact hc (collide_of_clash hprep hprep' hclash)
        · refine serializes_of_second_failed hdb h (e := uniqueFailed) ?_
          rw [hexec, decided, LedgerCall.exec_carryOut, hprep']
          exact if_neg hf'
    · refine serializes_of_first_failed hdb h (e := uniqueFailed) ?_
      rw [decided, LedgerCall.exec_carryOut, hprep]
      exact if_neg hf

omit [PyFloat F] [Cryptography] [Unicode] in
/-- Of two clashing decisions the second is still free after the first. -/
theorem Clash.fresh {db : Database F} {plan plan' : Plan} (h : Clash db plan plan') :
    plan.fresh db = true ∧ plan'.fresh (plan.apply db) = true := by
  cases h with
  | revocations => exact ⟨rfl, rfl⟩
  | renewals hf hf' hl hs =>
    refine ⟨hf, (Plan.fresh_apply_iff db _ _).mpr ⟨hf', ?_, ?_⟩⟩
    · intro k hk hk'
      exact hl ((List.mem_singleton.mp hk').symm.trans (List.mem_singleton.mp hk))
    · intro k hk hk'
      exact hs ((List.mem_singleton.mp hk').symm.trans (List.mem_singleton.mp hk))

/-- Two clashing decisions are of one kind. -/
theorem Clash.same_kind {db : Database F} {read : Option IssuanceLedger} {p : Str}
    {c c' : Contender} {plan plan' : Plan} (hprep : (c.call p).prepare F read = .ok plan)
    (hprep' : (c'.call p).prepare F read = .ok plan') (h : Clash db plan plan') :
    c.isRenewal = c'.isRenewal := by
  have hadm := prepare_admitted hprep
  have hadm' := prepare_admitted hprep'
  cases c with
  | renew ambient priv req =>
    cases c' with
    | renew => rfl
    | revoke now reason =>
      cases hadm with
      | renew =>
        cases hadm' with
        | revoke => cases h
  | revoke now reason =>
    cases c' with
    | revoke => rfl
    | renew ambient priv req =>
      cases hadm with
      | revoke =>
        cases hadm' with
        | renew => cases h

/-- Two clashing decisions are both carried out. -/
theorem not_serializes_of_collide {db : Database F} {p : Str} {calls : Bool → Contender} {x : Bool}
    {final : LedgerRace F} (h : InTurn (decided db p calls) db x final) (hc : Collide db p calls) :
    ¬ Serializes db p calls final := by
  obtain ⟨plan, plan', hprep, hprep', hclash⟩ := hc.plans x
  obtain ⟨hf, hf'⟩ := hclash.fresh
  have hfirst := committed_of_ret h.first
  have hsecond := committed_of_ret h.second
  rw [exec_decided hprep hf] at hfirst hsecond
  rw [exec_decided hprep' hf'] at hsecond
  have hall : [x, !x].filter (committed final) = [x, !x] := by
    rw [List.filter_cons_of_pos hfirst, List.filter_cons_of_pos hsecond, List.filter_nil]
  have hkind := hclash.same_kind hprep hprep'
  intro hser
  obtain ⟨order, hperm, hs⟩ := hser.order
  have hperm' : (order.map calls).Perm [calls x, calls !x] := by
    have := hperm.trans ((perm_sides x).filter (committed final)).symm
    rw [hall] at this
    exact this.map calls
  have hs' : serially db ((order.map calls).map (Contender.call p)) = some final.server := by
    rw [List.map_map]
    exact hs
  obtain ⟨hone, hone', -⟩ := serially_contenders hs'
  -- both committed, and a serial order has room for one of their kind
  cases hk : (calls x).isRenewal with
  | true =>
    rw [(hperm'.filter _).length_eq] at hone
    simp [hk, ← hkind] at hone
  | false =>
    rw [(hperm'.filter _).length_eq] at hone'
    simp [hk, ← hkind] at hone'

theorem not_serializes_of_overlap {db : Database F} {p : Str} {calls : Bool → Contender}
    {schedule : List Bool} (hdone : (run (Race.step serve) (start db p calls) schedule).Done)
    (hover : Overlap schedule) (hc : Collide db p calls) :
    ¬ Serializes db p calls (run (Race.step serve) (start db p calls) schedule) := by
  rcases race_outcome hdone with ⟨-, x, hturn⟩ | ⟨hnot, -⟩
  · exact not_serializes_of_collide hturn hc
  · exact absurd hover hnot

/-- Two transactions on one license have a serial outcome exactly when they do
not both read first and then clash. -/
theorem race_serializes_iff {db : Database F} (hdb : Reachable db) (p : Str)
    (calls : Bool → Contender) {schedule : List Bool}
    (hdone : (run (Race.step serve) (start db p calls) schedule).Done) :
    Serializes db p calls (run (Race.step serve) (start db p calls) schedule) ↔
      ¬ (Overlap schedule ∧ Collide db p calls) := by
  have hlinked := linked_of_reachable hdb
  rcases race_outcome hdone with ⟨hover, x, hturn⟩ | ⟨hover, x, hturn⟩
  · constructor
    · rintro hser ⟨-, hc⟩
      exact not_serializes_of_overlap hdone hover hc hser
    · intro hnot
      exact serializes_of_not_collide hlinked hturn (fun hc => hnot ⟨hover, hc⟩)
  · constructor
    · rintro - ⟨hover', -⟩
      exact hover hover'
    · intro _
      exact serializes_of_inTurn hlinked hturn

end Races

section Acme
attribute [local instance] asciiUnicode mirrorCryptography

/-- The tables after one license was issued. -/
def acmeTables : Database Unit :=
  (run (ledgerSystem Unit).step (Pool.init Database.empty) [.invoke acmeIssue, .step 0]).server

theorem acme_reachable : Reachable acmeTables :=
  ⟨[.invoke acmeIssue, .step 0], by rw [acmeTables]⟩

def acmeRenewal (licenseId hex : String) : Contender :=
  .renew ⟨newYear, ⟨lit hex, lit "t"⟩⟩ (some ())
    { customerId := [], edition := [], licenseId := some (lit licenseId) }

def acmeRenewals (b : Bool) : Contender :=
  if b then acmeRenewal "acme-2" "0b" else acmeRenewal "acme-3" "0c"

/-- A renewal and a revocation of one license. -/
def acmeMixed (b : Bool) : Contender :=
  if b then acmeRenewal "acme-2" "0b" else .revoke newYear none

theorem acme_mixed_serializes :
    Serializes acmeTables (lit "acme-1") acmeMixed
      (run (Race.step serve) (start acmeTables (lit "acme-1") acmeMixed)
        [true, false, true, false]) := by
  have hdone : ∀ b, ((run (Race.step serve) (start acmeTables (lit "acme-1") acmeMixed)
      [true, false, true, false]).proc b).output.isSome = true := by
    decide +kernel
  refine (race_serializes_iff acme_reachable (lit "acme-1") acmeMixed hdone).mpr ?_
  rintro ⟨-, plan, plan', hprep, hprep', hclash⟩
  cases hclash.same_kind hprep hprep'

def acmePlan (b : Bool) : Plan :=
  match ((acmeRenewals b).call (lit "acme-1")).prepare Unit (acmeTables.findLicense (lit "acme-1")) with
  | .ok plan => plan
  | .error _ => .flag [] 0 none

theorem acme_plan (b : Bool) : ((acmeRenewals b).call (lit "acme-1")).prepare Unit
    (acmeTables.findLicense (lit "acme-1")) = .ok (acmePlan b) := by
  revert b
  decide +kernel

theorem acme_clash : Clash acmeTables (acmePlan false) (acmePlan true) := by
  have hfresh : ∀ b, (acmePlan b).fresh acmeTables = true := by decide +kernel
  have hlicenses : (acmePlan false).licenses ≠ (acmePlan true).licenses := by decide +kernel
  have hsecrets : (acmePlan false).secretIds ≠ (acmePlan true).secretIds := by decide +kernel
  have hf := hfresh false
  have hf' := hfresh true
  have hadm := prepare_admitted (acme_plan false)
  have hadm' := prepare_admitted (acme_plan true)
  generalize acmePlan false = plan at *
  generalize acmePlan true = plan' at *
  generalize acmeTables.findLicense (lit "acme-1") = read at *
  cases hadm with
  | renew =>
    cases hadm' with
    | renew =>
      refine .renewals hf hf' ?_ ?_
      · intro heq
        exact hlicenses (congrArg (fun k => [k]) heq)
      · intro heq
        exact hsecrets (congrArg (fun k => [k]) heq)

theorem acme_collide : Collide acmeTables (lit "acme-1") acmeRenewals :=
  collide_of_clash (acme_plan false) (acme_plan true) acme_clash

/-- Both renewals commit, and the license of the one that commits first is left
without a predecessor. -/
theorem acme_renewed_twice :
    ¬ Serializes acmeTables (lit "acme-1") acmeRenewals
      (run (Race.step serve) (start acmeTables (lit "acme-1") acmeRenewals)
        [true, false, true, false]) := by
  have hdone : ∀ b, ((run (Race.step serve) (start acmeTables (lit "acme-1") acmeRenewals)
      [true, false, true, false]).proc b).output.isSome = true := by
    decide +kernel
  exact not_serializes_of_overlap hdone ⟨true, [true, false], rfl⟩ acme_collide

end Acme

end IsaCloud.Fleet
