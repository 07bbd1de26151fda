import IsaCloud.Fleet.IssuedLicense
import IsaCloud.Fleet.LedgerRuns
import IsaCloud.License.Authenticity

/-!
# Expiry at the vendor and in the deployment

`derive_status` of the fleet API reads the expiry from the ledger, `current_status`
from the signed artifact. Both have the same instant, and at that instant they differ:
the vendor counts it as expired, the deployment as in the window.
-/

namespace IsaCloud.Fleet

set_option autoImplicit false

open Support Support.Text Support.Python Support.DateTime Support.IsoTime Support.Encoding Support.Json License

inductive RosterStatus where
  | revoked
  | perpetual
  | expired
  | expiring
  | current
  deriving DecidableEq, Repr

def RosterStatus.value : RosterStatus → Str
  | revoked => lit "revoked"
  | perpetual => lit "perpetual"
  | expired => lit "expired"
  | expiring => lit "expiring"
  | current => lit "current"

/-- `derive_status`; a naive time, of the row or of the caller, is one of UTC. -/
def deriveStatus (row : IssuanceLedger) (expiringWithinDays : Int) (now : Instant) : RosterStatus :=
  if row.revokedAt ≠ none then .revoked
  else
    match row.expiresAt with
    | none => .perpetual
    | some expires =>
      if expires ≤ now then .expired
      else if ((expires : Int) - now) / usPerDay ≤ expiringWithinDays then .expiring
      else .current

section Status
variable {row : IssuanceLedger} (h : row.revokedAt = none) (expiringWithinDays : Int) (now : Instant)
include h

theorem deriveStatus_perpetual_iff :
    deriveStatus row expiringWithinDays now = .perpetual ↔ row.expiresAt = none := by
  rw [deriveStatus, if_neg (not_not.mpr h)]
  cases row.expiresAt with
  | none => simp
  | some e =>
    simp only
    split_ifs <;> simp

theorem deriveStatus_expired_iff :
    deriveStatus row expiringWithinDays now = .expired ↔ ∃ e, row.expiresAt = some e ∧ e ≤ now := by
  rw [deriveStatus, if_neg (not_not.mpr h)]
  cases row.expiresAt with
  | none => simp
  | some e =>
    simp only [Option.some.injEq, exists_eq_left']
    split_ifs with hle hnear
    · simp [hle]
    · simp [hle]
    · simp [hle]

end Status

theorem value_ascii (e : EditionType) : Ascii e.value := by
  have hall : (e.value.all fun c => decide (c.val < 0x80)) = true := by
    cases e <;> decide
  exact fun c hc => of_decide_eq_true (List.all_eq_true.mp hall c hc)

section Issued
variable {F : Type} [PyFloat F] [Cryptography] [Unicode]

/-- The ledger has no expiry where the artifact has none. -/
theorem perpetual_row_iff {ambient : Ambient} {priv : Option Cryptography.PrivateKey} {req : IssuanceRequest}
    {db db' : Database F} {result : IssuanceResult F}
    (h : Session.exec (issue F ambient priv req) db = (db', .ok result)) :
    result.ledgerRow.expiresAt = none ↔ result.license.get (lit "expires_at") = none := by
  obtain ⟨spec, key, -, -, hsign, -, hexp⟩ := issue_ok h
  obtain ⟨bytes, -, hlicense⟩ := signLicense_spec hsign
  rw [hlicense, spec_without, get_append_ne (by decide), (get_optional spec).2, Option.map_eq_none_iff]
  cases hs : spec.expiresAt with
  | none =>
    rw [hs] at hexp
    simp [← Except.ok.inj hexp]
  | some text =>
    have hread : (specInstant text).map some = .ok result.ledgerRow.expiresAt := by
      rw [hs] at hexp
      exact hexp
    obtain ⟨t, -, ht⟩ : ∃ t, specInstant text = .ok t ∧ some t = result.ledgerRow.expiresAt := by
      cases hx : specInstant text with
      | error e =>
        rw [hx] at hread
        cases hread
      | ok t =>
        rw [hx] at hread
        exact ⟨t, rfl, Except.ok.inj hread⟩
    simp [← ht]

/-- The row of an issued license. -/
theorem issued_row {ambient : Ambient} {priv : Option Cryptography.PrivateKey} {req : IssuanceRequest}
    {db db' : Database F} {result : IssuanceResult F}
    (h : Session.exec (issue F ambient priv req) db = (db', .ok result)) :
    db'.findLicense result.ledgerRow.licenseId = some result.ledgerRow := by
  obtain ⟨spec, -, hdraft, hstored⟩ := issue_commits h
  have hwrites : result.writes = (Plan.add result.ledgerRow result.secretRow).writes := rfl
  have hproper : (Plan.add result.ledgerRow result.secretRow).Proper := (drafted_of_draft hdraft).head
  rw [hwrites, Plan.applyWrites_writes hproper] at hstored
  split at hstored
  · rename_i hf
    obtain rfl := Except.ok.inj hstored
    rw [Plan.findLicense_add hf, if_pos rfl]
  · cases hstored

variable [LawfulPyFloat F]

/-- What a deployment loads of an issued license, in whatever layout it is delivered. -/
theorem loaded_of_issue {key : Cryptography.PrivateKey} (hkey : LawfulKey key) {ambient : Ambient}
    {req : IssuanceRequest} {db db' : Database F} {result : IssuanceResult F}
    (hissue : Session.exec (issue F ambient (some key) req) db = (db', .ok result)) {text : Str} {bs : Bytes}
    (htext : Reformats F (compact (.obj result.license)) text) (hbs : utf8Encode text = .ok bs)
    {env : Environment} (hfile : env.licenseFile = some (some bs))
    (hpem : env.publicPem = some (Cryptography.publicPem (Cryptography.publicKey key))) :
    ∃ (obj : Members F) (f : Fields), Loaded env obj f ∧ Signed env obj ∧ f.edition = joinPairs req.edition ∧
      f.expiresAt = result.ledgerRow.expiresAt ∧ f.notBefore = some result.ledgerRow.notBefore ∧
      f.graceDays = req.graceDays := by
  obtain ⟨spec, key', hspec, hsome, hsign, hnb, hexp⟩ := issue_ok hissue
  cases hsome
  obtain ⟨nb, hs⟩ := specified_of_buildSpec hspec
  obtain ⟨obj, hwf, hsorted, hread, hsigned⟩ := delivered hkey hsign htext hbs hpem
  have hget : ∀ k, k ≠ signatureField → obj.get k = (spec.toMembers.get k).map joined :=
    fun k hk => loaded_get hsign hwf hsorted hk
  obtain ⟨-, hedition, -, hgrace, hmodules, hseats⟩ := get_fixed (F := F) spec
  obtain ⟨-, hnotBefore⟩ := loaded_notBefore hsign hwf hsorted hs.notBefore hs.notBefore_lt hnb
  obtain ⟨-, hexpiresAt⟩ := loaded_expiresAt hsign hwf hsorted hs.expiresAt hs.expiresAt_lt hexp
  have hmods : rawModules obj = .arr (spec.entitledModules.map fun s => .str (joinPairs s)) := by
    rw [rawModules, hget _ (by decide), hmodules, Option.map_some, joined, joinedElems_eq_map, List.map_map]
    cases spec.entitledModules with
    | nil => rfl
    | cons m ms => rfl
  obtain ⟨modules, hitems⟩ : ∃ modules, (rawModules obj).strItems = .ok modules := by
    rw [hmods]
    exact ⟨_, rfl⟩
  have hfields : extractFields obj = .ok
      { customerId := strField obj "customer_id"
        edition := strField obj "edition"
        expiresAt := result.ledgerRow.expiresAt
        notBefore := some result.ledgerRow.notBefore
        graceDays := req.graceDays
        seats := spec.seats
        quotaTier := quotaTierField obj
        entitledModules := modules.toFinset } := by
    refine extractFields_iff.mpr ⟨rfl, rfl, hexpiresAt, hnotBefore, ?_, ?_, rfl, modules, hitems, rfl⟩
    · rw [intField, hget _ (by decide), hgrace, hs.graceDays]
      rfl
    · rw [intField, hget _ (by decide), hseats]
      rfl
  refine ⟨obj, _, ⟨some bs, hfile, hread, hfields⟩, hsigned, ?_, rfl, rfl, rfl⟩
  dsimp only
  rw [strField, hget _ (by decide), hedition, hs.edition]
  rfl

/-- The vendor and a deployment mean the same by expired, and by perpetual. -/
structure ExpiryAgrees (row : IssuanceLedger) (c : LicenseConfig) (license : Members F)
    (expiringWithinDays : Int) (now : Instant) : Prop where
  expired : deriveStatus row expiringWithinDays now = .expired ↔
    c.currentStatus now = .ok .grace ∨ c.currentStatus now = .ok .expired
  perpetual : deriveStatus row expiringWithinDays now = .perpetual ↔ license.get (lit "expires_at") = none

omit [LawfulPyFloat F] in
/-- What a deployment of the license's edition makes of the time: it stays with a refusal from
before the start, and follows the clock otherwise. -/
theorem currentStatus_of_issue {env : Environment} {obj : Members F} {f : Fields} {c : LicenseConfig}
    (hloaded : Loaded env obj f) (hsigned : Signed env obj) (hedition : f.edition = env.getEdition.edition.value)
    {nb : Instant} (hnb : f.notBefore = some nb) (hload : fromEnv F env = .ok c) (now : Instant) :
    (c.currentStatus now = .ok .grace ∨ c.currentStatus now = .ok .expired) ↔
      nb ≤ env.now ∧ ∃ e, f.expiresAt = some e ∧ e < now ∧ ∃ g, graceEnd e f.graceDays = .ok g := by
  rw [fromEnv_of_loaded hloaded] at hload
  by_cases hstart : nb ≤ env.now
  · have htrusted : Trusted env obj f := by
      refine ⟨hsigned, hedition, fun x hx => ?_⟩
      rw [hnb] at hx
      exact Option.some.inj hx ▸ hstart
    rw [judge_of_trusted htrusted] at hload
    cases hstatus : deriveTimeStatus f.expiresAt f.graceDays env.now with
    | error e =>
      rw [hstatus] at hload
      cases hload
    | ok status =>
      rw [hstatus] at hload
      obtain rfl := Except.ok.inj hload
      have hcurrent : (f.accepted status).currentStatus now = deriveTimeStatus f.expiresAt f.graceDays now :=
        currentStatus_of_accepted (isAccepted_of_derived hstatus) now
      rw [hcurrent, overrun_iff]
      exact ⟨fun h => ⟨hstart, h⟩, And.right⟩
  · have hrefused : ¬ Trusted env obj f := fun h => hstart (h.started nb hnb)
    rw [judge_of_not_trusted hrefused] at hload
    obtain rfl := Except.ok.inj hload
    have hcurrent : f.invalid.currentStatus now = .ok .invalid := rfl
    rw [hcurrent]
    constructor
    · rintro (h | h) <;> cases h
    · exact fun h => absurd h.1 hstart

/-- Vendor and deployment agree on an unrevoked license at every time but the instant of its
expiry, and past it those where the deployment has no grace period to compare with or was
booted before the license started. -/
theorem expiry_agrees_iff {key : Cryptography.PrivateKey} (hkey : LawfulKey key) {ambient : Ambient}
    {req : IssuanceRequest} {db db' : Database F} {result : IssuanceResult F}
    (hissue : Session.exec (issue F ambient (some key) req) db = (db', .ok result)) {text : Str} {bs : Bytes}
    (htext : Reformats F (compact (.obj result.license)) text) (hbs : utf8Encode text = .ok bs)
    {env : Environment} (hfile : env.licenseFile = some (some bs))
    (hpem : env.publicPem = some (Cryptography.publicPem (Cryptography.publicKey key)))
    (hedition : env.getEdition.edition.value = req.edition) {c : LicenseConfig} (hload : fromEnv F env = .ok c)
    (calls : List LedgerCall) {row : IssuanceLedger}
    (hrow : (run step db' calls).findLicense result.ledgerRow.licenseId = some row) (hrev : row.revokedAt = none)
    (expiringWithinDays : Int) (now : Instant) :
    ExpiryAgrees row c result.license expiringWithinDays now ↔
      ∀ e, result.ledgerRow.expiresAt = some e → now < e ∨
        e < now ∧ result.ledgerRow.notBefore ≤ env.now ∧ ∃ g, graceEnd e req.graceDays = .ok g := by
  obtain ⟨obj, f, hloaded, hsigned, hf, hexpires, hnb, hgrace⟩ := loaded_of_issue hkey hissue htext hbs hfile hpem
  have hsame : f.edition = env.getEdition.edition.value := by
    rw [hf, ← hedition]
    exact joinPairs_of_splitFree (splitFree_of_ascii (value_ascii _))
  have hcurrent := currentStatus_of_issue hloaded hsigned hsame hnb hload now
  rw [hexpires, hgrace] at hcurrent
  obtain ⟨row', hrow', hev⟩ := run_evolves calls (issued_row hissue)
  obtain rfl := Option.some.inj (hrow.symm.trans hrow')
  have hkept : row.expiresAt = result.ledgerRow.expiresAt := by
    rw [hev.fixed]
  have hexpired := deriveStatus_expired_iff hrev expiringWithinDays now
  have hperpetual := deriveStatus_perpetual_iff hrev expiringWithinDays now
  rw [hkept] at hexpired hperpetual
  constructor
  · rintro ⟨hagree, -⟩ e he
    rcases Nat.lt_or_ge now e with hlt | hge
    · exact .inl hlt
    · obtain ⟨hstart, e', he', hlt, hg⟩ := hcurrent.mp (hagree.mp (hexpired.mpr ⟨e, he, hge⟩))
      obtain rfl := Option.some.inj (he.symm.trans he')
      exact .inr ⟨hlt, hstart, hg⟩
  · intro h
    refine ⟨hexpired.trans (Iff.trans ?_ hcurrent.symm), hperpetual.trans (perpetual_row_iff hissue)⟩
    constructor
    · rintro ⟨e, he, hle⟩
      rcases h e he with hlt | ⟨hlt, hstart, hg⟩
      · exact absurd hle (Nat.not_le.mpr hlt)
      · exact ⟨hstart, e, he, hlt, hg⟩
    · rintro ⟨-, e, he, hlt, -⟩
      exact ⟨e, he, Nat.le_of_lt hlt⟩

end Issued

/-! ## The second of the expiry -/

section Acme
attribute [local instance] asciiUnicode mirrorCryptography

def termBody : IssueBody where
  customerId := lit "acme"
  edition := lit "saas"
  expiresAt := some (lit "2026-02-01T00:00:00Z")
  customerId_ne := acme_nonempty
  edition_ne := saas_nonempty
  plain := plain_of_all (by decide)

/-- Midnight of 2026-02-01. -/
def termEnd : Instant := 63905500800000000

theorem termBody_row : (issuedFrom termBody).2.map (fun result => result.ledgerRow) =
    .ok ⟨lit "acme-2026-01-01", lit "acme", lit "saas", [], none, issueTime, issueTime, some termEnd, none, none,
      some (lit "dep-acme-0a"), none, none⟩ := by
  decide +kernel

/-- At the instant of expiry the roster says expired, and the deployment is in its window. -/
theorem expiry_instant_disputed : ∃ result db' c,
    issuedFrom termBody = (db', .ok result) ∧
    fromEnv Unit (deployedAt termBody (issuedContent termBody)) = .ok c ∧
    db'.findLicense result.ledgerRow.licenseId = some result.ledgerRow ∧ result.ledgerRow.revokedAt = none ∧
    result.ledgerRow.notBefore ≤ termEnd ∧ deriveStatus result.ledgerRow 30 termEnd = .expired ∧
    c.currentStatus termEnd = .ok .valid := by
  have hload : fromEnv Unit (deployedAt termBody (issuedContent termBody)) =
      .ok ⟨.valid, lit "acme", lit "saas", some termEnd, 0, ∅, none, -1⟩ := by
    decide +kernel
  obtain ⟨result, hresult, hrow⟩ := exists_of_map_ok termBody_row
  have hissue : issuedFrom termBody = ((issuedFrom termBody).1, .ok result) := by
    rw [← hresult]
  refine ⟨result, _, _, hissue, hload, issued_row hissue, ?_, ?_, ?_, by decide⟩
  · rw [hrow]
  · rw [hrow]
    decide
  · rw [hrow]
    decide

/-- A second later they agree. -/
theorem expiry_agrees_after : ∃ result db' c text bs,
    issuedFrom termBody = (db', .ok result) ∧ LawfulKey () ∧
    Reformats Unit (compact (.obj result.license)) text ∧ utf8Encode text = .ok bs ∧
    fromEnv Unit (deployedAt termBody bs) = .ok c ∧
    ExpiryAgrees result.ledgerRow c result.license 30 (termEnd + usPerSecond) := by
  obtain ⟨result, hresult, hrow⟩ := exists_of_map_ok termBody_row
  have hissue : issuedFrom termBody = ((issuedFrom termBody).1, .ok result) := by
    rw [← hresult]
  obtain ⟨spec, key, -, -, hsign, -, -⟩ := issue_ok hissue
  have hself := reformats_compact (license_admissible spec hsign)
  obtain ⟨bs, hbs⟩ : ∃ bs, utf8Encode (compact (.obj result.license)) = .ok bs :=
    ⟨_, utf8Encode_printable (printable_compact (.obj result.license))⟩
  have hlaw : LawfulKey () := mirror_lawful ()
  have hfile : (deployedAt termBody bs).licenseFile = some (some bs) := rfl
  have hpem : (deployedAt termBody bs).publicPem = some (Cryptography.publicPem (Cryptography.publicKey ())) := rfl
  have hedition : (deployedAt termBody bs).getEdition.edition.value = lit "saas" := by
    have hselected : EditionConfig.selected (deployedAt termBody bs).getenv = .saas := selected_of_value rfl
    show (EditionConfig.selected (deployedAt termBody bs).getenv).value = lit "saas"
    rw [hselected]
    rfl
  have hterm : result.ledgerRow.expiresAt = some termEnd := by rw [hrow]
  have hstart : result.ledgerRow.notBefore ≤ issueTime := by rw [hrow]
  obtain ⟨obj, f, hloaded, hsigned, hf, hexpires, hnb, -⟩ :=
    loaded_of_issue hlaw hissue hself hbs hfile hpem
  have htrusted : Trusted (deployedAt termBody bs) obj f := by
    refine ⟨hsigned, ?_, fun x hx => ?_⟩
    · rw [hf, hedition]
      decide
    rw [hnb] at hx
    exact Option.some.inj hx ▸ hstart
  have hvalid : deriveTimeStatus f.expiresAt f.graceDays issueTime = .ok .valid := by
    rw [hexpires, hterm]
    rfl
  have hload : fromEnv Unit (deployedAt termBody bs) = .ok (f.accepted .valid) := by
    rw [fromEnv_of_loaded hloaded, judge_of_trusted htrusted]
    exact congrArg (Except.map f.accepted) hvalid
  refine ⟨result, _, f.accepted .valid, _, bs, hissue, hlaw, hself, hbs, hload, ?_⟩
  refine (expiry_agrees_iff hlaw hissue hself hbs hfile hpem hedition hload [] (issued_row hissue)
    (by rw [hrow]) 30 _).mpr fun e he => .inr ?_
  obtain rfl := Option.some.inj (hterm.symm.trans he)
  exact ⟨by decide, hstart, termEnd, by decide +kernel⟩

end Acme

end IsaCloud.Fleet
