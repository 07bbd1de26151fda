import IsaCloud.License.Verdicts
import IsaCloud.Quota.Types

/-!
# The quotas a license grants

`TierQuota.from_license` maps the tier named by a license to limits. An
`INVALID` configuration keeps the tier of the file it could not trust, so the
quotas of an untrusted file are those of no file exactly when the tier it names
is not one of the two that raise a limit.
-/

namespace IsaCloud.License

set_option autoImplicit false

open Support Support.Text Support.Python Support.Encoding Quota

/-- `_LICENSE_TIER_QUOTAS`. -/
def licenseTierQuotas : List (Str × TierQuota) :=
  [(lit "free", ⟨lit "free", 10000, 5, 1, 100⟩),
    (lit "pro", ⟨lit "pro", 1000000, 120, 8, 10000⟩)]

/-- The limits of `_LICENSE_MIN_TIER`. -/
def licenseMinTier : TierQuota := ⟨lit "free", 10000, 5, 1, 100⟩

def enterpriseQuota : TierQuota :=
  ⟨lit "enterprise", unlimited, unlimited, unlimited, unlimited⟩

def tierName (rawTier : Option Str) : Str :=
  match rawTier with
  | none => []
  | some t => lower (strip t)

/-- `TierQuota.from_license` of a configuration with this tier. -/
def tierQuotas (rawTier : Option Str) : TierQuota :=
  if tierName rawTier = lit "enterprise" then enterpriseQuota
  else (licenseTierQuotas.lookup (tierName rawTier)).getD licenseMinTier

def fromLicense (lic : LicenseConfig) : TierQuota := tierQuotas lic.quotaTier

/-- The tiers that grant more than the minimum. -/
def raisingTiers : List Str := [lit "enterprise", lit "pro"]

theorem tierQuotas_min {rawTier : Option Str} (h : tierName rawTier ∉ raisingTiers) :
    tierQuotas rawTier = licenseMinTier := by
  simp only [raisingTiers, List.mem_cons, List.not_mem_nil, or_false, not_or] at h
  rw [tierQuotas, if_neg h.1]
  by_cases hfree : tierName rawTier = lit "free"
  · rw [hfree]
    rfl
  · have h1 : (tierName rawTier == lit "free") = false := by simpa using hfree
    have h2 : (tierName rawTier == lit "pro") = false := by simpa using h.2
    simp [licenseTierQuotas, List.lookup_cons, h1, h2]

theorem tierQuotas_raised {rawTier : Option Str} (h : tierName rawTier ∈ raisingTiers) :
    tierQuotas rawTier ≠ licenseMinTier := by
  simp only [raisingTiers, List.mem_cons, List.not_mem_nil, or_false] at h
  rcases h with h | h
  · rw [tierQuotas, if_pos h]
    decide
  · have hne : lit "pro" ≠ lit "enterprise" := by decide
    rw [tierQuotas, h, if_neg hne]
    decide

theorem licenseMinTier_limited (qt : QuotaType) : licenseMinTier.quota qt ≠ unlimited := by
  cases qt <;> decide

theorem fromLicense_unlicensed : fromLicense .unlicensed = licenseMinTier := by
  apply tierQuotas_min
  decide

theorem fromLicense_invalid : fromLicense .invalid = licenseMinTier := by
  apply tierQuotas_min
  decide

section Untrusted
variable {F : Type} [PyFloat F] [Cryptography] [Unicode]

/-- The same environment with `ISA_LICENSE_FILE` unset. -/
def Environment.withoutLicense (env : Environment) : Environment :=
  { env with getenv := fun k => if k = lit "ISA_LICENSE_FILE" then none else env.getenv k }

theorem fromEnv_withoutLicense (env : Environment) :
    fromEnv F env.withoutLicense = .ok .unlicensed := by
  apply fromEnv_of_no_file
  simp [Environment.licenseFile, Environment.withoutLicense]

variable (F) in
/-- An untrusted or missing license gives the quotas of no license at all, none of them unlimited. -/
def NoQuotaFromUntrusted (env : Environment) : Prop :=
  ∀ cfg, fromEnv F env = .ok cfg → cfg.status = .invalid ∨ cfg.status = .unlicensed →
    (∀ qt, (fromLicense cfg).quota qt ≠ unlimited) ∧
    ∃ base, fromEnv F env.withoutLicense = .ok base ∧ fromLicense cfg = fromLicense base

theorem noQuotaFromUntrusted_iff (env : Environment) :
    NoQuotaFromUntrusted F env ↔
      ∀ (obj : Members F) (f : Fields), Loaded env obj f →
        Trusted env obj f ∨ tierName (quotaTierField obj) ∉ raisingTiers := by
  have hbase : ∀ cfg : LicenseConfig, fromLicense cfg = licenseMinTier →
      (∀ qt, (fromLicense cfg).quota qt ≠ unlimited) ∧
        ∃ base, fromEnv F env.withoutLicense = .ok base ∧ fromLicense cfg = fromLicense base := by
    intro cfg h
    refine ⟨fun qt => h ▸ licenseMinTier_limited qt, .unlicensed, fromEnv_withoutLicense env, ?_⟩
    rw [h, fromLicense_unlicensed]
  constructor
  · intro h obj f hloaded
    by_contra hcon
    rw [not_or, not_not] at hcon
    have hret : fromEnv F env = .ok f.invalid := by
      rw [fromEnv_of_loaded hloaded, judge_of_not_trusted hcon.1]
    obtain ⟨-, base, hb, heq⟩ := h f.invalid hret (.inl rfl)
    rw [fromEnv_withoutLicense] at hb
    rw [← Except.ok.inj hb, fromLicense_unlicensed] at heq
    obtain ⟨content, -, -, hfields⟩ := hloaded
    apply tierQuotas_raised hcon.2
    rw [← (extractFields_iff.mp hfields).quotaTier]
    exact heq
  · intro h cfg hcfg hstatus
    rcases fromEnv_cases hcfg with rfl | rfl | ⟨obj, f, hl, ht, rfl⟩ | ⟨obj, f, st, hl, ht, hst, rfl⟩
    · exact hbase _ fromLicense_unlicensed
    · exact hbase _ fromLicense_invalid
    · apply hbase
      obtain ⟨content, -, -, hfields⟩ := id hl
      rcases h obj f hl with htrusted | htier
      · exact absurd htrusted ht
      · rw [fromLicense, Fields.invalid, (extractFields_iff.mp hfields).quotaTier]
        exact tierQuotas_min htier
    · rcases deriveTimeStatus_time hst with rfl | rfl | rfl <;> rcases hstatus with hs | hs <;> cases hs

end Untrusted

section Forged
attribute [local instance] asciiUnicode mirrorCryptography

/-- A deployment whose license file is one unsigned line. -/
def forgedEnvironment : Environment where
  getenv k := if k = lit "ISA_LICENSE_FILE" then some (lit "license.json") else none
  file _ := some (some ((lit "\x7b\"quota_tier\":\"enterprise\"\x7d").flatMap encodePoint))
  now := 0
  resolvedEdition := none
  nesting := 2
  nesting_pos := Environment.least_nesting

theorem forged_tier_unlimited : ¬ NoQuotaFromUntrusted Unit forgedEnvironment := by
  intro h
  have hret : fromEnv Unit forgedEnvironment =
      .ok ⟨.invalid, [], [], none, 0, ∅, some (lit "enterprise"), 0⟩ := by decide +kernel
  have hlimited := (h _ hret (.inl rfl)).1 .tokensPerHour
  exact hlimited (by decide)

end Forged

end IsaCloud.License
