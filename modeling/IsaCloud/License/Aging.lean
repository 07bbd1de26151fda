import IsaCloud.License.Authenticity

/-!
# A license over time

The per-request status skips the signature, the edition and the start of the
window. It agrees with a full reload at any later time: what the loader checked
once does not change, the start stays in the past, and the frozen fields give the
same window.
-/

namespace IsaCloud.License

set_option autoImplicit false

open Support Support.Text Support.Python Support.DateTime Support.IsoTime

/-- How far a license has run down. -/
def LicenseStatus.stage : LicenseStatus → Nat
  | valid => 0
  | grace => 1
  | expired => 2
  | invalid => 3
  | unlicensed => 4

/-- The same deployment at another time. -/
def Environment.at (env : Environment) (now : Instant) : Environment := { env with now := now }

/-- `expires_at + grace_days` is a datetime. -/
def Representable (expiresAt : Option Instant) (graceDays : Int) : Prop :=
  ∀ e, expiresAt = some e → ∃ g, graceEnd e graceDays = .ok g

variable {expiresAt : Option Instant} {graceDays : Int}

theorem deriveTimeStatus_total (h : Representable expiresAt graceDays) (now : Instant) :
    ∃ status, deriveTimeStatus expiresAt graceDays now = .ok status :=
  deriveTimeStatus_ok_iff.mpr fun e he _ => h e he

theorem deriveTimeStatus_mono {t t' : Instant} (ht : t ≤ t') {s s' : LicenseStatus}
    (h : deriveTimeStatus expiresAt graceDays t = .ok s)
    (h' : deriveTimeStatus expiresAt graceDays t' = .ok s') : s.stage ≤ s'.stage := by
  cases expiresAt with
  | none =>
    cases h
    cases h'
    exact Nat.le_refl 0
  | some e =>
    rw [deriveTimeStatus] at h h'
    by_cases hv : t ≤ e
    · rw [if_pos hv] at h
      cases h
      exact Nat.zero_le _
    · have hv' : ¬ t' ≤ e := fun hle => hv (Nat.le_trans ht hle)
      rw [if_neg hv] at h
      rw [if_neg hv'] at h'
      cases hg : graceEnd e graceDays with
      | error err =>
        rw [hg] at h
        cases h
      | ok g =>
        rw [hg] at h h'
        by_cases hgr : t ≤ g
        · simp only [if_pos hgr] at h
          cases h
          rw [← Except.ok.inj h']
          split
          · exact Nat.le_refl 1
          · exact Nat.le_succ 1
        · have hgr' : ¬ t' ≤ g := fun hle => hgr (Nat.le_trans ht hle)
          simp only [if_neg hgr] at h
          simp only [if_neg hgr'] at h'
          cases h
          cases h'
          exact Nat.le_refl 2

section Reload
variable {F : Type} [PyFloat F] [Cryptography] [Unicode]

omit [Cryptography] in
theorem loaded_at {env : Environment} {obj : Members F} {f : Fields} (h : Loaded env obj f)
    (now : Instant) : Loaded (env.at now) obj f := h

omit [Unicode] in
/-- A trusted object stays trusted. -/
theorem Trusted.later {env : Environment} {obj : Members F} {f : Fields} (h : Trusted env obj f)
    {now : Instant} (hnow : env.now ≤ now) : Trusted (env.at now) obj f :=
  ⟨h.signed, h.edition, fun nb hnb => Nat.le_trans (h.started nb hnb) hnow⟩

end Reload

section Acme
attribute [local instance] asciiUnicode mirrorCryptography

end Acme

end IsaCloud.License
