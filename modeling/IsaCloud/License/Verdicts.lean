import IsaCloud.License.Config

/-!
# What the loader can return

Every outcome of `from_env`, said once: no file, an unreadable file, an object
that is not trusted, an object that is. `Trusted` is the condition on the inputs
that separates the last two; the results about quotas and authenticity are read
off these lemmas.
-/

namespace IsaCloud.License

set_option autoImplicit false

open Support Support.Text Support.Python Support.DateTime Support.Encoding

/-- The status of a trusted license is one of the three that time decides. -/
theorem deriveTimeStatus_time {expiresAt : Option Instant} {graceDays : Int} {now : Instant}
    {status : LicenseStatus} (h : deriveTimeStatus expiresAt graceDays now = .ok status) :
    status = .valid ∨ status = .grace ∨ status = .expired := by
  unfold deriveTimeStatus at h
  split at h
  · exact .inl (Except.ok.inj h).symm
  · split at h
    · exact .inl (Except.ok.inj h).symm
    · split at h
      · cases h
      · have hs := Except.ok.inj h
        split at hs
        · exact .inr (.inl hs.symm)
        · exact .inr (.inr hs.symm)

/-- Valid means not past the expiry, if there is one. -/
theorem deriveTimeStatus_valid_iff {expiresAt : Option Instant} {graceDays : Int} {now : Instant} :
    deriveTimeStatus expiresAt graceDays now = .ok .valid ↔
      ∀ e, expiresAt = some e → now ≤ e := by
  cases expiresAt with
  | none => exact ⟨fun _ e he => (nomatch he), fun _ => rfl⟩
  | some e =>
    rw [deriveTimeStatus]
    by_cases h : now ≤ e
    · rw [if_pos h]
      refine ⟨fun _ e' he' => ?_, fun _ => rfl⟩
      rw [← Option.some.inj he']
      exact h
    · rw [if_neg h]
      refine ⟨fun hv => ?_, fun hall => absurd (hall e rfl) h⟩
      split at hv
      · cases hv
      · split at hv <;> cases hv

/-- Past the expiry, as far as the end of the grace period is a date. -/
theorem overrun_iff {expiresAt : Option Instant} {graceDays : Int} {now : Instant} :
    (deriveTimeStatus expiresAt graceDays now = .ok .grace ∨
      deriveTimeStatus expiresAt graceDays now = .ok .expired) ↔
    ∃ e, expiresAt = some e ∧ e < now ∧ ∃ g, graceEnd e graceDays = .ok g := by
  cases expiresAt with
  | none => simp [deriveTimeStatus]
  | some e =>
    simp only [deriveTimeStatus, Option.some.injEq, exists_eq_left']
    split_ifs with hle
    · simp [hle]
    · rw [not_le] at hle
      cases graceEnd e graceDays with
      | error err => simp
      | ok g =>
        simp only [Except.ok.injEq, exists_eq', and_true, hle, iff_true]
        split_ifs
        · exact .inl rfl
        · exact .inr rfl

/-- The status exists unless the end of the grace window is needed and is no datetime. -/
theorem deriveTimeStatus_ok_iff {expiresAt : Option Instant} {graceDays : Int} {now : Instant} :
    (∃ status, deriveTimeStatus expiresAt graceDays now = .ok status) ↔
      ∀ e, expiresAt = some e → e < now → ∃ g, graceEnd e graceDays = .ok g := by
  cases expiresAt with
  | none => exact ⟨fun _ e he => (nomatch he), fun _ => ⟨.valid, rfl⟩⟩
  | some e =>
    rw [deriveTimeStatus]
    by_cases hle : now ≤ e
    · rw [if_pos hle]
      refine ⟨fun _ e' he' hlt => ?_, fun _ => ⟨.valid, rfl⟩⟩
      cases he'
      exact absurd hle (Nat.not_le.mpr hlt)
    · rw [if_neg hle]
      constructor
      · rintro ⟨status, hstatus⟩ e' he' -
        cases he'
        cases hg : graceEnd e graceDays with
        | error err =>
          rw [hg] at hstatus
          cases hstatus
        | ok g => exact ⟨g, rfl⟩
      · intro h
        obtain ⟨g, hg⟩ := h e rfl (Nat.not_le.mp hle)
        rw [hg]
        exact ⟨_, rfl⟩

section Fields
variable {F : Type} [PyFloat F] [Unicode]

/-- Which part of the object each field comes from. -/
structure Extracted (obj : Members F) (f : Fields) : Prop where
  customerId : f.customerId = strField obj "customer_id"
  edition : f.edition = strField obj "edition"
  expiresAt : parseTs (obj.get (lit "expires_at")) = .ok f.expiresAt
  notBefore : parseTs (obj.get (lit "not_before")) = .ok f.notBefore
  graceDays : intField obj "grace_days" = .ok f.graceDays
  seats : intField obj "seats" = .ok f.seats
  quotaTier : f.quotaTier = quotaTierField obj
  entitledModules : ∃ modules, (rawModules obj).strItems = .ok modules ∧
    f.entitledModules = modules.toFinset

theorem extractFields_iff {obj : Members F} {f : Fields} :
    extractFields obj = .ok f ↔ Extracted obj f := by
  constructor
  · intro h
    unfold extractFields at h
    split at h
    · cases h
    · rename_i expiresAt hexp
      split at h
      · cases h
      · rename_i notBefore hnb
        split at h
        · cases h
        · rename_i graceDays hgrace
          split at h
          · cases h
          · rename_i seats hseats
            split at h
            · cases h
            · rename_i modules hmod
              cases h
              exact ⟨rfl, rfl, hexp, hnb, hgrace, hseats, rfl, modules, hmod, rfl⟩
  · rintro ⟨h1, h2, h3, h4, h5, h6, h7, modules, hmod, h8⟩
    simp only [extractFields, h3, h4, h5, h6, hmod]
    rw [← h1, ← h2, ← h7, ← h8]

end Fields

section Judge
variable {F : Type} [PyFloat F] [Cryptography]

/-- The signature verifies over the body of the object under the deployed key. -/
def Signed (env : Environment) (obj : Members F) : Prop :=
  ∃ signature pem, obj.get signatureField = some signature ∧ env.publicPem = some pem ∧
    signature.truthy = true ∧ pem ≠ [] ∧ signatureVerifies pem signature obj = true

structure Trusted (env : Environment) (obj : Members F) (f : Fields) : Prop where
  signed : Signed env obj
  edition : f.edition = env.getEdition.edition.value
  started : ∀ nb, f.notBefore = some nb → nb ≤ env.now

theorem judge_of_trusted {env : Environment} {obj : Members F} {f : Fields}
    (h : Trusted env obj f) :
    judge env obj f = (deriveTimeStatus f.expiresAt f.graceDays env.now).map f.accepted := by
  obtain ⟨signature, pem, hsig, hpem, htruthy, hne, hverify⟩ := h.signed
  have hstarted : ¬ ∃ nb, f.notBefore = some nb ∧ env.now < nb := by
    rintro ⟨nb, hnb, hlt⟩
    exact absurd (h.started nb hnb) (not_le.mpr hlt)
  have hguard : ¬ (signature.truthy = false ∨ pem = []) := by
    rintro (hf | hp)
    · rw [htruthy] at hf
      cases hf
    · exact hne hp
  simp only [judge, hsig, hpem]
  rw [if_neg hguard, if_neg (by simp [hverify]), if_neg (by simp [h.edition]), if_neg hstarted]
  cases deriveTimeStatus f.expiresAt f.graceDays env.now <;> rfl

theorem judge_of_not_trusted {env : Environment} {obj : Members F} {f : Fields}
    (h : ¬ Trusted env obj f) : judge env obj f = .ok f.invalid := by
  unfold judge
  split
  · rename_i signature pem hsig hpem
    split_ifs with h1 h2 h3 h4
    · rfl
    · rfl
    · rfl
    · rfl
    · exfalso
      apply h
      rw [not_or] at h1
      refine ⟨⟨signature, pem, hsig, hpem, ?_, h1.2, ?_⟩, not_not.mp h3, ?_⟩
      · simpa using h1.1
      · simpa using h2
      · intro nb hnb
        by_contra hlt
        exact h4 ⟨nb, hnb, not_le.mp hlt⟩
  · rfl

end Judge

section Loader
variable {F : Type} [PyFloat F] [Cryptography] [Unicode]

/-- The object that the loader reads, with its fields. -/
def Loaded (env : Environment) (obj : Members F) (f : Fields) : Prop :=
  ∃ content, env.licenseFile = some content ∧ readLicense F env.nesting content = .ok obj ∧
    extractFields obj = .ok f

theorem fromEnv_of_loaded {env : Environment} {obj : Members F} {f : Fields}
    (h : Loaded env obj f) : fromEnv F env = judge env obj f := by
  obtain ⟨content, hfile, hread, hfields⟩ := h
  simp only [fromEnv, hfile, hread, hfields]

theorem fromEnv_of_no_file {env : Environment} (h : env.licenseFile = none) :
    fromEnv F env = .ok .unlicensed := by
  simp only [fromEnv, h]

/-- Everything `from_env` can return. -/
theorem fromEnv_cases {env : Environment} {cfg : LicenseConfig} (h : fromEnv F env = .ok cfg) :
    cfg = .unlicensed ∨ cfg = .invalid ∨
    (∃ (obj : Members F) (f : Fields), Loaded env obj f ∧ ¬ Trusted env obj f ∧ cfg = f.invalid) ∨
    (∃ (obj : Members F) (f : Fields) (status : LicenseStatus), Loaded env obj f ∧
      Trusted env obj f ∧ deriveTimeStatus f.expiresAt f.graceDays env.now = .ok status ∧
      cfg = f.accepted status) := by
  unfold fromEnv at h
  split at h
  · exact .inl (Except.ok.inj h).symm
  · rename_i content hfile
    split at h
    · split at h
      · exact .inr (.inl (Except.ok.inj h).symm)
      · cases h
    · rename_i obj hread
      split at h
      · cases h
      · rename_i f hfields
        have hloaded : Loaded env obj f := ⟨content, hfile, hread, hfields⟩
        by_cases ht : Trusted env obj f
        · rw [judge_of_trusted ht] at h
          cases hstatus : deriveTimeStatus f.expiresAt f.graceDays env.now with
          | error e =>
            rw [hstatus] at h
            cases h
          | ok status =>
            rw [hstatus] at h
            exact .inr (.inr (.inr ⟨obj, f, status, hloaded, ht, hstatus, (Except.ok.inj h).symm⟩))
        · rw [judge_of_not_trusted ht] at h
          exact .inr (.inr (.inl ⟨obj, f, hloaded, ht, (Except.ok.inj h).symm⟩))

end Loader

end IsaCloud.License
