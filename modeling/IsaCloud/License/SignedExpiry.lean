import IsaCloud.License.Aging
import IsaCloud.License.RoundTrip

/-!
# The expiry in a signed license

The signer takes any text for `expires_at`, and the loader takes a text that is no timestamp
for no expiry. A signed expiry is enforced if it is a timestamp, and otherwise only where the
license grants nothing for another reason.
-/

namespace IsaCloud.License

set_option autoImplicit false

open Support Support.Text Support.Python Support.DateTime Support.IsoTime Support.Encoding Support.Base64
  Support.Json

/-- The two statuses that let a deployment run. -/
def LicenseStatus.Runs : LicenseStatus → Prop
  | valid | grace => True
  | expired | invalid | unlicensed => False

theorem deriveTimeStatus_ends (e : Instant) (graceDays : Int) : ∃ last, ∀ t, last < t →
    ∀ status, deriveTimeStatus (some e) graceDays t = .ok status → ¬ status.Runs := by
  cases hg : graceEnd e graceDays with
  | error err =>
    refine ⟨e, fun t ht status h => ?_⟩
    rw [deriveTimeStatus, if_neg (Nat.not_le.mpr ht), hg] at h
    cases h
  | ok g =>
    refine ⟨max e g, fun t ht status h => ?_⟩
    have he : e < t := Nat.lt_of_le_of_lt (Nat.le_max_left e g) ht
    have hgt : g < t := Nat.lt_of_le_of_lt (Nat.le_max_right e g) ht
    rw [deriveTimeStatus, if_neg (Nat.not_le.mpr he), hg] at h
    simp only [if_neg (Nat.not_le.mpr hgt)] at h
    cases h
    exact id

theorem not_runs_invalid (c : LicenseConfig) (h : c.status = .invalid ∨ c.status = .unlicensed) (t : Instant) :
    ¬ c.status.Runs ∧ ∀ status, c.currentStatus t = .ok status → ¬ status.Runs := by
  have hterminal : LicenseConfig.isTerminal c.status = true := decide_eq_true h
  have hruns : ¬ c.status.Runs := by
    rcases h with h | h <;> rw [h] <;> exact id
  refine ⟨hruns, fun status hstatus => ?_⟩
  rw [LicenseConfig.currentStatus, if_pos hterminal] at hstatus
  exact Except.ok.inj hstatus ▸ hruns

section Enforced
variable {F : Type} [PyFloat F] [Cryptography] [Unicode]

variable (F) in
/-- At time `t` neither a process that starts nor one that was ever started may run on the license. -/
structure Lapsed (env : Environment) (t : Instant) : Prop where
  reload : ∀ c, fromEnv F (env.at t) = .ok c → ¬ c.status.Runs
  running : ∀ boot c status, fromEnv F (env.at boot) = .ok c → c.currentStatus t = .ok status → ¬ status.Runs

variable (F) in
/-- From some time on the license grants nothing. -/
def Enforced (env : Environment) : Prop := ∃ last, ∀ t, last < t → Lapsed F env t

variable {env : Environment} {obj : Members F} {f : Fields}

/-- A license that the loader never trusts, or whose window is over, has lapsed. -/
theorem lapsed_of_loaded (hloaded : Loaded env obj f) {t : Instant}
    (hover : (∃ boot, Trusted (env.at boot) obj f) →
      ∀ status, deriveTimeStatus f.expiresAt f.graceDays t = .ok status → ¬ status.Runs) :
    Lapsed F env t := by
  constructor
  · intro c hc
    rcases fromEnv_cases hc with rfl | rfl | ⟨obj', f', -, -, rfl⟩ | ⟨obj', f', status, hl, htrusted, hstatus, rfl⟩
    · exact id
    · exact id
    · exact id
    · obtain ⟨rfl, rfl⟩ := loaded_unique (loaded_at hloaded t) hl
      exact hover ⟨t, htrusted⟩ status hstatus
  · intro boot c status hc hstatus
    rcases fromEnv_cases hc with rfl | rfl | ⟨obj', f', -, -, rfl⟩ | ⟨obj', f', st, hl, htrusted, hst, rfl⟩
    · exact (not_runs_invalid _ (.inr rfl) t).2 status hstatus
    · exact (not_runs_invalid _ (.inl rfl) t).2 status hstatus
    · exact (not_runs_invalid _ (.inl rfl) t).2 status hstatus
    · obtain ⟨rfl, rfl⟩ := loaded_unique (loaded_at hloaded boot) hl
      rw [currentStatus_of_accepted (isAccepted_of_derived hst) t] at hstatus
      exact hover ⟨boot, htrusted⟩ status hstatus

/-- Nothing runs on a file whose fields cannot be extracted. -/
theorem lapsed_of_unextracted {content : Option Bytes} (hfile : env.licenseFile = some content)
    (hread : readLicense F env.nesting content = .ok obj) (h : ∀ f, extractFields obj ≠ .ok f) (t : Instant) :
    Lapsed F env t := by
  have hraises : ∀ boot c, fromEnv F (env.at boot) ≠ .ok c := by
    intro boot c hc
    have hfile' : (env.at boot).licenseFile = some content := hfile
    have hread' : readLicense F (env.at boot).nesting content = .ok obj := hread
    simp only [fromEnv, hfile', hread'] at hc
    cases hfields : extractFields obj with
    | ok f => exact h f hfields
    | error e =>
      rw [hfields] at hc
      cases hc
  exact ⟨fun c hc => absurd hc (hraises t c), fun boot c _ hc => absurd hc (hraises boot c)⟩

/-- A trusted license without an expiry is valid at every time from then on. -/
theorem not_enforced_of_perpetual (hloaded : Loaded env obj f) (hexpires : f.expiresAt = none)
    (start : Instant) (htrusted : ∀ t, start ≤ t → Trusted (env.at t) obj f) : ¬ Enforced F env := by
  rintro ⟨last, h⟩
  have htrust := htrusted (max start (last + 1)) (Nat.le_max_left _ _)
  have hload := fromEnv_of_loaded (loaded_at hloaded (max start (last + 1)))
  rw [judge_of_trusted htrust, hexpires] at hload
  have hlater : last < max start (last + 1) := Nat.lt_of_lt_of_le (Nat.lt_succ_self last) (Nat.le_max_right _ _)
  exact (h _ hlater).reload _ hload trivial

end Enforced

/-! ## A date with slashes -/

section Slashes
attribute [local instance] asciiUnicode mirrorCryptography

/-- `sign --customer-id acme --edition on-prem-lite --expires-at …`. -/
def expiryArgs (expiresAt : Str) : Signer.Args where
  spec := none
  licenseId := none
  customerId := some (lit "acme")
  edition := some (lit "on-prem-lite")
  entitledModules := none
  quotaTier := none
  seats := none
  notBefore := none
  expiresAt := some expiresAt
  graceDays := none
  seats_fits := Signer.unset_fits
  graceDays_fits := Signer.unset_fits

def expirySpec (expiresAt : Str) : Members Unit :=
  [(lit "customer_id", .str (lit "acme")), (lit "edition", .str (lit "on-prem-lite")),
    (lit "expires_at", .str expiresAt), (lit "issued_at", .str (isoText 0)), (lit "not_before", .str (isoText 0)),
    (lit "grace_days", .int 0), (lit "seats", .int (-1)), (lit "entitled_modules", .arr []),
    (lit "license_id", .str (lit "acme-" ++ (isoText 0).take 10))]

def expiryLicense (expiresAt : Str) : Members Unit :=
  expirySpec expiresAt ++ [(signatureField, .str (b64encode (0 :: writeJson (sorted (.obj (expirySpec expiresAt))))))]

/-- A deployment of the edition with that license. -/
def expiryEnvironment (expiresAt : Str) : Environment :=
  { licensedEnvironment .null with file := fun _ => some (some (writeJson (.obj (expiryLicense expiresAt)))) }

theorem expiryLicense_bounded {text : Str} (htext : splitFree text = true) :
    Bounded 2 (.obj (expiryLicense text)) := by
  have hsig : ∀ bs, splitFree (b64encode bs) = true := fun bs =>
    splitFree_of_plain (b64encode_plain bs)
  have hkeys : Members.keys (expiryLicense text) = [lit "customer_id", lit "edition", lit "expires_at",
      lit "issued_at", lit "not_before", lit "grace_days", lit "seats", lit "entitled_modules",
      lit "license_id", signatureField] := rfl
  refine bounded_obj.mpr ⟨hkeys ▸ by decide, fun kv hkv => ⟨?_, ?_⟩⟩
  · have hfree : ∀ k ∈ Members.keys (expiryLicense text), splitFree k = true := by
      rw [hkeys]
      decide
    exact hfree kv.1 (List.mem_map_of_mem hkv)
  · simp only [expiryLicense, expirySpec, List.cons_append, List.nil_append, List.mem_cons, List.not_mem_nil,
      or_false] at hkv
    have hday : splitFree (isoText 0) = true := by decide
    rcases hkv with rfl | rfl | rfl | rfl | rfl | rfl | rfl | rfl | rfl | rfl
    · exact ⟨by simp only [WF]; decide, Nat.zero_le 1⟩
    · exact ⟨by simp only [WF]; decide, Nat.zero_le 1⟩
    · exact ⟨htext, Nat.zero_le 1⟩
    · exact ⟨hday, Nat.zero_le 1⟩
    · exact ⟨hday, Nat.zero_le 1⟩
    · exact ⟨by simp only [WF]; decide, Nat.zero_le 1⟩
    · exact ⟨by simp only [WF]; decide +kernel, Nat.zero_le 1⟩
    · exact ⟨trivial, Nat.le_refl 1⟩
    · exact ⟨by simp only [WF]; decide +kernel, Nat.zero_le 1⟩
    · exact ⟨hsig _, Nat.zero_le 1⟩

theorem expiryLicense_read {text : Str} (htext : splitFree text = true) :
    readLicense Unit (expiryEnvironment text).nesting (some (writeJson (.obj (expiryLicense text)))) =
      .ok (expiryLicense text) :=
  readLicense_writeJson (expiryLicense_bounded htext)

theorem expiry_signed {text : Str} (h : signatureVerifies (lit "PEM") (.str (b64encode
    (0 :: writeJson (sorted (.obj (expirySpec text)))))) (expiryLicense text) = true) :
    Signed (expiryEnvironment text) (expiryLicense text) := by
  refine ⟨_, lit "PEM", rfl, rfl, ?_, by decide, h⟩
  cases text <;> rfl

/-- What happens to an expiry on its way from the flags of the tool into a deployment. -/
structure Delivered (text : Str) : Prop where
  built : Signer.buildSpec Unit (fun _ => none) 0 2 (expiryArgs text) = .ok (expirySpec text)
  signs : signLicense (expirySpec text) () = .ok (expiryLicense text)
  read : readLicense Unit (expiryEnvironment text).nesting (some (writeJson (.obj (expiryLicense text)))) =
    .ok (expiryLicense text)
  signed : Signed (expiryEnvironment text) (expiryLicense text)

theorem slashed_delivered : Delivered (lit "2027/06/08") :=
  ⟨rfl, rfl, expiryLicense_read (by decide), expiry_signed (by decide +kernel)⟩

theorem dashed_delivered : Delivered (lit "2027-06-08") :=
  ⟨rfl, rfl, expiryLicense_read (by decide), expiry_signed (by decide +kernel)⟩

end Slashes

end IsaCloud.License
