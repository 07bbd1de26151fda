import IsaCloud.License.Verdicts
import IsaCloud.Support.JsonErrors

/-!
# When the loader raises

`from_env` is meant to return a configuration for any file. The guards around its
parts catch `ValueError`, `TypeError` and `OSError` where their authors expected
them; this module says for every file, key and clock which values get past them.
-/

namespace IsaCloud.License

set_option autoImplicit false

open Support Support.Text Support.Python Support.DateTime Support.IsoTime Support.Encoding
  Support.Json

section Fields
variable {F : Type} [PyFloat F]

/-- Nothing, or text whose datetime, if it is one, exists in UTC. -/
def TimestampTaken (value : Option (Json F)) : Prop :=
  ∀ v, value = some v → v.truthy = true →
    ∃ s, v = .str s ∧ ∀ d, fromisoformat (spellZulu (strip s)) = .ok d → ∃ t, toUtc d = .ok t

/-- No float that `int` overflows on. -/
def NumberTaken (value : Option (Json F)) : Prop :=
  ∀ x e, value = some (.float x) → PyFloat.trunc x = .error e →
    e.kind = .typeError ∨ e.kind.isValueError = true

/-- Nothing, or something to iterate over. -/
def ModulesTaken (value : Option (Json F)) : Prop :=
  ∀ v, value = some v → v.truthy = true →
    (∃ s, v = .str s) ∨ (∃ xs, v = .arr xs) ∨ ∃ m, v = .obj m

structure Digestible (obj : Members F) : Prop where
  expiresAt : TimestampTaken (obj.get (lit "expires_at"))
  notBefore : TimestampTaken (obj.get (lit "not_before"))
  graceDays : NumberTaken (obj.get (lit "grace_days"))
  seats : NumberTaken (obj.get (lit "seats"))
  modules : ModulesTaken (obj.get (lit "entitled_modules"))

theorem parseTs_ok_iff (value : Option (Json F)) :
    (∃ t, parseTs value = .ok t) ↔ TimestampTaken value := by
  cases value with
  | none => exact ⟨fun _ v hv => (nomatch hv), fun _ => ⟨none, rfl⟩⟩
  | some j =>
    by_cases htruthy : j.truthy = true
    · have hne : ¬ j.truthy = false := by simp [htruthy]
      simp only [parseTs, if_neg hne]
      constructor
      · rintro ⟨t, ht⟩ v hv -
        cases hv
        cases j with
        | str s =>
          refine ⟨s, rfl, fun d hd => ?_⟩
          simp only [hd] at ht
          split at ht
          · rename_i u hu
            exact ⟨u, hu⟩
          · cases ht
        | null | bool | int | float | arr | obj => cases ht
      · intro h
        obtain ⟨s, rfl, hutc⟩ := h j rfl htruthy
        dsimp only
        cases hd : fromisoformat (spellZulu (strip s)) with
        | error e =>
          simp only [fromisoformat_error hd, if_true]
          exact ⟨none, rfl⟩
        | ok d =>
          obtain ⟨t, ht⟩ := hutc d hd
          simp only [ht]
          exact ⟨some t, rfl⟩
    · refine ⟨fun _ v hv hv' => ?_, fun _ => ⟨none, ?_⟩⟩
      · cases hv
        exact absurd hv' htruthy
      · have hfalse : j.truthy = false := by simpa using htruthy
        simp only [parseTs, hfalse, if_true]

variable [Unicode]

omit [PyFloat F] in
theorem intOfStr_error {s : Str} {e : PyError} (h : intOfStr s = .error e) :
    e.kind.isValueError = true := by
  unfold intOfStr at h
  split at h
  · cases h
    rfl
  · split at h
    · cases h
      rfl
    · cases h

/-- Only floats have an `int` that fails with anything the guard does not catch. -/
theorem pyInt_error {j : Json F} {e : PyError} (h : j.pyInt = .error e) :
    (e.kind = .typeError ∨ e.kind.isValueError = true) ∨
      ∃ x, j = .float x ∧ PyFloat.trunc x = .error e := by
  cases j with
  | float x => exact .inr ⟨x, rfl, h⟩
  | str s => exact .inl (.inr (intOfStr_error h))
  | bool | int => cases h
  | null | arr | obj =>
    cases h
    exact .inl (.inl rfl)

theorem intField_ok_iff (obj : Members F) (key : String) :
    (∃ n, intField obj key = .ok n) ↔ NumberTaken (obj.get (lit key)) := by
  unfold intField
  constructor
  · rintro ⟨n, hn⟩ x e hx he
    rw [hx, Option.getD_some, pyInt, he] at hn
    dsimp only at hn
    split at hn
    · assumption
    · cases hn
  · intro h
    cases hp : ((obj.get (lit key)).getD (.int 0)).pyInt with
    | ok n => exact ⟨n, rfl⟩
    | error e =>
      have hcaught : e.kind = .typeError ∨ e.kind.isValueError = true := by
        rcases pyInt_error hp with hcaught | ⟨x, hx, he⟩
        · exact hcaught
        · cases hget : obj.get (lit key) with
          | none =>
            rw [hget] at hx
            cases hx
          | some v =>
            rw [hget, Option.getD_some] at hx
            exact h x e (by rw [hget, hx]) he
      exact ⟨0, by simp only [hcaught, if_true]⟩

theorem strItems_ok_iff (obj : Members F) :
    (∃ modules, (rawModules obj).strItems = .ok modules) ↔
      ModulesTaken (obj.get (lit "entitled_modules")) := by
  unfold rawModules
  cases hv : obj.get (lit "entitled_modules") with
  | none => exact ⟨fun _ v hv => (nomatch hv), fun _ => ⟨[], rfl⟩⟩
  | some v =>
    by_cases htruthy : v.truthy = true
    · simp only [htruthy, if_true]
      constructor
      · rintro ⟨modules, hm⟩ v' hv' -
        cases hv'
        cases v with
        | str s => exact .inl ⟨s, rfl⟩
        | arr xs => exact .inr (.inl ⟨xs, rfl⟩)
        | obj m => exact .inr (.inr ⟨m, rfl⟩)
        | null | bool | int | float => cases hm
      · intro h
        rcases h v rfl htruthy with ⟨s, rfl⟩ | ⟨xs, rfl⟩ | ⟨m, rfl⟩
        · exact ⟨_, rfl⟩
        · exact ⟨_, rfl⟩
        · exact ⟨_, rfl⟩
    · simp only [htruthy, Bool.false_eq_true, if_false]
      refine ⟨fun _ v' hv' hv'' => ?_, fun _ => ⟨[], rfl⟩⟩
      cases hv'
      exact absurd hv'' htruthy

theorem extractFields_ok_iff (obj : Members F) :
    (∃ f, extractFields obj = .ok f) ↔ Digestible obj := by
  constructor
  · rintro ⟨f, hf⟩
    have hex := extractFields_iff.mp hf
    obtain ⟨modules, hm, -⟩ := hex.entitledModules
    exact ⟨(parseTs_ok_iff _).mp ⟨_, hex.expiresAt⟩, (parseTs_ok_iff _).mp ⟨_, hex.notBefore⟩,
      (intField_ok_iff obj "grace_days").mp ⟨_, hex.graceDays⟩,
      (intField_ok_iff obj "seats").mp ⟨_, hex.seats⟩, (strItems_ok_iff obj).mp ⟨modules, hm⟩⟩
  · rintro ⟨hexp, hnb, hgrace, hseats, hmodules⟩
    obtain ⟨expiresAt, hexp⟩ := (parseTs_ok_iff _).mpr hexp
    obtain ⟨notBefore, hnb⟩ := (parseTs_ok_iff _).mpr hnb
    obtain ⟨graceDays, hgrace⟩ := (intField_ok_iff obj "grace_days").mpr hgrace
    obtain ⟨seats, hseats⟩ := (intField_ok_iff obj "seats").mpr hseats
    obtain ⟨modules, hm⟩ := (strItems_ok_iff obj).mpr hmodules
    refine ⟨⟨strField obj "customer_id", strField obj "edition", expiresAt, notBefore, graceDays,
      seats, quotaTierField obj, modules.toFinset⟩, extractFields_iff.mpr ?_⟩
    exact ⟨rfl, rfl, hexp, hnb, hgrace, hseats, rfl, modules, hm, rfl⟩

end Fields

section Loader
variable {F : Type} [PyFloat F]

/-- The reader's errors are caught, save for a document that exhausts the stack. -/
theorem readLicense_error {nesting : Nat} {content : Option Bytes} {e : PyError}
    (h : readLicense F nesting content = .error e) :
    (e.kind = .osError ∨ e.kind.isValueError = true) ∨ e = recursionError := by
  unfold readLicense at h
  split at h
  · cases h
    exact .inl (.inl rfl)
  · split at h
    · rename_i ht
      cases h
      exact .inl (.inr (readText_error ht))
    · split at h
      · rename_i hl
        cases h
        rcases (loads_error hl).isValueError with hv | hr
        · exact .inl (.inr hv)
        · exact .inr hr
      · cases h
      · cases h
        exact .inl (.inr rfl)

variable [Cryptography] [Unicode]

variable (F) in
/-- The document does not exhaust the stack, its fields can be taken, and if it is
trusted and past its expiry, the end of its grace window is a datetime. -/
def Tolerated (env : Environment) : Prop :=
  ∀ content, env.licenseFile = some content →
    readLicense F env.nesting content ≠ .error recursionError ∧
    ∀ obj, readLicense F env.nesting content = .ok obj → Digestible obj ∧
      ∀ f, Extracted obj f → Trusted env obj f → ∀ e, f.expiresAt = some e → e < env.now →
        ∃ g, graceEnd e f.graceDays = .ok g

end Loader

section Numeric
attribute [local instance] asciiUnicode mirrorCryptography

/-- A deployment whose license file dates its expiry with a number. -/
def numericEnvironment : Environment where
  getenv k := if k = lit "ISA_LICENSE_FILE" then some (lit "license.json") else none
  file _ := some (some ((lit "\x7b\"expires_at\": 5\x7d").flatMap encodePoint))
  now := 0
  resolvedEdition := none
  nesting := 2
  nesting_pos := Environment.least_nesting

end Numeric

end IsaCloud.License
