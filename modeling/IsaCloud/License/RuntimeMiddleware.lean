import IsaCloud.License.Authenticity

/-!
# The runtime middleware

`LicenseRuntimeMiddleware` of `licensing.py`: per request it re-derives the status,
writes it to Redis as a hint, emits `over_license` past the expiry and passes the
request on. What it talks to is a `World`, which answers as it likes, in the light
of all that was done before. Exceptions are those an `except Exception` catches.
-/

namespace IsaCloud.License

set_option autoImplicit false

open Support Support.Text Support.Python Support.DateTime Support.IsoTime Support.Encoding Support.Base64
  Support.Json

def licenseStatusCacheKey : Str := lit "isa:license:status"
def licenseStatusCacheTtl : Nat := 3600

/-- The calls of the middleware on a Redis client. -/
inductive RedisCall where
  | setex (key : Str) (ttl : Nat) (value : Str)
  | setWithTtl (key value : Str) (ttl : Nat)
  | set (key value : Str) (ttlSeconds : Nat)
  deriving DecidableEq, Repr

inductive Event (Q : Type) where
  | connect
  | hasattr (name : Str)
  | redis (call : RedisCall)
  | overLicense (status : LicenseStatus)
  | callNext (request : Q)
  deriving DecidableEq, Repr

def Event.isCallNext {Q : Type} : Event Q → Bool
  | .callNext _ => true
  | _ => false

def Event.isOverLicense {Q : Type} : Event Q → Bool
  | .overLicense _ => true
  | _ => false

/-- Redis clients `R` that raise `E`, and an application that takes requests `Q` to outcomes `X`. -/
structure World (R E Q X : Type) where
  /-- `AsyncRedisClient()`. -/
  connect : List (Event Q) → Except E R
  hasattr : List (Event Q) → R → Str → Except E Bool
  redis : List (Event Q) → R → RedisCall → Except E Unit
  /-- The response or the exception of the application. -/
  next : List (Event Q) → Q → X

/-- The middleware object and what was done so far. -/
structure LicenseRuntimeMiddleware (R Q : Type) where
  redis : Option R
  redisInitFailed : Bool
  trace : List (Event Q)

namespace LicenseRuntimeMiddleware
variable {R E Q X : Type} (w : World R E Q X) (m : LicenseRuntimeMiddleware R Q)

def record (e : Event Q) : LicenseRuntimeMiddleware R Q := { m with trace := m.trace ++ [e] }

def getRedis : LicenseRuntimeMiddleware R Q :=
  if m.redis.isSome ∨ m.redisInitFailed then m
  else
    match w.connect m.trace with
    | .ok client => { m.record .connect with redis := some client }
    | .error _ => { m.record .connect with redis := none, redisInitFailed := true }

/-- The two lookups of `_write_cache`; the answer is the call to make, or the exception. -/
def cacheCall (client : R) (status : LicenseStatus) : LicenseRuntimeMiddleware R Q × Except E RedisCall :=
  match w.hasattr m.trace client (lit "setex") with
  | .error e => (m.record (.hasattr (lit "setex")), .error e)
  | .ok true => (m.record (.hasattr (lit "setex")),
      .ok (.setex licenseStatusCacheKey licenseStatusCacheTtl status.value))
  | .ok false =>
    let m := m.record (.hasattr (lit "setex"))
    match w.hasattr m.trace client (lit "set_with_ttl") with
    | .error e => (m.record (.hasattr (lit "set_with_ttl")), .error e)
    | .ok true => (m.record (.hasattr (lit "set_with_ttl")),
        .ok (.setWithTtl licenseStatusCacheKey status.value licenseStatusCacheTtl))
    | .ok false => (m.record (.hasattr (lit "set_with_ttl")),
        .ok (.set licenseStatusCacheKey status.value licenseStatusCacheTtl))

/-- `_write_cache`: what the client answers or raises is dropped. -/
def writeCache (status : LicenseStatus) : LicenseRuntimeMiddleware R Q :=
  match m.redis with
  | none => m
  | some client =>
    match m.cacheCall w client status with
    | (m, .error _) => m
    | (m, .ok call) =>
      match w.redis m.trace client call with
      | .error _ => m.record (.redis call)
      | .ok _ => m.record (.redis call)

/-- `_runtime_status` at time `now`, for the license the process has. -/
def runtimeStatus (license : LicenseConfig) (now : Instant) :
    LicenseRuntimeMiddleware R Q × Except PyError LicenseStatus :=
  match license.currentStatus now with
  | .error e => (m, .error e)
  | .ok status => ((m.getRedis w).writeCache w status, .ok status)

def emitOverLicense (status : LicenseStatus) : LicenseRuntimeMiddleware R Q := m.record (.overLicense status)

/-- The `try` of `__call__`. -/
def check (license : LicenseConfig) (now : Instant) : LicenseRuntimeMiddleware R Q :=
  match m.runtimeStatus w license now with
  | (m, .error _) => m
  | (m, .ok status) => if status = .grace ∨ status = .expired then m.emitOverLicense status else m

/-- `__call__`. -/
def call (license : LicenseConfig) (now : Instant) (request : Q) : LicenseRuntimeMiddleware R Q × X :=
  let m := m.check w license now
  (m.record (.callNext request), w.next m.trace request)

/-! ## One request -/

/-- Nothing was done that a caller or the metering can see. -/
def Quiet (m m' : LicenseRuntimeMiddleware R Q) : Prop :=
  ∃ done, m'.trace = m.trace ++ done ∧ ∀ e ∈ done, e.isCallNext = false ∧ e.isOverLicense = false

variable {w m}

theorem Quiet.refl (m : LicenseRuntimeMiddleware R Q) : Quiet m m := ⟨[], by simp, by simp⟩

theorem Quiet.trans {m₁ m₂ m₃ : LicenseRuntimeMiddleware R Q} (h₁₂ : Quiet m₁ m₂) (h₂₃ : Quiet m₂ m₃) :
    Quiet m₁ m₃ := by
  obtain ⟨done, htrace, hdone⟩ := h₁₂
  obtain ⟨done', htrace', hdone'⟩ := h₂₃
  refine ⟨done ++ done', by rw [htrace', htrace, List.append_assoc], ?_⟩
  intro e he
  rcases List.mem_append.mp he with he | he
  · exact hdone e he
  · exact hdone' e he

theorem quiet_record {e : Event Q} (h : e.isCallNext = false ∧ e.isOverLicense = false) : Quiet m (m.record e) := by
  refine ⟨[e], rfl, fun e' he' => ?_⟩
  rw [List.mem_singleton.mp he']
  exact h

theorem quiet_getRedis : Quiet m (m.getRedis w) := by
  unfold getRedis
  split
  · exact Quiet.refl m
  · split
    · exact quiet_record (m := m) (e := .connect) ⟨rfl, rfl⟩
    · exact quiet_record (m := m) (e := .connect) ⟨rfl, rfl⟩

theorem quiet_cacheCall (client : R) (status : LicenseStatus) : Quiet m (m.cacheCall w client status).1 := by
  have hfirst : Quiet m (m.record (.hasattr (lit "setex"))) := quiet_record ⟨rfl, rfl⟩
  have hsecond : Quiet m ((m.record (.hasattr (lit "setex"))).record (.hasattr (lit "set_with_ttl"))) :=
    hfirst.trans (quiet_record ⟨rfl, rfl⟩)
  unfold cacheCall
  split
  · exact hfirst
  · exact hfirst
  · dsimp only
    split
    · exact hsecond
    · exact hsecond
    · exact hsecond

theorem quiet_writeCache (status : LicenseStatus) : Quiet m (m.writeCache w status) := by
  unfold writeCache
  split
  · exact Quiet.refl m
  · rename_i client _
    have hlookups := quiet_cacheCall (w := w) (m := m) client status
    split
    · rename_i m' _ heq
      rw [heq] at hlookups
      exact hlookups
    · rename_i m' call heq
      rw [heq] at hlookups
      split
      · exact hlookups.trans (quiet_record ⟨rfl, rfl⟩)
      · exact hlookups.trans (quiet_record ⟨rfl, rfl⟩)

/-- The check does nothing to be seen, or it emits one signal at its end. -/
theorem check_cases (license : LicenseConfig) (now : Instant) :
    (Quiet m (m.check w license now) ∧
      ¬ (license.currentStatus now = .ok .grace ∨ license.currentStatus now = .ok .expired)) ∨
    ∃ m' status, Quiet m m' ∧ m.check w license now = m'.emitOverLicense status ∧
      (license.currentStatus now = .ok .grace ∨ license.currentStatus now = .ok .expired) := by
  unfold check runtimeStatus
  cases hstatus : license.currentStatus now with
  | error e => exact .inl ⟨Quiet.refl m, by simp⟩
  | ok status =>
    have hquiet : Quiet m ((m.getRedis w).writeCache w status) := quiet_getRedis.trans (quiet_writeCache status)
    dsimp only
    split
    · rename_i hover
      exact .inr ⟨_, status, hquiet, rfl, by simpa using hover⟩
    · rename_i hover
      exact .inl ⟨hquiet, by simpa using hover⟩

variable (w m)

/-- Past an expiry there is. -/
def overdue (license : LicenseConfig) (now : Instant) : Bool :=
  match license.expiresAt with
  | none => false
  | some e => decide (e < now)

/-- The request is passed on once, its outcome is what the application made of it, and there is
a signal when the license is overdue, and only then. -/
def FailOpenMetered (license : LicenseConfig) (now : Instant) (request : Q) : Prop :=
  ∃ done, (m.call w license now request).1.trace = m.trace ++ (done ++ [.callNext request]) ∧
    (∀ e ∈ done, e.isCallNext = false) ∧ (m.call w license now request).2 = w.next (m.trace ++ done) request ∧
    done.countP Event.isOverLicense = if overdue license now then 1 else 0

variable {w m}

theorem overdue_iff {license : LicenseConfig} {now : Instant} :
    overdue license now = true ↔ ∃ e, license.expiresAt = some e ∧ e < now := by
  unfold overdue
  cases license.expiresAt with
  | none => simp
  | some e => simp

/-- The number of signals of a request tells whether the status was past the expiry. -/
theorem failOpenMetered_iff_status (license : LicenseConfig) (now : Instant) (request : Q) :
    FailOpenMetered w m license now request ↔
      (overdue license now = true ↔
        license.currentStatus now = .ok .grace ∨ license.currentStatus now = .ok .expired) := by
  have hspec : ∃ done, (m.check w license now).trace = m.trace ++ done ∧ (∀ e ∈ done, e.isCallNext = false) ∧
      (done.countP Event.isOverLicense = 1 ∧
        (license.currentStatus now = .ok .grace ∨ license.currentStatus now = .ok .expired) ∨
      done.countP Event.isOverLicense = 0 ∧
        ¬ (license.currentStatus now = .ok .grace ∨ license.currentStatus now = .ok .expired)) := by
    have hzero : ∀ done : List (Event Q), (∀ e ∈ done, e.isCallNext = false ∧ e.isOverLicense = false) →
        done.countP Event.isOverLicense = 0 := by
      intro done hdone
      rw [List.countP_eq_zero]
      intro e he
      simp [(hdone e he).2]
    rcases check_cases (w := w) (m := m) license now with
      ⟨⟨done, htrace, hdone⟩, hstatus⟩ | ⟨m', status, ⟨done, htrace, hdone⟩, hcheck, hstatus⟩
    · exact ⟨done, htrace, fun e he => (hdone e he).1, .inr ⟨hzero done hdone, hstatus⟩⟩
    · refine ⟨done ++ [.overLicense status], ?_, ?_, .inl ⟨?_, hstatus⟩⟩
      · rw [hcheck, emitOverLicense, record, htrace, List.append_assoc]
      · intro e he
        rcases List.mem_append.mp he with he | he
        · exact (hdone e he).1
        · rw [List.mem_singleton.mp he]
          rfl
      · rw [List.countP_append, hzero done hdone]
        rfl
  obtain ⟨done, htrace, hnext, hcount⟩ := hspec
  have hcall : (m.call w license now request).1.trace = m.trace ++ (done ++ [.callNext request]) := by
    rw [call, record, htrace, List.append_assoc]
  have houtcome : (m.call w license now request).2 = w.next (m.trace ++ done) request := by
    rw [call, htrace]
  constructor
  · rintro ⟨done', hcall', -, -, hcount'⟩
    rw [hcall] at hcall'
    obtain rfl := List.append_cancel_right (List.append_cancel_left hcall')
    rcases hcount with ⟨hone, hstatus⟩ | ⟨hzero, hstatus⟩
    · rw [hone] at hcount'
      split at hcount'
      · rename_i h
        exact ⟨fun _ => hstatus, fun _ => h⟩
      · cases hcount'
    · rw [hzero] at hcount'
      split at hcount'
      · cases hcount'
      · rename_i h
        exact ⟨fun ho => absurd ho h, fun hs => absurd hs hstatus⟩
  · intro h
    refine ⟨done, hcall, hnext, houtcome, ?_⟩
    rcases hcount with ⟨hone, hstatus⟩ | ⟨hzero, hstatus⟩
    · rw [hone, if_pos (h.mpr hstatus)]
    · rw [hzero, if_neg (fun ho => hstatus (h.mp ho))]

/-- Whatever Redis does, requests pass and are metered, unless the license is overdue and its grace
period ends at no date. -/
theorem failOpenMetered_iff {license : LicenseConfig} (haccepted : license.status.isAccepted = true)
    (now : Instant) (request : Q) :
    FailOpenMetered w m license now request ↔
      ∀ e, license.expiresAt = some e → e < now → ∃ g, graceEnd e license.graceDays = .ok g := by
  rw [failOpenMetered_iff_status, currentStatus_of_accepted haccepted, overrun_iff, overdue_iff]
  constructor
  · intro h e he hlt
    obtain ⟨e', he', -, hg⟩ := h.mp ⟨e, he, hlt⟩
    obtain rfl := Option.some.inj (he.symm.trans he')
    exact hg
  · intro h
    constructor
    · rintro ⟨e, he, hlt⟩
      exact ⟨e, he, hlt, h e he hlt⟩
    · rintro ⟨e, he, hlt, -⟩
      exact ⟨e, he, hlt⟩

end LicenseRuntimeMiddleware

/-! ## A grace period that ends after year 9999 -/

section Acme
attribute [local instance] asciiUnicode mirrorCryptography

open LicenseRuntimeMiddleware

def unsignedTerm (graceDays : Int) : Members Unit :=
  [(lit "edition", .str (lit "on-prem-lite")), (lit "expires_at", .str (lit "2026-02-01T00:00:00Z")),
    (lit "grace_days", .int graceDays)]

/-- A deployment with a license of that term, at the beginning of 2026. -/
def termEnvironment (graceDays : Int) : Environment where
  getenv k :=
    if k = lit "ISA_LICENSE_FILE" then some (lit "license.json")
    else if k = lit "ISA_LICENSE_PUBKEY" then some (lit "PEM")
    else none
  file _ := some (some (writeJson (.obj (unsignedTerm graceDays ++ [(signatureField, .str (b64encode
    (0 :: writeJson (sorted (.obj (unsignedTerm graceDays))))))]))))
  now := 63902822400000000
  resolvedEdition := none
  nesting := 2
  nesting_pos := Environment.least_nesting

def termConfig (graceDays : Int) : LicenseConfig :=
  ⟨.valid, [], lit "on-prem-lite", some 63905500800000000, graceDays, ∅, none, 0⟩

/-- No Redis, and an application that echoes. -/
def echoWorld : World Empty Unit Nat Nat where
  connect _ := .error ()
  hasattr _ r := nomatch r
  redis _ r := nomatch r
  next _ request := request

def freshMiddleware : LicenseRuntimeMiddleware Empty Nat := ⟨none, false, []⟩

/-- A license with three million days of grace is valid at boot, and no use of it is ever metered. -/
theorem overdue_unmetered :
    fromEnv Unit (termEnvironment 3000000) = .ok (termConfig 3000000) ∧
    ¬ FailOpenMetered echoWorld freshMiddleware (termConfig 3000000) 63905500800000001 7 := by
  refine ⟨by decide +kernel, ?_⟩
  rw [failOpenMetered_iff_status]
  decide

/-- With a week of grace it is metered from the first microsecond on. -/
theorem overdue_metered :
    fromEnv Unit (termEnvironment 7) = .ok (termConfig 7) ∧
    FailOpenMetered echoWorld freshMiddleware (termConfig 7) 63905500800000001 7 := by
  refine ⟨by decide +kernel, (failOpenMetered_iff rfl _ _).mpr ?_⟩
  intro e he _
  obtain rfl := Option.some.inj he
  exact ⟨63905500800000000 + 7 * usPerDay, by decide⟩

end Acme

end IsaCloud.License
