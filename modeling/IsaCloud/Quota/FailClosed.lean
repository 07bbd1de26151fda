import IsaCloud.Quota.Enforcer

/-!
# What `enforce` lets through

`check_and_consume` says two things of a request: whether it is allowed, and
whether Redis was there to say so. `enforce` raises only for a block that is not
degraded. The server is any function from commands to replies here, so it may
fail whenever it likes.
-/

namespace IsaCloud.Quota.QuotaEnforcer

set_option autoImplicit false

open Support Support.Text Support.Python Support.DateTime

/-- `result[0]` and `result[1]` are there. -/
def answered : Reply → Bool
  | .array (_ :: _ :: _) => true
  | _ => false

section Enforce
variable {S : Type} (e : QuotaEnforcer) (now : Instant) (tier : TierQuota) (org : Str) (quotaType : QuotaKey)
  (amount : Int) (server : S → Cmd → S × Reply) (s : S)

/-- The request needs Redis, and Redis does not answer. -/
def Outage : Prop :=
  ∃ qt, coerceQuotaType quotaType = .ok qt ∧ validate org amount = .ok () ∧ tier.quota qt ≠ unlimited ∧
    answered (server s (.eval (consumeScript qt) (e.key org qt now) amount (tier.quota qt) qt.windowSeconds)).2 = false

/-- The answer of the gate and that of `enforce`. -/
def gated : Except PyError QuotaDecision := ((e.checkAndConsume now tier org quotaType amount).exec server s).2

def enforced : Except EnforceError QuotaDecision := ((e.enforce now tier org quotaType amount).exec server s).2

/-- No exception means allowed, a blocked request is the quota's error, and an
outage is not one while failing open. -/
structure FailsClosed : Prop where
  returned : ∀ d, e.enforced now tier org quotaType amount server s = .ok d → d.allowed = true
  blocked : ∀ d, e.gated now tier org quotaType amount server s = .ok d → d.allowed = false →
    e.enforced now tier org quotaType amount server s = .error (.quotaExceeded d)
  outageAdmitted : e.failOpen = true → e.Outage now tier org quotaType amount server s →
    ∀ d, e.enforced now tier org quotaType amount server s ≠ .error (.quotaExceeded d)

variable {e now tier org quotaType amount server s}

theorem enforced_eq : e.enforced now tier org quotaType amount server s =
    afterGate (e.gated now tier org quotaType amount server s) := by
  have hmap : ∀ p : Client QuotaDecision, ((p.map afterGate).exec server s).2 = afterGate (p.exec server s).2 := by
    intro p
    induction p generalizing s with
    | ret o => rfl
    | call c k ih => exact ih (server s c).2
  exact hmap _

theorem afterConsume_of_not_answered {qt : QuotaType} {reply : Reply} (h : answered reply = false) :
    e.afterConsume now qt tier amount reply = .ret (.ok (e.degradedDecision qt tier (tier.quota qt) amount)) := by
  cases reply with
  | array values =>
    rcases values with _ | ⟨a, _ | ⟨b, rest⟩⟩
    · rfl
    · rfl
    · exact absurd h (by simp [answered])
  | _ => rfl

/-- An outage yields the degraded decision. -/
theorem gated_of_outage (h : e.Outage now tier org quotaType amount server s) :
    ∃ qt, e.gated now tier org quotaType amount server s = .ok (e.degradedDecision qt tier (tier.quota qt) amount) := by
  obtain ⟨qt, hqt, hvalid, hfin, hreply⟩ := h
  refine ⟨qt, ?_⟩
  rw [gated, checkAndConsume, hqt, Proc.attempt_ok, hvalid, Proc.attempt_ok, if_neg hfin, Proc.exec_call,
    afterConsume_of_not_answered hreply, Proc.exec_ret]

/-- Only an outage yields a degraded decision. -/
theorem not_degraded_of_not_outage (h : ¬ e.Outage now tier org quotaType amount server s) {d : QuotaDecision}
    (hd : e.gated now tier org quotaType amount server s = .ok d) : d.degraded = false := by
  rw [gated, checkAndConsume] at hd
  cases hqt : coerceQuotaType quotaType with
  | error err =>
    rw [hqt, Proc.attempt_error, Proc.exec_ret] at hd
    cases hd
  | ok qt =>
    rw [hqt, Proc.attempt_ok] at hd
    cases hvalid : validate org amount with
    | error err =>
      rw [hvalid, Proc.attempt_error, Proc.exec_ret] at hd
      cases hd
    | ok u =>
      rw [hvalid, Proc.attempt_ok] at hd
      by_cases hfin : tier.quota qt = unlimited
      · rw [if_pos hfin, Proc.exec_ret] at hd
        cases hd
        rfl
      · rw [if_neg hfin, Proc.exec_call] at hd
        have hreply : answered (server s (.eval (consumeScript qt) (e.key org qt now) amount (tier.quota qt)
            qt.windowSeconds)).2 = true := by
          by_contra hno
          exact h ⟨qt, hqt, hvalid, hfin, Bool.eq_false_iff.mpr hno⟩
        generalize (server s (.eval (consumeScript qt) (e.key org qt now) amount (tier.quota qt)
            qt.windowSeconds)).2 = reply at hd hreply
        cases reply with
        | array values =>
          rcases values with _ | ⟨a, _ | ⟨b, rest⟩⟩
          · cases hreply
          · cases hreply
          · cases hd
            rfl
        | _ => cases hreply

theorem afterGate_blocked {d : QuotaDecision} (hallowed : d.allowed = false) (hdegraded : d.degraded = false) :
    afterGate (.ok d) = .error (.quotaExceeded d) := by
  rw [afterGate, hallowed, hdegraded]
  rfl

/-- `enforce` fails closed unless it is told to and there is an outage. -/
theorem failsClosed_iff : e.FailsClosed now tier org quotaType amount server s ↔
    e.failOpen = true ∨ ¬ e.Outage now tier org quotaType amount server s := by
  constructor
  · intro h
    by_contra hno
    obtain ⟨hclosed, hout⟩ := not_or.mp hno
    obtain ⟨qt, hd⟩ := gated_of_outage (not_not.mp hout)
    -- the degraded block is handed back as if nothing were wrong
    have hret := h.returned (e.degradedDecision qt tier (tier.quota qt) amount) (by
      rw [enforced_eq, hd, afterGate]
      simp [degradedDecision])
    exact hclosed hret
  · intro h
    by_cases hout : e.Outage now tier org quotaType amount server s
    · have hopen : e.failOpen = true := h.resolve_right (not_not.mpr hout)
      obtain ⟨qt, hd⟩ := gated_of_outage hout
      have hallowed : (e.degradedDecision qt tier (tier.quota qt) amount).allowed = true := hopen
      have henf : e.enforced now tier org quotaType amount server s =
          .ok (e.degradedDecision qt tier (tier.quota qt) amount) := by
        rw [enforced_eq, hd, afterGate, hallowed]
        rfl
      constructor
      · intro d hret
        rw [henf] at hret
        cases hret
        exact hallowed
      · intro d hgate hblocked
        rw [hd] at hgate
        cases hgate
        rw [hallowed] at hblocked
        cases hblocked
      · intro _ _ d hex
        rw [henf] at hex
        cases hex
    · constructor
      · intro d hret
        rw [enforced_eq] at hret
        cases hg : e.gated now tier org quotaType amount server s with
        | error err =>
          rw [hg] at hret
          cases hret
        | ok d' =>
          have hdeg := not_degraded_of_not_outage hout hg
          rw [hg] at hret
          cases hallowed : d'.allowed with
          | false =>
            rw [afterGate_blocked hallowed hdeg] at hret
            cases hret
          | true =>
            rw [afterGate, hallowed] at hret
            cases hret
            exact hallowed
      · intro d hgate hblocked
        rw [enforced_eq, hgate, afterGate_blocked hblocked (not_degraded_of_not_outage hout hgate)]
      · intro _ hyes
        exact absurd hyes hout

end Enforce

def downServer : Unit → Cmd → Unit × Reply := fun s _ => (s, .error)

/-- With `fail_open=False` and Redis down, a request passes unmetered. -/
theorem closed_outage_returned : ¬ ∀ (e : QuotaEnforcer) (now : Instant) (tier : TierQuota) (org : Str)
    (quotaType : QuotaKey) (amount : Int) (server : Unit → Cmd → Unit × Reply),
    e.FailsClosed now tier org quotaType amount server () := by
  intro h
  have hclosed := h (.init (lit "quota") false) 0 ⟨lit "free", 10, 5, 1, 100⟩ (lit "acme") (.inl .tokensPerHour) 1 downServer
  have hret := hclosed.returned
    (degradedDecision (.init (lit "quota") false) .tokensPerHour ⟨lit "free", 10, 5, 1, 100⟩ 10 1) (by decide)
  exact absurd hret (by decide)

end IsaCloud.Quota.QuotaEnforcer
