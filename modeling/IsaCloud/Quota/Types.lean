import IsaCloud.Support.DateTime
import IsaCloud.Support.Python

/-!
# Quota types, tiers and decisions

The value objects of `quota_enforcer.py`: the four quota types with their
windows, the per-tier limits, and what the enforcer answers. A limit of
`unlimited` disables a quota.
-/

namespace IsaCloud.Quota

set_option autoImplicit false

open Support.Text Support.Python Support.DateTime

def unlimited : Int := -1

inductive QuotaType where
  | tokensPerHour
  | gpuMinutesPerDay
  | rayWorkers
  | mcpCallsPerDay
  deriving DecidableEq, Repr

namespace QuotaType

def value : QuotaType → Str
  | tokensPerHour => lit "tokens_per_hour"
  | gpuMinutesPerDay => lit "gpu_minutes_per_day"
  | rayWorkers => lit "ray_workers"
  | mcpCallsPerDay => lit "mcp_calls_per_day"

/-- Definition order, the order `list(QuotaType)` has. -/
def all : List QuotaType := [tokensPerHour, gpuMinutesPerDay, rayWorkers, mcpCallsPerDay]

def windowSeconds : QuotaType → Nat
  | tokensPerHour => 3600
  | gpuMinutesPerDay => 86400
  | mcpCallsPerDay => 86400
  | rayWorkers => 0

def isConcurrency : QuotaType → Bool
  | rayWorkers => true
  | _ => false

def resetLabel : QuotaType → Str
  | tokensPerHour => lit "the next hourly window"
  | gpuMinutesPerDay => lit "the next daily window"
  | mcpCallsPerDay => lit "the next daily window"
  | rayWorkers => lit "a worker slot is released"

end QuotaType

/-- A caller names a quota by the enum member or by its canonical key. -/
abbrev QuotaKey := QuotaType ⊕ Str

def coerceQuotaType : QuotaKey → Except PyError QuotaType
  | .inl qt => .ok qt
  | .inr s =>
    match QuotaType.all.find? fun qt => qt.value == s with
    | some qt => .ok qt
    | none => .error ⟨.keyError, lit "Unknown quota key: " ++ s⟩

structure TierQuota where
  tier : Str
  tokensPerHour : Int
  gpuMinutesPerDay : Int
  rayWorkers : Int
  mcpCallsPerDay : Int
  deriving DecidableEq, Repr

namespace TierQuota

def quota (t : TierQuota) : QuotaType → Int
  | .tokensPerHour => t.tokensPerHour
  | .gpuMinutesPerDay => t.gpuMinutesPerDay
  | .rayWorkers => t.rayWorkers
  | .mcpCallsPerDay => t.mcpCallsPerDay

def isUnlimited (t : TierQuota) (qt : QuotaType) : Bool := t.quota qt == unlimited

end TierQuota

structure QuotaDecision where
  allowed : Bool
  quotaType : QuotaType
  tier : Str
  limit : Int
  used : Int
  requested : Int
  unlimited : Bool := false
  degraded : Bool := false
  message : Str := []
  retryAfterSeconds : Option Nat := none
  deriving DecidableEq, Repr

structure PartialConsumption where
  quotaType : QuotaType
  tier : Str
  requested : Int
  granted : Int
  limit : Int
  used : Int
  degraded : Bool := false
  deriving DecidableEq, Repr

end IsaCloud.Quota
