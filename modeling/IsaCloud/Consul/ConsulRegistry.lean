import IsaCloud.Support.Dict
import IsaCloud.Support.Runs
import IsaCloud.Support.Text

/-!
# Registration with a Consul agent

The registering part of `ConsulRegistry` as processes that send requests to the
agent. Requests succeed; a TTL pass for a check the agent does not know may raise.
Log lines and metrics are left out, and so is the sleep between two iterations of
the maintenance.
-/

namespace IsaCloud.Consul

set_option autoImplicit false

open Support Support.Text

structure ServiceInfo where
  service : Str
  port : Nat
  address : Str
  tags : List Str
  info : List (Str × Str)
  /-- A TTL check, or an HTTP check. -/
  ttl : Bool

/-- Where in the code the services are asked for. -/
inductive Site where
  | cleanup
  | maintenance
  deriving DecidableEq

inductive AgentCommand where
  | services (site : Site)
  | register (id : Str) (service : ServiceInfo)
  | deregister (id : Str)
  | ttlPass (id : Str)

inductive AgentReply where
  | services (d : Dict Str ServiceInfo)
  | done
  | failed

structure Agent where
  services : Dict Str ServiceInfo
  /-- A TTL pass for an unknown check is an error. -/
  strict : Bool

def Agent.serve (a : Agent) : AgentCommand → Agent × AgentReply
  | .services _ => (a, .services a.services)
  | .register id service => ({ a with services := a.services.set id service }, .done)
  | .deregister id => ({ a with services := a.services.pop id }, .done)
  | .ttlPass id => (a, if a.strict && !a.services.contains id then .failed else .done)

/-- What a call returns: the result, or the retry count of the maintenance. -/
inductive RegistryOut where
  | result (ok : Bool)
  | retries (n : Nat)

abbrev RegistryCode := Proc AgentCommand AgentReply RegistryOut

structure ConsulRegistry where
  serviceName : Str
  servicePort : Nat
  serviceHost : Str
  tags : List Str
  info : List (Str × Str)
  /-- `health_check_type == "ttl"`. -/
  ttl : Bool

namespace ConsulRegistry
variable (r : ConsulRegistry)

def serviceId : Str := r.serviceName ++ lit "-" ++ r.serviceHost ++ lit "-" ++ natText r.servicePort

def serviceInfo : ServiceInfo := ⟨r.serviceName, r.servicePort, r.serviceHost, r.tags, r.info, r.ttl⟩

/-- Same name and port, and another id. -/
def isStale (e : Str × ServiceInfo) : Bool :=
  decide (e.2.service = r.serviceName) && decide (e.2.port = r.servicePort) && decide (e.1 ≠ r.serviceId)

def staleIds (d : Dict Str ServiceInfo) : List Str := (d.entries.filter r.isStale).map Prod.fst

/-- The loop over the stale ids. -/
def deregisterEach (k : RegistryCode) : List Str → RegistryCode
  | [] => k
  | id :: ids => .call (.deregister id) fun _ => deregisterEach k ids

/-- `cleanup_stale_registrations`; its count is only logged. -/
def cleanupStaleRegistrations (k : RegistryCode) : RegistryCode :=
  .call (.services .cleanup) fun
    | .services d => deregisterEach k (r.staleIds d)
    | _ => k

/-- `register`, with what follows it. -/
def registerThen (cleanupStale : Bool) (k : Bool → RegistryCode) : RegistryCode :=
  let registration : RegistryCode := .call (.register r.serviceId r.serviceInfo) fun _ =>
    if r.ttl then .call (.ttlPass r.serviceId) fun
      | .failed => k false
      | _ => k true
    else k true
  if cleanupStale then r.cleanupStaleRegistrations registration else registration

def register (cleanupStale : Bool) : RegistryCode := r.registerThen cleanupStale fun ok => .ret (.result ok)

def deregister : RegistryCode := .call (.deregister r.serviceId) fun _ => .ret (.result true)

def maxRetries : Nat := 3

/-- The TTL part of an iteration. -/
def updateTtl (retryCount : Nat) : RegistryCode :=
  if r.ttl then .call (.ttlPass r.serviceId) fun
    | .failed =>
      if maxRetries ≤ retryCount + 1 then r.registerThen true fun _ => .ret (.retries 0)
      else .ret (.retries (retryCount + 1))
    | _ => .ret (.retries 0)
  else .ret (.retries retryCount)

/-- One iteration of `maintain_registration`, up to its sleep. -/
def maintainRegistration (retryCount : Nat) : RegistryCode :=
  .call (.services .maintenance) fun
    | .services d =>
      if d.contains r.serviceId then r.updateTtl retryCount
      else r.registerThen true fun ok => r.updateTtl (if ok then 0 else retryCount + 1)
    | _ => .ret (.retries (retryCount + 1))

end ConsulRegistry

/-! ## The requests a process has decided on -/

/-- The ids of the DEREGISTER requests that come next. -/
def drops : RegistryCode → List Str
  | .call (.deregister id) k => id :: drops (k .done)
  | _ => []

/-- A process that registers the id only, and decides on no deregistration of it later. -/
def Tame (id : Str) : RegistryCode → Prop
  | .ret _ => True
  | .call (.services .cleanup) k => ∀ a, Tame id (k a) ∧ id ∉ drops (k a)
  | .call (.deregister _) k => ∀ a, Tame id (k a) ∧ drops (k a) = drops (k .done)
  | .call (.register x _) k => x = id ∧ ∀ a, Tame id (k a) ∧ drops (k a) = []
  | .call _ k => ∀ a, Tame id (k a) ∧ drops (k a) = []

section Tame
variable {id : Str}

theorem drops_deregisterEach (k : RegistryCode) (ids : List Str) :
    drops (ConsulRegistry.deregisterEach k ids) = ids ++ drops k := by
  induction ids with
  | nil => rfl
  | cons x ids ih =>
    rw [ConsulRegistry.deregisterEach, drops, ih]
    rfl

theorem tame_deregisterEach {k : RegistryCode} (hk : Tame id k) (ids : List Str) :
    Tame id (ConsulRegistry.deregisterEach k ids) := by
  induction ids with
  | nil => exact hk
  | cons x ids ih => exact fun _ => ⟨ih, rfl⟩

variable {r : ConsulRegistry}

theorem tame_registration {k : Bool → RegistryCode} (hk : ∀ b, Tame r.serviceId (k b) ∧ drops (k b) = []) :
    Tame r.serviceId (.call (.register r.serviceId r.serviceInfo) fun _ =>
      if r.ttl then .call (.ttlPass r.serviceId) fun
        | .failed => k false
        | _ => k true
      else k true) := by
  refine ⟨rfl, ?_⟩
  intro _
  split
  · refine ⟨?_, rfl⟩
    intro reply
    cases reply with
    | failed => exact hk false
    | services d => exact hk true
    | done => exact hk true
  · exact hk true

/-- A registration drops nothing at once, and later no id of its own. -/
theorem tame_registerThen (cleanupStale : Bool) {k : Bool → RegistryCode}
    (hk : ∀ b, Tame r.serviceId (k b) ∧ drops (k b) = []) :
    Tame r.serviceId (r.registerThen cleanupStale k) ∧ drops (r.registerThen cleanupStale k) = [] := by
  have hreg := tame_registration (r := r) hk
  cases cleanupStale with
  | false => exact ⟨hreg, rfl⟩
  | true =>
    refine ⟨?_, rfl⟩
    intro reply
    cases reply with
    | done => exact ⟨hreg, List.not_mem_nil⟩
    | failed => exact ⟨hreg, List.not_mem_nil⟩
    | services d =>
      refine ⟨tame_deregisterEach hreg _, ?_⟩
      intro hmem
      rw [drops_deregisterEach] at hmem
      rcases List.mem_append.mp hmem with hmem | hmem
      · obtain ⟨e, he, hid⟩ := List.mem_map.mp hmem
        have hstale := (List.mem_filter.mp he).2
        rw [ConsulRegistry.isStale, Bool.and_eq_true] at hstale
        exact of_decide_eq_true hstale.2 hid
      · exact List.not_mem_nil hmem

theorem tame_register (cleanupStale : Bool) :
    Tame r.serviceId (r.register cleanupStale) ∧ drops (r.register cleanupStale) = [] :=
  tame_registerThen cleanupStale fun _ => ⟨trivial, rfl⟩

theorem tame_updateTtl (n : Nat) : Tame r.serviceId (r.updateTtl n) ∧ drops (r.updateTtl n) = [] := by
  rw [ConsulRegistry.updateTtl]
  split
  · refine ⟨?_, rfl⟩
    intro reply
    cases reply with
    | services d => exact ⟨trivial, rfl⟩
    | done => exact ⟨trivial, rfl⟩
    | failed =>
      dsimp only
      split
      · exact tame_registerThen true fun _ => ⟨trivial, rfl⟩
      · exact ⟨trivial, rfl⟩
  · exact ⟨trivial, rfl⟩

theorem tame_maintainRegistration (n : Nat) :
    Tame r.serviceId (r.maintainRegistration n) ∧ drops (r.maintainRegistration n) = [] := by
  refine ⟨?_, rfl⟩
  intro reply
  cases reply with
  | done => exact ⟨trivial, rfl⟩
  | failed => exact ⟨trivial, rfl⟩
  | services d =>
    dsimp only
    split
    · exact tame_updateTtl n
    · exact tame_registerThen true fun ok => tame_updateTtl _

end Tame

end IsaCloud.Consul
