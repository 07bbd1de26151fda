import IsaCloud.Consul.ConsulRegistry

/-!
# Replicas that share an agent

Replicas of one service have its name and port and a host of their own, and run
their calls request by request next to each other. A replica is live from the
moment its registration is served until it calls `deregister`.
-/

namespace IsaCloud.Consul

set_option autoImplicit false

open Support Support.Text

structure ReplicaSet where
  serviceName : Str
  servicePort : Nat
  tags : Str → List Str
  info : Str → List (Str × Str)
  ttl : Str → Bool

def ReplicaSet.registry (c : ReplicaSet) (host : Str) : ConsulRegistry :=
  ⟨c.serviceName, c.servicePort, host, c.tags host, c.info host, c.ttl host⟩

def ReplicaSet.id (c : ReplicaSet) (host : Str) : Str := (c.registry host).serviceId

theorem ReplicaSet.id_injective (c : ReplicaSet) {h h' : Str} (heq : c.id h = c.id h') : h = h' := by
  rw [ReplicaSet.id, ReplicaSet.id, ConsulRegistry.serviceId, ConsulRegistry.serviceId] at heq
  exact List.append_cancel_left (List.append_cancel_right (List.append_cancel_right heq))

inductive RegistryCall where
  | register (cleanupStale : Bool)
  | maintain
  | deregister
  deriving DecidableEq

structure Replicas where
  agent : Agent
  code : Str → Option RegistryCode
  retries : Str → Nat
  live : Str → Bool

inductive ReplicaEvent where
  | call (host : Str) (c : RegistryCall)
  | step (host : Str)
  deriving DecidableEq

section System
variable (c : ReplicaSet)

def codeOf (host : Str) (retryCount : Nat) : RegistryCall → RegistryCode
  | .register cleanupStale => (c.registry host).register cleanupStale
  | .maintain => (c.registry host).maintainRegistration retryCount
  | .deregister => (c.registry host).deregister

namespace Replicas

def start (a : Agent) : Replicas := ⟨a, fun _ => none, fun _ => 0, fun _ => false⟩

/-- The calls of one replica follow each other. -/
def call (s : Replicas) (host : Str) (rc : RegistryCall) : Replicas :=
  match s.code host with
  | some _ => s
  | none => { s with
      code := Function.update s.code host (some (codeOf c host (s.retries host) rc))
      live := if rc = .deregister then Function.update s.live host false else s.live }

def serve (s : Replicas) (host : Str) (cmd : AgentCommand) (k : AgentReply → RegistryCode) : Replicas where
  agent := (s.agent.serve cmd).1
  code := Function.update s.code host (some (k (s.agent.serve cmd).2))
  retries := s.retries
  live :=
    match cmd with
    | .register _ _ => Function.update s.live host true
    | _ => s.live

def finish (s : Replicas) (host : Str) : RegistryOut → Replicas
  | .result _ => { s with code := Function.update s.code host none }
  | .retries n => { s with code := Function.update s.code host none, retries := Function.update s.retries host n }

def step (s : Replicas) : ReplicaEvent → Replicas
  | .call host rc => s.call c host rc
  | .step host =>
    match s.code host with
    | some (.call cmd k) => s.serve host cmd k
    | some (.ret o) => s.finish host o
    | none => s

/-- Every live replica is registered. -/
def StayRegistered (s : Replicas) : Prop := ∀ host, s.live host = true → c.id host ∈ s.agent.services.keys

/-- A cleanup lists the services while no other replica is live, and a replica registers while no
cleanup of another one is about to drop it. -/
def Apart (s : Replicas) : ReplicaEvent → Prop
  | .call _ _ => True
  | .step host =>
    match s.code host with
    | some (.call (.services .cleanup) _) => ∀ other, other ≠ host → s.live other = false
    | some (.call (.register _ _) _) => ∀ other p, other ≠ host → s.code other = some p → c.id host ∉ drops p
    | _ => True

structure Inv (s : Replicas) : Prop where
  stay : s.StayRegistered c
  tame : ∀ host p, s.code host = some p → Tame (c.id host) p
  safe : ∀ host p, s.code host = some p → ∀ other, s.live other = true → c.id other ∉ drops p

variable {c}

theorem code_update {f : Str → Option RegistryCode} {host h : Str} {q p : RegistryCode}
    (h' : Function.update f host (some q) h = some p) : (h = host ∧ p = q) ∨ (h ≠ host ∧ f h = some p) := by
  by_cases hh : h = host
  · rw [hh, Function.update_self] at h'
    exact Or.inl ⟨hh, (Option.some.inj h').symm⟩
  · rw [Function.update_of_ne hh] at h'
    exact Or.inr ⟨hh, h'⟩

theorem tame_codeOf (host : Str) (n : Nat) (rc : RegistryCall) :
    Tame (c.id host) (codeOf c host n rc) ∧ ∀ x ∈ drops (codeOf c host n rc), rc = .deregister ∧ x = c.id host := by
  cases rc with
  | register cleanupStale =>
    have h := tame_register (r := c.registry host) cleanupStale
    refine ⟨h.1, fun x hx => ?_⟩
    rw [codeOf, h.2] at hx
    cases hx
  | maintain =>
    have h := tame_maintainRegistration (r := c.registry host) n
    refine ⟨h.1, fun x hx => ?_⟩
    rw [codeOf, h.2] at hx
    cases hx
  | deregister =>
    refine ⟨fun _ => ⟨trivial, rfl⟩, ?_⟩
    intro x hx
    exact ⟨rfl, List.mem_singleton.mp hx⟩

theorem Inv.call {s : Replicas} (h : s.Inv c) (host : Str) (rc : RegistryCall) : (s.call c host rc).Inv c := by
  rw [Replicas.call]
  cases hcode : s.code host with
  | some p => exact h
  | none =>
    have hlive : ∀ other, (if rc = .deregister then Function.update s.live host false else s.live) other = true →
        s.live other = true ∧ (rc = .deregister → other ≠ host) := by
      intro other hother
      by_cases hrc : rc = .deregister
      · rw [if_pos hrc] at hother
        by_cases hh : other = host
        · rw [hh, Function.update_self] at hother
          cases hother
        · rw [Function.update_of_ne hh] at hother
          exact ⟨hother, fun _ => hh⟩
      · rw [if_neg hrc] at hother
        exact ⟨hother, fun h => absurd h hrc⟩
    refine ⟨?_, ?_, ?_⟩
    · intro other hother
      exact h.stay other (hlive other hother).1
    · intro x p hp
      rcases code_update hp with ⟨rfl, rfl⟩ | ⟨_, hp⟩
      · exact (tame_codeOf x _ rc).1
      · exact h.tame x p hp
    · intro x p hp other hother hmem
      rcases code_update hp with ⟨rfl, rfl⟩ | ⟨_, hp⟩
      · obtain ⟨hrc, hid⟩ := (tame_codeOf x _ rc).2 _ hmem
        exact (hlive other hother).2 hrc (c.id_injective hid)
      · exact h.safe x p hp other (hlive other hother).1 hmem

theorem Inv.finish {s : Replicas} (h : s.Inv c) (host : Str) (o : RegistryOut) : (s.finish host o).Inv c := by
  have hcode : ∀ x p, Function.update s.code host none x = some p → s.code x = some p := by
    intro x p hp
    by_cases hx : x = host
    · rw [hx, Function.update_self] at hp
      cases hp
    · rwa [Function.update_of_ne hx] at hp
  cases o with
  | result ok => exact ⟨h.stay, fun x p hp => h.tame x p (hcode x p hp), fun x p hp => h.safe x p (hcode x p hp)⟩
  | retries n => exact ⟨h.stay, fun x p hp => h.tame x p (hcode x p hp), fun x p hp => h.safe x p (hcode x p hp)⟩

/-- A request that changes neither the registrations nor who is live. -/
theorem Inv.quiet {s : Replicas} (h : s.Inv c) {host : Str} {q : RegistryCode} (htame : Tame (c.id host) q)
    (hsafe : ∀ other, s.live other = true → c.id other ∉ drops q) :
    Inv c { s with code := Function.update s.code host (some q) } := by
  refine ⟨h.stay, ?_, ?_⟩
  · intro x p hp
    rcases code_update hp with ⟨rfl, rfl⟩ | ⟨_, hp⟩
    · exact htame
    · exact h.tame x p hp
  · intro x p hp
    rcases code_update hp with ⟨rfl, rfl⟩ | ⟨_, hp⟩
    · exact hsafe
    · exact h.safe x p hp

theorem Inv.serve {s : Replicas} (h : s.Inv c) {host : Str} {cmd : AgentCommand} {k : AgentReply → RegistryCode}
    (hcode : s.code host = some (.call cmd k)) (hapart : s.Apart c (.step host)) : (s.serve host cmd k).Inv c := by
  have htame := h.tame host _ hcode
  have hsafe := h.safe host _ hcode
  rw [Apart, hcode] at hapart
  cases cmd with
  | services site =>
    cases site with
    | cleanup =>
      have hnext := htame (.services s.agent.services)
      refine h.quiet hnext.1 ?_
      intro other hother
      by_cases hh : other = host
      · rw [hh]
        exact hnext.2
      · rw [hapart other hh] at hother
        cases hother
    | maintenance =>
      have hnext := htame (s.agent.serve (.services .maintenance)).2
      refine h.quiet hnext.1 ?_
      intro other _
      rw [hnext.2]
      exact List.not_mem_nil
  | ttlPass id =>
    have hnext := htame (s.agent.serve (.ttlPass id)).2
    refine h.quiet hnext.1 ?_
    intro other _
    rw [hnext.2]
    exact List.not_mem_nil
  | deregister id =>
    have hnext := htame .done
    have hkeep : ∀ other, s.live other = true → c.id other ≠ id ∧ c.id other ∉ drops (k .done) := by
      intro other hother
      have hno := hsafe other hother
      rw [drops, List.mem_cons, not_or] at hno
      exact hno
    have hquiet := h.quiet hnext.1 fun other hother => (hkeep other hother).2
    refine ⟨?_, hquiet.tame, hquiet.safe⟩
    intro other hother
    have hmem := h.stay other hother
    rw [Dict.mem_keys] at hmem ⊢
    have hget : (s.agent.services.pop id).get (c.id other) = s.agent.services.get (c.id other) :=
      Dict.get_pop_of_ne _ (hkeep other hother).1
    change ((s.agent.services.pop id).get (c.id other)).isSome
    rw [hget]
    exact hmem
  | register id service =>
    obtain ⟨rfl, hk⟩ := htame
    have hnext := hk .done
    have hlive : ∀ other, Function.update s.live host true other = true → other = host ∨ s.live other = true := by
      intro other hother
      by_cases hh : other = host
      · exact Or.inl hh
      · rw [Function.update_of_ne hh] at hother
        exact Or.inr hother
    refine ⟨?_, ?_, ?_⟩
    · intro other hother
      rw [Dict.mem_keys]
      change ((s.agent.services.set (c.id host) service).get (c.id other)).isSome
      rw [Dict.get_set]
      split
      · rfl
      · rename_i hne
        rcases hlive other hother with rfl | hother
        · exact absurd rfl hne
        · exact Dict.mem_keys.mp (h.stay other hother)
    · intro x p hp
      rcases code_update hp with ⟨rfl, rfl⟩ | ⟨_, hp⟩
      · exact hnext.1
      · exact h.tame x p hp
    · intro x p hp other hother
      rcases code_update hp with ⟨rfl, rfl⟩ | ⟨hx, hcx⟩
      · have hnil : drops (k (s.agent.serve (.register (c.id x) service)).2) = [] := hnext.2
        rw [hnil]
        exact List.not_mem_nil
      · rcases hlive other hother with rfl | hother
        · exact hapart x p hx hcx
        · exact h.safe x p hcx other hother

theorem Inv.step {s : Replicas} (ev : ReplicaEvent) (hapart : s.Apart c ev) (h : s.Inv c) : (s.step c ev).Inv c := by
  cases ev with
  | call host rc => exact h.call host rc
  | step host =>
    rw [Replicas.step]
    cases hcode : s.code host with
    | none => exact h
    | some p =>
      cases p with
      | ret o => exact h.finish host o
      | call cmd k => exact h.serve hcode hapart

theorem inv_start (a : Agent) : (start a).Inv c := ⟨fun _ h => (nomatch h), fun _ _ h => (nomatch h), fun _ _ h => (nomatch h)⟩

end Replicas

end System

/-! ## Two replicas -/

section Example

def billing : ReplicaSet := ⟨lit "billing", 8216, fun _ => [], fun _ => [], fun _ => true⟩

def hostA : Str := lit "10.0.0.1"
def hostB : Str := lit "10.0.0.2"

def emptyAgent : Agent := ⟨Dict.empty, true⟩

/-- One replica registers. -/
def oneRegisters : List ReplicaEvent := [.call hostA (.register true)] ++ List.replicate 4 (.step hostA)

/-- Both replicas register. -/
def bothRegister : List ReplicaEvent :=
  [.call hostA (.register true)] ++ List.replicate 4 (.step hostA) ++ [.call hostB (.register true)] ++
    List.replicate 5 (.step hostB)

end Example

end IsaCloud.Consul
