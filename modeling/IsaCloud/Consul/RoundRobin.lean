import IsaCloud.Support.Dict
import IsaCloud.Support.Runs
import IsaCloud.Support.Text

/-!
# Choosing an instance of a service

`get_service_endpoint` asks the agent for the healthy instances at every call and
picks one of them. Round robin keeps a counter for each service, reduced by the
length of the list it was last used on, and indexes the next list with it. What
`random` and `hash` return is a parameter.
-/

namespace IsaCloud.Consul

set_option autoImplicit false

open Support Support.Text

structure ServiceInstance where
  id : Str
  address : Str
  port : Nat
  tags : List Str
  info : List (Str × Str)
  deriving DecidableEq

def ServiceInstance.endpoint (i : ServiceInstance) : Str :=
  lit "http://" ++ i.address ++ lit ":" ++ natText i.port

def roundRobin : Str := lit "round_robin"

structure EndpointCall where
  serviceName : Str
  strategy : Str
  /-- What the agent answers, unless the request fails. -/
  discovered : Option (List ServiceInstance)
  /-- Where `random.choice` points. -/
  pick : Nat

inductive EndpointReply where
  | endpoint (url : Str)
  | none
  | indexError
  deriving DecidableEq

/-- `_round_robin_counters`. -/
abbrev Counters := Dict Str Nat

/-- `discover_service`. -/
def EndpointCall.instances (c : EndpointCall) : List ServiceInstance := c.discovered.getD []

def EndpointCall.isRoundRobin (c : EndpointCall) (name : Str) : Bool :=
  decide (c.strategy = roundRobin) && decide (c.serviceName = name)

section Choice

def choice (pick : Nat) (instances : List ServiceInstance) : Option ServiceInstance :=
  instances[pick % instances.length]?

def selectBestInstance (pick : Nat) (instances : List ServiceInstance) : Option ServiceInstance :=
  let preferredInstances := instances.filter fun i => decide (lit "preferred" ∈ i.tags)
  if preferredInstances ≠ [] then choice pick preferredInstances else choice pick instances

/-- `min(instances, key=key)`: the first of the least. -/
def leastBy (key : ServiceInstance → Nat) : List ServiceInstance → Option ServiceInstance
  | [] => .none
  | i :: rest =>
    match leastBy key rest with
    | some j => if key j < key i then some j else some i
    | .none => some i

/-- The counter of the service; a new one starts at 0. -/
def counter (counters : Counters) (serviceName : Str) : Nat := (counters.get serviceName).getD 0

/-- `_get_round_robin_instance`; past the end of the list it raises. -/
def getRoundRobinInstance (counters : Counters) (serviceName : Str) (instances : List ServiceInstance) :
    Counters × Option ServiceInstance :=
  let current := counter counters serviceName
  (counters.set serviceName ((current + 1) % instances.length), instances[current]?)

def reply : Option ServiceInstance → EndpointReply
  | some i => .endpoint i.endpoint
  | .none => .indexError

def getServiceEndpoint (hash : Str → Nat) (counters : Counters) (c : EndpointCall) : Counters × EndpointReply :=
  match c.instances with
  | [] => (counters, .none)
  | [i] => (counters, .endpoint i.endpoint)
  | instances =>
    if c.strategy = lit "health_weighted" then (counters, reply (selectBestInstance c.pick instances))
    else if c.strategy = lit "random" then (counters, reply (choice c.pick instances))
    else if c.strategy = roundRobin then
      let r := getRoundRobinInstance counters c.serviceName instances
      (r.1, reply r.2)
    else if c.strategy = lit "least_connections" then
      (counters, reply (leastBy (fun i => hash i.id % 100) instances))
    else (counters, reply (choice c.pick instances))

end Choice

/-! ## Sequences of calls -/

section Calls
variable (hash : Str → Nat)

def step (counters : Counters) (c : EndpointCall) : Counters := (getServiceEndpoint hash counters c).1

/-- The calls, each with what it returns. -/
def answers (counters : Counters) : List EndpointCall → List (EndpointCall × EndpointReply)
  | [] => []
  | c :: cs => (c, (getServiceEndpoint hash counters c).2) :: answers (step hash counters c) cs

/-- What the round robin calls for one service return. -/
def turns (name : Str) (counters : Counters) (cs : List EndpointCall) : List EndpointReply :=
  ((answers hash counters cs).filter fun a => a.1.isRoundRobin name).map Prod.snd

/-- Every round robin call on some instances returns the endpoint of one of them. -/
def Total (counters : Counters) (cs : List EndpointCall) : Prop :=
  ∀ a ∈ answers hash counters cs, a.1.strategy = roundRobin → a.1.instances ≠ [] →
    ∃ i ∈ a.1.instances, a.2 = .endpoint i.endpoint

/-- As many calls for a service as it has instances, the list unchanged, return each instance once. -/
def Fair (counters : Counters) (cs : List EndpointCall) : Prop :=
  ∀ pre seg post name (instances : List ServiceInstance), cs = pre ++ seg ++ post → 2 ≤ instances.length →
    (∀ c ∈ seg, c.isRoundRobin name = true → c.instances = instances) →
    (seg.filter fun c => c.isRoundRobin name).length = instances.length →
    ∃ order : List ServiceInstance, order.Perm instances ∧
      turns hash name (run (step hash) counters pre) seg = order.map fun i => .endpoint i.endpoint

/-- The counter is within the list of instances. -/
def Within (counters : Counters) (c : EndpointCall) : Prop :=
  c.strategy = roundRobin → 2 ≤ c.instances.length → counter counters c.serviceName < c.instances.length

instance (counters : Counters) (c : EndpointCall) : Decidable (Within counters c) :=
  inferInstanceAs (Decidable (_ → _ → _))

end Calls

/-! ## One call -/

section Steps
variable {hash : Str → Nat} {counters : Counters} {c : EndpointCall}

theorem getServiceEndpoint_roundRobin (hr : c.strategy = roundRobin) (h : 2 ≤ c.instances.length) :
    getServiceEndpoint hash counters c =
      (counters.set c.serviceName ((counter counters c.serviceName + 1) % c.instances.length),
        reply c.instances[counter counters c.serviceName]?) := by
  have hweighted : roundRobin ≠ lit "health_weighted" := by decide
  have hrandom : roundRobin ≠ lit "random" := by decide
  rw [getServiceEndpoint]
  split
  · rename_i hnone
    rw [hnone] at h
    exact absurd h (by decide)
  · rename_i hone
    rw [hone] at h
    exact absurd h (by simp)
  · rw [hr, if_neg hweighted, if_neg hrandom, if_pos rfl]
    rfl

/-- Any other call leaves the counters alone. -/
theorem step_other (h : ¬ (c.strategy = roundRobin ∧ 2 ≤ c.instances.length)) : step hash counters c = counters := by
  rw [step, getServiceEndpoint]
  split
  · rfl
  · rfl
  · rename_i hnil hsingle
    have hlength : 2 ≤ c.instances.length := by
      rcases hc : c.instances with _ | ⟨i, _ | ⟨j, rest⟩⟩
      · exact absurd hc hnil
      · exact absurd hc (hsingle i)
      · exact Nat.le_add_left 2 rest.length
    have hr : ¬ c.strategy = roundRobin := fun hr => h ⟨hr, hlength⟩
    rw [if_neg hr]
    split_ifs <;> rfl

/-- The counters of the other services stay as they are. -/
theorem counter_step_of_ne (hash : Str → Nat) (counters : Counters) {name : Str} (h : c.isRoundRobin name = false) :
    counter (step hash counters c) name = counter counters name := by
  by_cases hc : c.strategy = roundRobin ∧ 2 ≤ c.instances.length
  · have hne : name ≠ c.serviceName := by
      rintro rfl
      simp [EndpointCall.isRoundRobin, hc.1] at h
    rw [step, getServiceEndpoint_roundRobin hc.1 hc.2, counter, Dict.get_set_of_ne _ _ hne, counter]
  · rw [step_other hc]

theorem counter_step_roundRobin (hash : Str → Nat) (counters : Counters) (hr : c.strategy = roundRobin)
    (h : 2 ≤ c.instances.length) :
    counter (step hash counters c) c.serviceName = (counter counters c.serviceName + 1) % c.instances.length := by
  rw [step, getServiceEndpoint_roundRobin hr h]
  simp [counter]

/-- A call on some instances returns one of them exactly when its counter is within the list. -/
theorem returns_instance_iff (hr : c.strategy = roundRobin) (hne : c.instances ≠ []) :
    (∃ i ∈ c.instances, (getServiceEndpoint hash counters c).2 = .endpoint i.endpoint) ↔ Within counters c := by
  by_cases h : 2 ≤ c.instances.length
  · rw [getServiceEndpoint_roundRobin hr h]
    dsimp only
    constructor
    · rintro ⟨i, -, hreply⟩ - -
      by_contra hout
      rw [List.getElem?_eq_none (Nat.le_of_not_lt hout)] at hreply
      cases hreply
    · intro hwithin
      have hlt := hwithin hr h
      exact ⟨_, List.getElem_mem hlt, by rw [List.getElem?_eq_getElem hlt]; rfl⟩
  · refine iff_of_true ?_ fun _ h' => absurd h' h
    obtain ⟨i, hi⟩ : ∃ i, c.instances = [i] := by
      refine List.length_eq_one_iff.mp ?_
      have hpos := List.length_pos_iff.mpr hne
      omega
    refine ⟨i, by rw [hi]; exact List.mem_singleton_self i, ?_⟩
    rw [getServiceEndpoint, hi]

end Steps

/-! ## Whole sequences -/

section Sequences
variable {hash : Str → Nat} {counters : Counters} {cs : List EndpointCall}

theorem total_iff : Total hash counters cs ↔ Guarded (step hash) Within counters cs := by
  induction cs generalizing counters with
  | nil => exact iff_of_true (fun a ha => nomatch ha) trivial
  | cons c cs ih =>
    rw [Total, answers, List.forall_mem_cons, Guarded]
    refine and_congr ?_ ih
    by_cases hc : c.strategy = roundRobin ∧ c.instances ≠ []
    · rw [← returns_instance_iff hc.1 hc.2]
      exact ⟨fun h => h hc.1 hc.2, fun h _ _ => h⟩
    · refine iff_of_true (fun hr hne => absurd ⟨hr, hne⟩ hc) ?_
      intro hr hlength
      exact absurd ⟨hr, List.length_pos_iff.mp (Nat.lt_of_lt_of_le Nat.zero_lt_two hlength)⟩ hc

/-- The instances from one position on, round and round. -/
def circle (instances : List ServiceInstance) (start turns : Nat) : List EndpointReply :=
  (List.range turns).map fun j => reply instances[(start + j) % instances.length]?

theorem circle_succ {instances : List ServiceInstance} {start : Nat} (h : start < instances.length) (n : Nat) :
    circle instances start (n + 1) =
      reply instances[start]? :: circle instances ((start + 1) % instances.length) n := by
  rw [circle, List.range_succ_eq_map, List.map_cons, List.map_map, Nat.add_zero, Nat.mod_eq_of_lt h]
  congr 1
  refine List.map_congr_left ?_
  intro j _
  show reply instances[(start + (j + 1)) % _]? = reply instances[((start + 1) % _ + j) % _]?
  rw [Nat.mod_add_mod, Nat.add_assoc, Nat.add_comm 1 j]

/-- Once round is every instance once. -/
theorem circle_round {instances : List ServiceInstance} (start : Nat) :
    circle instances start instances.length = (instances.rotate start).map fun i => .endpoint i.endpoint := by
  refine List.ext_getElem ?_ ?_
  · simp [circle]
  · intro j hj _
    have hlt : j < instances.length := by simpa [circle] using hj
    have hmod : (start + j) % instances.length < instances.length := Nat.mod_lt _ (Nat.zero_lt_of_lt hlt)
    simp [circle, List.getElem_rotate, reply, Nat.add_comm j start, List.getElem?_eq_getElem hmod]

theorem turns_cons (name : Str) (c : EndpointCall) (cs : List EndpointCall) :
    turns hash name counters (c :: cs) =
      if c.isRoundRobin name = true then
        (getServiceEndpoint hash counters c).2 :: turns hash name (step hash counters c) cs
      else turns hash name (step hash counters c) cs := by
  rw [turns, answers, List.filter_cons]
  split_ifs
  · rfl
  · rfl

/-- The round robin calls for a service go round its instances, whatever is called between them. -/
theorem turns_eq_circle {name : Str} {instances : List ServiceInstance} (hlength : 2 ≤ instances.length)
    (hsame : ∀ c ∈ cs, c.isRoundRobin name = true → c.instances = instances)
    (hstart : counter counters name < instances.length) :
    turns hash name counters cs =
      circle instances (counter counters name) (cs.filter fun c => c.isRoundRobin name).length := by
  induction cs generalizing counters with
  | nil => rfl
  | cons c cs ih =>
    have hrest := fun d hd => hsame d (List.mem_cons_of_mem c hd)
    rw [turns_cons, List.filter_cons]
    cases hc : c.isRoundRobin name with
    | false =>
      have hcounter := counter_step_of_ne hash counters hc
      rw [if_neg Bool.false_ne_true, if_neg Bool.false_ne_true, ← hcounter]
      exact ih hrest (hcounter ▸ hstart)
    | true =>
      have hinstances := hsame c List.mem_cons_self hc
      obtain ⟨hr, rfl⟩ : c.strategy = roundRobin ∧ c.serviceName = name := by
        simpa [EndpointCall.isRoundRobin] using hc
      have hcounter := counter_step_roundRobin hash counters hr (hinstances ▸ hlength)
      rw [hinstances] at hcounter
      have hnext := ih hrest (hcounter ▸ Nat.mod_lt _ (Nat.lt_of_lt_of_le Nat.zero_lt_two hlength))
      rw [hcounter] at hnext
      rw [if_pos rfl, if_pos rfl, List.length_cons, circle_succ hstart,
        getServiceEndpoint_roundRobin hr (hinstances ▸ hlength), hinstances, hnext]

/-- The first call for a service finds the counter within the list. -/
theorem counter_lt_of_within {name : Str} {instances : List ServiceInstance} (hlength : 2 ≤ instances.length)
    (hsame : ∀ c ∈ cs, c.isRoundRobin name = true → c.instances = instances)
    (h : Guarded (step hash) Within counters cs) (hsome : ∃ c ∈ cs, c.isRoundRobin name = true) :
    counter counters name < instances.length := by
  induction cs generalizing counters with
  | nil =>
    obtain ⟨c, hc, -⟩ := hsome
    cases hc
  | cons c cs ih =>
    cases hc : c.isRoundRobin name with
    | true =>
      obtain ⟨hr, rfl⟩ : c.strategy = roundRobin ∧ c.serviceName = name := by
        simpa [EndpointCall.isRoundRobin] using hc
      have hwithin := h.1 hr
      rw [hsame c List.mem_cons_self hc] at hwithin
      exact hwithin hlength
    | false =>
      rw [← counter_step_of_ne hash counters hc]
      refine ih (fun d hd => hsame d (List.mem_cons_of_mem c hd)) h.2 ?_
      obtain ⟨d, hd, hname⟩ := hsome
      rcases List.mem_cons.mp hd with rfl | hd
      · rw [hc] at hname
        cases hname
      · exact ⟨d, hd, hname⟩

theorem fair_of_within (h : Guarded (step hash) Within counters cs) : Fair hash counters cs := by
  rintro pre seg post name instances rfl hlength hsame hcount
  have hseg := (guarded_append.mp (guarded_append.mp h).1).2
  have hsome : ∃ c ∈ seg, c.isRoundRobin name = true := by
    obtain ⟨c, hc⟩ := List.exists_mem_of_length_pos (hcount ▸ Nat.lt_of_lt_of_le Nat.zero_lt_two hlength)
    exact ⟨c, List.mem_filter.mp hc⟩
  refine ⟨instances.rotate (counter (run (step hash) counters pre) name), List.rotate_perm _ _, ?_⟩
  rw [turns_eq_circle hlength hsame (counter_lt_of_within hlength hsame hseg hsome), hcount, circle_round]

/-- Round robin is total and fair as long as no list is as short as the position its counter stands at. -/
theorem round_robin_iff (hash : Str → Nat) (cs : List EndpointCall) :
    Total hash Dict.empty cs ∧ Fair hash Dict.empty cs ↔ Guarded (step hash) Within Dict.empty cs := by
  constructor
  · rintro ⟨htotal, -⟩
    exact total_iff.mp htotal
  · intro h
    exact ⟨total_iff.mpr h, fair_of_within h⟩

end Sequences

/-! ## An instance that goes away -/

def instanceAt (port : Nat) : ServiceInstance := ⟨lit "orders-" ++ natText port, lit "10.0.0.1", port, [], []⟩

def ordersCall (ports : List Nat) : EndpointCall := ⟨lit "orders", roundRobin, some (ports.map instanceAt), 0⟩

/-- The counter stands at the third instance when only two are left. -/
theorem shrunk_list_raises :
    ¬ (Total (fun _ => 0) Dict.empty [ordersCall [1, 2, 3], ordersCall [1, 2, 3], ordersCall [1, 2]] ∧
      Fair (fun _ => 0) Dict.empty [ordersCall [1, 2, 3], ordersCall [1, 2, 3], ordersCall [1, 2]]) := by
  rintro ⟨htotal, -⟩
  have hlast : (getServiceEndpoint (fun _ => 0)
      (run (step fun _ => 0) Dict.empty [ordersCall [1, 2, 3], ordersCall [1, 2, 3]]) (ordersCall [1, 2])).2 =
      .indexError := by decide
  obtain ⟨i, -, hreply⟩ := htotal _ (List.mem_cons_of_mem _ (List.mem_cons_of_mem _ List.mem_cons_self)) rfl (by decide)
  have hraised : EndpointReply.indexError = .endpoint i.endpoint := hlast.symm.trans hreply
  cases hraised

end IsaCloud.Consul
