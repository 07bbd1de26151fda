import IsaCloud.Gateway.FailingSync

/-!
# Catalogs and the names of their routes

A run without failures is determined by the catalog. Each service that is served
gives the names `<service>_route` and `<service>_health_route` into the one
namespace of the static routes; this module says when these names are distinct.
-/

namespace IsaCloud.Gateway

set_option autoImplicit false

open Support Support.Text

/-- What Consul answers: the names of the catalog, which are the keys of an object, and the metadata
under a name. -/
structure Catalog where
  names : List Str
  nodup : names.Nodup
  info : Str → Meta

/-- The replies of a run in which every call succeeds. -/
def Catalog.replies (c : Catalog) : Replies :=
  ⟨some c.names, fun _ w => ⟨some (c.info w), answered, answered, answered⟩, fun _ => answered, true⟩

theorem Catalog.reaches {c : Catalog} (h : ∃ l ∈ serviceLines c.names, l ≠ []) : c.replies.ReachesCleanup where
  named := by
    obtain ⟨l, hl, hne⟩ := h
    exact ⟨c.names, rfl, fun hall => hne (hall l hl)⟩
  goesOn := by
    intro s _
    cases s <;> rfl
  answered := rfl

/-! ## Requests -/

/-- The requests of the script about a service. -/
def serviceRequests (env : Settings) (serviceName : Str) (m : Meta) : List Request :=
  (serviceAttempts env serviceName ⟨some m, answered, answered, answered⟩).map fun x => x.request

def staticRequests (env : Settings) : List Request := statics.map fun s => s.request env

/-- The requests of a run without failures. -/
def Catalog.requests (sh : Shell) (env : Settings) (c : Catalog) : List Request :=
  (sh.words (serviceLines c.names)).flatMap (fun s => serviceRequests env s (c.info s)) ++ staticRequests env

theorem serviceAttempts_answered (env : Settings) (s : Str) (m : Meta) :
    serviceAttempts env s ⟨some m, answered, answered, answered⟩ =
      (serviceRequests env s m).map fun req => ⟨answered, req⟩ := by
  rw [serviceRequests, serviceAttempts]
  dsimp only
  cases apiPath m with
  | none => rfl
  | some path => by_cases hs : s = modelService <;> simp [hs]

theorem loopAttempts_answered (env : Settings) (c : Catalog) (n : Nat) (ws : List Str) :
    loopAttempts env c.replies.word n ws =
      (ws.flatMap fun s => serviceRequests env s (c.info s)).map fun req => ⟨answered, req⟩ := by
  induction ws generalizing n with
  | nil => rfl
  | cons w ws ih =>
    rw [loopAttempts, ih, List.flatMap_cons, List.map_append]
    congr 1
    exact serviceAttempts_answered env w (c.info w)

theorem staticAttempts_answered (env : Settings) (c : Catalog) :
    staticAttempts env c.replies.static statics = (staticRequests env).map fun req => ⟨answered, req⟩ := rfl

/-- The entries the requests write. -/
def entriesOf (a : Apisix) (reqs : List Request) : List (Str × Stored) :=
  reqs.map fun req => (a.target req.name, a.kept req)

theorem filterMap_entry (a : Apisix) (reqs : List Request) :
    ((reqs.map fun req => (⟨answered, req⟩ : Attempt)).filterMap (Attempt.entry a)) = entriesOf a reqs := by
  induction reqs with
  | nil => rfl
  | cons req reqs ih =>
    rw [List.map_cons, List.filterMap_cons, ih]
    rfl

theorem syncedNames_answered (reqs : List Request) :
    syncedNames (reqs.map fun req => (⟨answered, req⟩ : Attempt)) = reqs.map fun req => req.name := by
  induction reqs with
  | nil => rfl
  | cons req reqs ih =>
    rw [List.map_cons, List.map_cons, ← ih]
    rfl

section Run
variable (a : Apisix) (sh : Shell) (env : Settings)

/-- The routes after a run without failures. -/
def syncRun (c : Catalog) (prior : Routes) : Routes := (main a sh env c.replies allRemoved prior).routes

/-- The names listed that no request of the run has. -/
def staleNames (c : Catalog) (routes : Routes) : List Str :=
  (listed sh routes).filter fun w => decide (w ∉ (c.requests sh env).map fun req => req.name)

/-- A run that is not about an empty catalog puts its requests and drops what is stale. -/
theorem syncRun_eq {c : Catalog} (h : ∃ l ∈ serviceLines c.names, l ≠ []) (prior : Routes) :
    syncRun a sh env c prior =
      (prior.putAll (entriesOf a (c.requests sh env))).dropAll
        ((staleNames sh env c (prior.putAll (entriesOf a (c.requests sh env)))).map a.target) := by
  have hattempts : c.replies.attempts sh env =
      ((sh.words (serviceLines c.names)).flatMap fun s => serviceRequests env s (c.info s)).map fun req =>
        ⟨answered, req⟩ := loopAttempts_answered env c 0 _
  have hroutes : c.replies.routesListed a sh env prior = prior.putAll (entriesOf a (c.requests sh env)) := by
    rw [Replies.routesListed, hattempts, staticAttempts_answered, filterMap_entry, filterMap_entry, ← Dict.putAll_append,
      Catalog.requests, entriesOf, entriesOf, entriesOf, List.map_append]
  have hkept : syncedNames (c.replies.attempts sh env) ++ statics.map (fun s => routeName s.base) =
      (c.requests sh env).map fun req => req.name := by
    have hstatic : (staticRequests env).map (fun req => req.name) = statics.map fun s => routeName s.base := by
      rw [staticRequests, List.map_map]
      exact List.map_congr_left fun s _ => s.request_name env
    rw [hattempts, syncedNames_answered, Catalog.requests, List.map_append, hstatic]
  rw [syncRun, main_of_reaches (Catalog.reaches h), deleteStale_all a (fun _ => ⟨rfl, rfl⟩), hroutes, hkept, staleNames]

theorem mem_staleNames {c : Catalog} {routes : Routes} {w : Str} :
    w ∈ staleNames sh env c routes ↔ w ∈ listed sh routes ∧ w ∉ (c.requests sh env).map fun req => req.name := by
  rw [staleNames, List.mem_filter, decide_eq_true_iff]

/-- A route that is left over before the clean-up stays exactly when no stale name addresses it. -/
theorem get_syncRun {c : Catalog} (h : ∃ l ∈ serviceLines c.names, l ≠ []) (prior : Routes) (id : Str) (v : Stored) :
    (syncRun a sh env c prior).get id = some v ↔
      (prior.putAll (entriesOf a (c.requests sh env))).get id = some v ∧
        ∀ w ∈ staleNames sh env c (prior.putAll (entriesOf a (c.requests sh env))), a.target w ≠ id := by
  rw [syncRun_eq a sh env h, Dict.get_dropAll]
  by_cases hid : id ∈ (staleNames sh env c (prior.putAll (entriesOf a (c.requests sh env)))).map a.target
  · rw [if_pos hid]
    obtain ⟨w, hw, htarget⟩ := List.mem_map.mp hid
    constructor
    · intro h
      cases h
    · rintro ⟨_, hstale⟩
      exact absurd htarget (hstale w hw)
  · rw [if_neg hid]
    constructor
    · intro h
      exact ⟨h, fun w hw htarget => hid (List.mem_map.mpr ⟨w, hw, htarget⟩)⟩
    · exact fun h => h.1

/-- A run about an empty catalog ends at once. -/
theorem syncRun_empty {c : Catalog} (h : ¬ ∃ l ∈ serviceLines c.names, l ≠ []) (prior : Routes) :
    syncRun a sh env c prior = prior := by
  have hall : ((serviceLines c.names).all fun l => decide (l = [])) = true := by
    rw [List.all_eq_true]
    intro l hl
    apply decide_eq_true
    by_contra hne
    exact h ⟨l, hl, hne⟩
  rw [syncRun, main]
  dsimp only [Catalog.replies]
  rw [if_pos hall]

end Run

/-! ## Names -/

/-- The names of a service's routes without `_route`. -/
def serviceBases (serviceName : Str) (m : Meta) : List Str :=
  if (apiPath m).isSome then
    [serviceName] ++ (if serviceName = modelService then [mlflowBase] else []) ++ [serviceName ++ healthSuffix]
  else []

theorem names_serviceRequests (env : Settings) (s : Str) (m : Meta) :
    (serviceRequests env s m).map (fun req => req.name) = (serviceBases s m).map routeName := by
  rw [serviceRequests, serviceAttempts, serviceBases]
  dsimp only
  cases apiPath m with
  | none => rfl
  | some path =>
    by_cases hs : s = modelService
    · simp [hs, createOrUpdateRoute, createOrUpdateModelMlflowRoute, createOrUpdateHealthRoute, healthRouteName]
    · simp [hs, createOrUpdateRoute, createOrUpdateHealthRoute, healthRouteName]

theorem names_staticRequests (env : Settings) :
    (staticRequests env).map (fun req => req.name) = (statics.map Static.base).map routeName := by
  rw [staticRequests, List.map_map, List.map_map]
  exact List.map_congr_left fun s _ => s.request_name env

theorem routeName_injective {s t : Str} (h : routeName s = routeName t) : s = t := List.append_cancel_right h

/-- The service is in the catalog, is not Consul itself and has a path. -/
structure Catalog.Serves (c : Catalog) (serviceName : Str) : Prop where
  named : serviceName ∈ c.names
  notConsul : serviceName ≠ consulWord
  path : (apiPath (c.info serviceName)).isSome

/-- The names without `_route` that the catalog is to give. -/
def Catalog.bases (c : Catalog) : List Str :=
  (c.names.filter fun s => decide (s ≠ consulWord)).flatMap (fun s => serviceBases s (c.info s)) ++
    statics.map Static.base

/-- No served service is named as another one with `_health`, as a static route, or as the mlflow
route next to the model service. -/
structure Catalog.NoClash (c : Catalog) : Prop where
  health : ∀ s t, c.Serves s → c.Serves t → s ≠ t ++ healthSuffix
  static : ∀ s, c.Serves s → ∀ x ∈ statics, s ≠ x.base
  mlflow : c.Serves modelService → ¬ c.Serves mlflowBase

theorem mem_serviceBases {s b : Str} {m : Meta} :
    b ∈ serviceBases s m ↔ (apiPath m).isSome ∧
      (b = s ∨ (s = modelService ∧ b = mlflowBase) ∨ b = s ++ healthSuffix) := by
  rw [serviceBases]
  by_cases hp : (apiPath m).isSome
  · rw [if_pos hp]
    by_cases hs : s = modelService
    · simp [hs, hp]
    · simp [hs, hp]
  · rw [if_neg hp]
    simp [hp]

theorem ne_append_health (s : Str) : s ≠ s ++ healthSuffix := by
  intro h
  have hlen := congrArg List.length h
  rw [List.length_append] at hlen
  have hpos : 0 < healthSuffix.length := by decide
  omega

theorem mlflow_ne_health (s : Str) : mlflowBase ≠ s ++ healthSuffix := by
  intro h
  have hsuffix : healthSuffix <:+ mlflowBase := ⟨s, h.symm⟩
  exact absurd hsuffix (by decide)

theorem static_ne_health (x : Static) (s : Str) : x.base ≠ s ++ healthSuffix := by
  intro h
  have hsuffix : healthSuffix <:+ x.base := ⟨s, h.symm⟩
  revert hsuffix
  cases x <;> decide

theorem static_ne_mlflow (x : Static) : x.base ≠ mlflowBase := by
  cases x <;> decide

theorem nodup_serviceBases (s : Str) (m : Meta) : (serviceBases s m).Nodup := by
  rw [serviceBases]
  split
  · have hhealth := ne_append_health s
    split
    · rename_i hs
      have hne : s ≠ mlflowBase := by
        rw [hs]
        decide
      have hml := mlflow_ne_health s
      simp [hhealth, hne, hml]
    · simp [hhealth]
  · exact List.nodup_nil

theorem nodup_statics : (statics.map Static.base).Nodup := by decide

theorem serves_iff_mem {c : Catalog} {s b : Str} (hs : s ∈ c.names.filter fun s => decide (s ≠ consulWord))
    (hb : b ∈ serviceBases s (c.info s)) : c.Serves s := by
  rw [List.mem_filter] at hs
  exact ⟨hs.1, of_decide_eq_true hs.2, (mem_serviceBases.mp hb).1⟩

theorem Catalog.Serves.mem_filter {c : Catalog} {s : Str} (h : c.Serves s) :
    s ∈ c.names.filter fun s => decide (s ≠ consulWord) :=
  List.mem_filter.mpr ⟨h.named, decide_eq_true h.notConsul⟩

theorem disjoint_serviceBases {c : Catalog} (h : c.NoClash) {s t : Str} (hne : s ≠ t)
    (hs : s ∈ c.names.filter fun s => decide (s ≠ consulWord))
    (ht : t ∈ c.names.filter fun s => decide (s ≠ consulWord)) :
    List.Disjoint (serviceBases s (c.info s)) (serviceBases t (c.info t)) := by
  intro b hbs hbt
  have hserveS := serves_iff_mem hs hbs
  have hserveT := serves_iff_mem ht hbt
  rcases (mem_serviceBases.mp hbs).2 with rfl | ⟨hmodel, rfl⟩ | rfl
  · rcases (mem_serviceBases.mp hbt).2 with heq | ⟨rfl, heq⟩ | heq
    · exact hne heq
    · exact h.mlflow hserveT (heq ▸ hserveS)
    · exact h.health b t hserveS hserveT heq
  · rcases (mem_serviceBases.mp hbt).2 with heq | ⟨heq, _⟩ | heq
    · exact h.mlflow (hmodel ▸ hserveS) (heq ▸ hserveT)
    · exact hne (hmodel.trans heq.symm)
    · exact mlflow_ne_health t heq
  · rcases (mem_serviceBases.mp hbt).2 with heq | ⟨_, heq⟩ | heq
    · exact h.health t s hserveT hserveS heq.symm
    · exact mlflow_ne_health s heq.symm
    · exact hne (List.append_cancel_right heq)

/-- The names of the routes are distinct exactly when no two services, and no service and static
route, clash. -/
theorem nodup_bases_iff (c : Catalog) : c.bases.Nodup ↔ c.NoClash := by
  have hfilter : (c.names.filter fun s => decide (s ≠ consulWord)).Nodup := c.nodup.filter _
  rw [Catalog.bases, List.nodup_append', List.nodup_flatMap]
  constructor
  · rintro ⟨⟨_, hpair⟩, _, hdisj⟩
    have : Std.Symm (Function.onFun List.Disjoint fun s => serviceBases s (c.info s)) :=
      ⟨fun _ _ h => List.Disjoint.symm h⟩
    have hserve : ∀ {s t b : Str}, c.Serves s → c.Serves t → s ≠ t → b ∈ serviceBases s (c.info s) →
        b ∉ serviceBases t (c.info t) := by
      intro s t b hs ht hne hbs hbt
      exact hpair.forall hs.mem_filter ht.mem_filter hne hbs hbt
    refine ⟨?_, ?_, ?_⟩
    · intro s t hs ht heq
      have hne : s ≠ t := by
        intro hst
        exact ne_append_health t (hst ▸ heq)
      exact hserve hs ht hne (mem_serviceBases.mpr ⟨hs.path, Or.inl rfl⟩)
        (mem_serviceBases.mpr ⟨ht.path, Or.inr (Or.inr heq)⟩)
    · intro s hs x hx heq
      refine hdisj (List.mem_flatMap.mpr ⟨s, hs.mem_filter, mem_serviceBases.mpr ⟨hs.path, Or.inl rfl⟩⟩) ?_
      exact List.mem_map.mpr ⟨x, hx, heq.symm⟩
    · intro hmodel hml
      exact hserve hmodel hml (by decide) (mem_serviceBases.mpr ⟨hmodel.path, Or.inr (Or.inl ⟨rfl, rfl⟩)⟩)
        (mem_serviceBases.mpr ⟨hml.path, Or.inl rfl⟩)
  · intro h
    refine ⟨⟨fun s _ => nodup_serviceBases s _, ?_⟩, nodup_statics, ?_⟩
    · apply hfilter.pairwise_of_forall_ne
      intro s hs t ht hne
      exact disjoint_serviceBases h hne hs ht
    · intro b hb hstatic
      obtain ⟨s, hs, hbs⟩ := List.mem_flatMap.mp hb
      obtain ⟨x, hx, rfl⟩ := List.mem_map.mp hstatic
      have hserve := serves_iff_mem hs hbs
      rcases (mem_serviceBases.mp hbs).2 with heq | ⟨_, heq⟩ | heq
      · exact h.static s hserve x hx heq.symm
      · exact static_ne_mlflow x heq
      · exact static_ne_health x s heq

end IsaCloud.Gateway
