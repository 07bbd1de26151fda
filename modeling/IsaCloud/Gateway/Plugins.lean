import IsaCloud.Gateway.Convergence
import IsaCloud.Support.JsonSpelling

/-!
# Service plugins

A plugin manifest, its validators, the metadata its registry gives to Consul, and
what the route sync makes of them. The types of the fields are checked before the
validators, which is left out; errors stand in the order of the fields.
-/

namespace IsaCloud.Gateway

set_option autoImplicit false

open Support Support.Text

/-! ## Manifests -/

inductive PluginKind where
  | tool
  | agent
  | service
  | client
  deriving DecidableEq

def PluginKind.value : PluginKind → Str
  | .tool => lit "tool"
  | .agent => lit "agent"
  | .service => lit "service"
  | .client => lit "client"

structure ServiceBinding where
  apiPath : Str
  port : Int
  authRequired : Bool
  healthCheckType : Str

structure PluginManifest (F : Type) where
  id : Str
  name : Str
  version : Str
  kind : PluginKind
  description : Str
  tenant : Str
  scopes : List Str
  dependencies : List Str
  capabilities : Members F
  service : Option ServiceBinding

/-- Letter case and digits beyond ASCII. -/
class LetterTables where
  islower : CodePoint → Bool
  isdigit : CodePoint → Bool

section Validators
variable [LetterTables]

def islower (c : CodePoint) : Bool :=
  if c.val < 0x80 then decide (97 ≤ c.val ∧ c.val ≤ 122) else LetterTables.islower c

def isdigit (c : CodePoint) : Bool := if c.val < 0x80 then isDigit c else LetterTables.isdigit c

def isIdChar (c : CodePoint) : Bool := islower c || isdigit c || c == cp '_'

structure FieldError where
  path : List Str
  message : Str

def slash : CodePoint := 47

def rstripSlash (v : Str) : Str := (v.reverse.dropWhile fun c => c == slash).reverse

/-- `_path_leading_slash`. -/
def pathLeadingSlash (v : Str) : Except FieldError Str :=
  if v.head? = some slash then .ok (rstripSlash v)
  else .error ⟨[lit "service", lit "api_path"], lit "api_path must start with '/'"⟩

/-- `ge=1, le=65535`. -/
def portRange (v : Int) : Except FieldError Int :=
  if v < 1 then .error ⟨[lit "service", lit "port"], lit "Input should be greater than or equal to 1"⟩
  else if 65535 < v then .error ⟨[lit "service", lit "port"], lit "Input should be less than or equal to 65535"⟩
  else .ok v

/-- `_health_kind`. -/
def healthKind (v : Str) : Except FieldError Str :=
  if v = lit "ttl" ∨ v = lit "http" then .ok v
  else .error ⟨[lit "service", lit "health_check_type"], lit "health_check_type must be 'ttl' or 'http'"⟩

/-- `_id_shape`. -/
def idShape (v : Str) : Except FieldError Str :=
  if v = [] ∨ ¬ v.all isIdChar = true then
    .error ⟨[lit "id"], lit "id must be lowercase letters/digits/underscores"⟩
  else .ok v

def failure {X : Type} : Except FieldError X → List FieldError
  | .ok _ => []
  | .error e => [e]

def validateBinding (b : ServiceBinding) : Except (List FieldError) ServiceBinding :=
  match pathLeadingSlash b.apiPath, portRange b.port, healthKind b.healthCheckType with
  | .ok path, .ok port, .ok kind => .ok ⟨path, port, b.authRequired, kind⟩
  | path, port, kind => .error (failure path ++ failure port ++ failure kind)

def validateService : Option ServiceBinding → Except (List FieldError) (Option ServiceBinding)
  | none => .ok none
  | some b =>
    match validateBinding b with
    | .ok b => .ok (some b)
    | .error es => .error es

/-- `load_manifest` of a mapping: the field validators, then `_require_service_binding`. -/
def loadManifest {F : Type} (source : PluginManifest F) : Except (List FieldError) (PluginManifest F) :=
  match idShape source.id, validateService source.service with
  | .ok id, .ok service =>
    if source.kind = .service ∧ service = none then
      .error [⟨[], lit "kind=service requires a `service:` binding block"⟩]
    else .ok { source with id := id, service := service }
  | id, .ok _ => .error (failure id)
  | id, .error es => .error (failure id ++ es)

omit [LetterTables] in
theorem validateService_ok {o o' : Option ServiceBinding} (h : validateService o = .ok o') {b : ServiceBinding}
    (hb : o' = some b) : ∃ v, b.apiPath = rstripSlash v ∧ v.head? = some slash := by
  cases o with
  | none =>
    cases h
    cases hb
  | some raw =>
    rw [validateService, validateBinding] at h
    cases hpath : pathLeadingSlash raw.apiPath with
    | error e =>
      rw [hpath] at h
      cases h
    | ok path =>
      cases hport : portRange raw.port with
      | error e =>
        rw [hpath, hport] at h
        cases h
      | ok port =>
        cases hkind : healthKind raw.healthCheckType with
        | error e =>
          rw [hpath, hport, hkind] at h
          cases h
        | ok kind =>
          rw [hpath, hport, hkind] at h
          cases h
          cases hb
          rw [pathLeadingSlash] at hpath
          split at hpath
          · rename_i hslash
            exact ⟨raw.apiPath, (Except.ok.inj hpath).symm, hslash⟩
          · cases hpath

/-- An accepted manifest has an id of its characters, and a service plugin has a binding. -/
theorem loadManifest_ok {F : Type} {source m : PluginManifest F} (h : loadManifest source = .ok m) :
    m.id ≠ [] ∧ m.id.all isIdChar = true ∧ (m.kind = .service → m.service ≠ none) ∧
      ∀ b, m.service = some b → ∃ v, b.apiPath = rstripSlash v ∧ v.head? = some slash := by
  rw [loadManifest] at h
  cases hid : idShape source.id with
  | error e =>
    rw [hid] at h
    cases hs : validateService source.service with
    | error es =>
      rw [hs] at h
      cases h
    | ok s =>
      rw [hs] at h
      cases h
  | ok id =>
    rw [hid] at h
    cases hs : validateService source.service with
    | error es =>
      rw [hs] at h
      cases h
    | ok s =>
      rw [hs] at h
      dsimp only at h
      split at h
      · cases h
      · rename_i hbind
        cases h
        rw [idShape] at hid
        split at hid
        · cases hid
        · rename_i hshape
          rw [not_or, not_not] at hshape
          cases hid
          exact ⟨hshape.1, hshape.2, fun hk hn => hbind ⟨hk, hn⟩, fun b hb => validateService_ok hs hb⟩

end Validators

/-! ## Registration -/

section Registry
variable {F : Type} [PyFloat F]

def joinScopes : List Str → Str
  | [] => []
  | [s] => s
  | s :: rest => s ++ lit "," ++ joinScopes rest

/-- The `meta` that `PluginServiceRegistry` registers. -/
def registeredMeta (m : PluginManifest F) (svc : ServiceBinding) : Meta :=
  let meta' : Meta := (((((Dict.empty.set (lit "plugin_id") m.id).set (lit "plugin_kind") m.kind.value).set
    (lit "plugin_version") m.version).set (lit "tenant") m.tenant).set (lit "api_path") svc.apiPath).set
    (lit "auth_required") (if svc.authRequired then lit "true" else lit "false")
  let meta' := if m.scopes = [] then meta' else meta'.set (lit "plugin_scopes") (joinScopes m.scopes)
  if m.capabilities.isEmpty then meta' else meta'.set (lit "plugin_capabilities") (Json.compact (.obj m.capabilities))

theorem registeredMeta_get (m : PluginManifest F) (svc : ServiceBinding) :
    (registeredMeta m svc).get (lit "api_path") = some svc.apiPath ∧
      (registeredMeta m svc).get (lit "auth_required") = some (if svc.authRequired then lit "true" else lit "false") ∧
      (registeredMeta m svc).get (lit "rate_limit") = none := by
  have hpath : lit "api_path" ≠ lit "plugin_scopes" ∧ lit "api_path" ≠ lit "plugin_capabilities" ∧
      lit "api_path" ≠ lit "auth_required" := by decide
  have hauth : lit "auth_required" ≠ lit "plugin_scopes" ∧ lit "auth_required" ≠ lit "plugin_capabilities" := by decide
  have hrate : lit "rate_limit" ≠ lit "plugin_scopes" ∧ lit "rate_limit" ≠ lit "plugin_capabilities" ∧
      lit "rate_limit" ≠ lit "auth_required" ∧ lit "rate_limit" ≠ lit "api_path" ∧ lit "rate_limit" ≠ lit "tenant" ∧
      lit "rate_limit" ≠ lit "plugin_version" ∧ lit "rate_limit" ≠ lit "plugin_kind" ∧
      lit "rate_limit" ≠ lit "plugin_id" := by decide
  rw [registeredMeta]
  by_cases hs : m.scopes = []
  · by_cases hc : m.capabilities.isEmpty = true
    · simp [hs, hc, Dict.get_set, hpath, hrate]
    · simp [hs, hc, Dict.get_set, hpath, hauth, hrate]
  · by_cases hc : m.capabilities.isEmpty = true
    · simp [hs, hc, Dict.get_set, hpath, hauth, hrate]
    · simp [hs, hc, Dict.get_set, hpath, hauth, hrate]

/-- The constructor of the registry takes service plugins only. -/
def pluginMeta (m : PluginManifest F) : Option Meta :=
  if m.kind = .service then m.service.map (registeredMeta m) else none

/-- The registry has registered the plugin as the only instance of its id. -/
structure Catalog.Holds (c : Catalog) (m : PluginManifest F) : Prop where
  named : m.id ∈ c.names
  info : pluginMeta m = some (c.info m.id)

theorem Catalog.Holds.info_eq {c : Catalog} {m : PluginManifest F} (h : c.Holds m) {svc : ServiceBinding}
    (hsvc : m.service = some svc) : c.info m.id = registeredMeta m svc := by
  have hinfo := h.info
  rw [pluginMeta, hsvc] at hinfo
  split at hinfo
  · exact (Option.some.inj hinfo).symm
  · cases hinfo

end Registry

/-! ## The route of a plugin -/

def Upstream.service : Upstream → Option Str
  | .consul service _ _ _ => some service
  | .nodes _ _ _ => none

/-- What the claim says of a request. -/
structure PluginRequest (id : Str) (svc : ServiceBinding) (req : Request) : Prop where
  name : req.name = routeName id
  uris : req.route.uris = [svc.apiPath, svc.apiPath ++ lit "/*"]
  upstream : req.route.upstream.service = some id
  auth : .jwtAuth ∈ req.route.plugins ↔ svc.authRequired = true

theorem jwtAuth_mem (env : Settings) (s path auth rate : Str) :
    .jwtAuth ∈ (createOrUpdateRoute env s path auth rate).route.plugins ↔ auth = lit "true" := by
  have hbreaker : .jwtAuth ∉ breaker s := by
    rw [breaker]
    split
    · simp
    · split
      · simp
      · simp
  by_cases hs : s = mcpService
  · by_cases ha : auth = lit "true"
    · simp [createOrUpdateRoute, hs, ha]
    · simpa [createOrUpdateRoute, hs, ha] using hs ▸ hbreaker
  · by_cases ha : auth = lit "true"
    · simp [createOrUpdateRoute, hs, ha]
    · simpa [createOrUpdateRoute, hs, ha] using hbreaker

theorem static_upstream (env : Settings) (x : Static) :
    (x.request env).route.upstream.service = none ∨ (x.request env).route.uris.length = 1 := by
  cases x with
  | mate => exact Or.inl rfl
  | app => exact Or.inl rfl
  | console => exact Or.inl rfl
  | docs => exact Or.inl rfl
  | loginCookie => exact Or.inr rfl
  | refreshCookie => exact Or.inr rfl
  | verifyCookie => exact Or.inr rfl
  | protectedResource => exact Or.inr rfl
  | authorizationServer => exact Or.inr rfl

section Exposes
variable {F : Type} (a : Apisix) (sh : Shell) (env : Settings)

/-- The run sends the request of the plugin, and its route is there in the end. -/
def Exposes (c : Catalog) (prior : Routes) (m : PluginManifest F) (svc : ServiceBinding) : Prop :=
  ∃ req ∈ c.requests sh env, PluginRequest m.id svc req ∧
    (syncRun a sh env c prior).get (a.target req.name) = some (.synced req.route)

def authText (svc : ServiceBinding) : Str := if svc.authRequired then lit "true" else lit "false"

def pluginRequest (m : PluginManifest F) (svc : ServiceBinding) : Request :=
  createOrUpdateRoute env m.id svc.apiPath (authText svc) (lit "100")

/-- The id is a word of the filtered catalog, the path is not empty and has no line feed at its end,
the last request that addresses the route is kept as the plugin's, and no stale name addresses it. -/
structure Routed (c : Catalog) (prior : Routes) (m : PluginManifest F) (svc : ServiceBinding) : Prop where
  shown : m.id ∈ sh.words (serviceLines c.names)
  path : svc.apiPath ≠ [] ∧ svc.apiPath.getLast? ≠ some 10
  last : ∃ pre req post, c.requests sh env = pre ++ req :: post ∧ a.target req.name = a.target (routeName m.id) ∧
    (∀ x ∈ post, a.target x.name ≠ a.target (routeName m.id)) ∧ a.kept req = .synced (pluginRequest env m svc).route
  stays : ∀ w ∈ staleNames sh env c (prior.putAll (entriesOf a (c.requests sh env))),
    a.target w ≠ a.target (routeName m.id)

variable {a sh env}

theorem substitution_eq_self {s : Str} : substitution s = s ↔ s.getLast? ≠ some 10 := by
  have hreverse : substitution s = s ↔ s.reverse.dropWhile (fun c => c == 10) = s.reverse := by
    rw [substitution]
    exact List.reverse_eq_iff
  rw [hreverse, List.getLast?_eq_head?_reverse]
  cases s.reverse with
  | nil => simp
  | cons c rest =>
    by_cases hc : c = 10
    · subst hc
      constructor
      · intro h
        have hlen := congrArg List.length h
        rw [List.dropWhile_cons, if_pos (beq_self_eq_true _), List.length_cons] at hlen
        have hle := (List.dropWhile_suffix (l := rest) fun c => c == 10).length_le
        omega
      · intro h
        exact absurd rfl h
    · have hne : ¬ (c == 10) = true := by simpa using hc
      rw [List.dropWhile_cons, if_neg hne]
      simpa using hc

theorem rstripSlash_head {v : Str} (h : v.head? = some slash) : rstripSlash v = [] ∨ (rstripSlash v).head? = some slash := by
  have hprefix : rstripSlash v <+: v := by
    have hsuffix := List.dropWhile_suffix (l := v.reverse) fun c => c == slash
    have hrev := List.reverse_prefix.mpr hsuffix
    rwa [List.reverse_reverse] at hrev
  obtain ⟨t, ht⟩ := hprefix
  cases hs : rstripSlash v with
  | nil => exact Or.inl rfl
  | cons c rest =>
    rw [hs] at ht
    rw [← ht] at h
    exact Or.inr h

/-- The path the script finds is the registered one exactly when this is not empty and has no line
feed at its end. -/
theorem apiPath_registered [PyFloat F] (m : PluginManifest F) {svc : ServiceBinding} {v : Str}
    (hpath : svc.apiPath = rstripSlash v) (hv : v.head? = some slash) :
    apiPath (registeredMeta m svc) = some svc.apiPath ↔ svc.apiPath ≠ [] ∧ svc.apiPath.getLast? ≠ some 10 := by
  have htext : pathText (registeredMeta m svc) = substitution svc.apiPath := by
    rw [pathText, (registeredMeta_get m svc).1]
    rfl
  rw [apiPath, htext]
  constructor
  · intro h
    split at h
    · cases h
    · rename_i hne
      rw [not_or] at hne
      have heq := Option.some.inj h
      rw [heq] at hne
      exact ⟨hne.1, substitution_eq_self.mp heq⟩
  · rintro ⟨hne, hlast⟩
    rw [substitution_eq_self.mpr hlast, if_neg]
    rintro (hnil | hnull)
    · exact hne hnil
    · rcases rstripSlash_head hv with hnil | hhead
      · exact hne (hpath.trans hnil)
      · rw [← hpath, hnull] at hhead
        exact absurd hhead (by decide)

theorem mem_requests_iff {c : Catalog} {req : Request} :
    req ∈ c.requests sh env ↔
      (∃ t ∈ sh.words (serviceLines c.names), req ∈ serviceRequests env t (c.info t)) ∨
        ∃ x ∈ statics, req = x.request env := by
  rw [Catalog.requests, List.mem_append, List.mem_flatMap, staticRequests, List.mem_map]
  apply or_congr_right
  constructor
  · rintro ⟨x, hx, rfl⟩
    exact ⟨x, hx, rfl⟩
  · rintro ⟨x, hx, rfl⟩
    exact ⟨x, hx, rfl⟩

theorem mem_serviceRequests {t : Str} {m : Meta} {req : Request} :
    req ∈ serviceRequests env t m ↔ ∃ path, apiPath m = some path ∧
      (req = createOrUpdateRoute env t path (authRequired m) (rateLimit m) ∨
        (t = modelService ∧ req = createOrUpdateModelMlflowRoute env) ∨ req = createOrUpdateHealthRoute env t path) := by
  rw [serviceRequests, serviceAttempts]
  dsimp only
  cases apiPath m with
  | none => simp
  | some path =>
    by_cases ht : t = modelService
    · simp [ht]
    · simp [ht]

/-- Among the requests of a run only the main one of the plugin is as claimed. -/
theorem pluginRequest_of_mem {c : Catalog} {id : Str} {svc : ServiceBinding} {req : Request}
    (hmem : req ∈ c.requests sh env) (h : PluginRequest id svc req) :
    id ∈ sh.words (serviceLines c.names) ∧ apiPath (c.info id) = some svc.apiPath ∧
      req = createOrUpdateRoute env id svc.apiPath (authRequired (c.info id)) (rateLimit (c.info id)) := by
  rcases mem_requests_iff.mp hmem with ⟨t, ht, hreq⟩ | ⟨x, _, rfl⟩
  · obtain ⟨path, hpath, rfl | ⟨rfl, rfl⟩ | rfl⟩ := mem_serviceRequests.mp hreq
    · have hid : t = id := routeName_injective h.name
      subst hid
      have hp : path = svc.apiPath := (List.cons.inj h.uris).1
      subst hp
      exact ⟨ht, hpath, rfl⟩
    · have hid : mlflowBase = id := routeName_injective h.name
      have hservice : modelService = id := Option.some.inj h.upstream
      exact absurd (hid.trans hservice.symm) (by decide)
    · have hlen := congrArg List.length h.uris
      exact absurd hlen (by simp [createOrUpdateHealthRoute])
  · rcases static_upstream env x with hnone | hone
    · have hsome := h.upstream
      rw [hnone] at hsome
      cases hsome
    · rw [h.uris] at hone
      exact absurd hone (by simp)

theorem visible_of_word {c : Catalog} {w : Str} (h : w ∈ sh.words (serviceLines c.names)) :
    ∃ l ∈ serviceLines c.names, l ≠ [] := by
  rw [Shell.words, List.mem_flatMap] at h
  obtain ⟨f, hf, _⟩ := h
  obtain ⟨l, hl, hfl⟩ := List.mem_flatMap.mp hf
  refine ⟨l, hl, ?_⟩
  rintro rfl
  rw [fields, List.splitOnP_nil] at hfl
  cases hfl

theorem exists_last_request {reqs : List Request} {t : Str} (h : t ∈ reqs.map fun req => a.target req.name) :
    ∃ pre req post, reqs = pre ++ req :: post ∧ a.target req.name = t ∧ ∀ x ∈ post, a.target x.name ≠ t := by
  induction reqs with
  | nil => cases h
  | cons req reqs ih =>
    by_cases hrest : t ∈ reqs.map fun req => a.target req.name
    · obtain ⟨pre, last, post, rfl, hlast, hpost⟩ := ih hrest
      exact ⟨req :: pre, last, post, rfl, hlast, hpost⟩
    · rcases List.mem_cons.mp h with rfl | h
      · exact ⟨[], req, reqs, rfl, rfl, fun x hx hxt => hrest (List.mem_map.mpr ⟨x, hx, hxt⟩)⟩
      · exact absurd h hrest

theorem get_putAll_requests {prior : Routes} {pre post : List Request} {req : Request} {t : Str}
    (ht : a.target req.name = t) (hpost : ∀ x ∈ post, a.target x.name ≠ t) :
    (prior.putAll (entriesOf a (pre ++ req :: post))).get t = some (a.kept req) := by
  rw [entriesOf, List.map_append, List.map_cons, ht]
  apply Dict.get_putAll_last
  intro hmem
  rw [List.map_map, List.mem_map] at hmem
  obtain ⟨x, hx, hxt⟩ := hmem
  exact hpost x hx hxt

/-- For an accepted manifest whose plugin is registered, the run gives it the claimed route exactly
when its id passes the filter, its path reads back, and nothing else takes the route's place. -/
theorem exposes_iff [LetterTables] [PyFloat F] {source m : PluginManifest F} (h : loadManifest source = .ok m)
    {svc : ServiceBinding} (hsvc : m.service = some svc) {c : Catalog} (hholds : c.Holds m) (prior : Routes) :
    Exposes a sh env c prior m svc ↔ Routed a sh env c prior m svc := by
  obtain ⟨v, hv, hslash⟩ := (loadManifest_ok h).2.2.2 svc hsvc
  have hinfo := hholds.info_eq hsvc
  have hauth : authRequired (registeredMeta m svc) = authText svc := by
    rw [authRequired, (registeredMeta_get m svc).2.1, authText]
    cases svc.authRequired with
    | true => decide
    | false => decide
  have hrate : rateLimit (registeredMeta m svc) = lit "100" := by
    rw [rateLimit, (registeredMeta_get m svc).2.2]
    decide
  constructor
  · rintro ⟨req, hmem, hreq, hget⟩
    obtain ⟨hshown, hpath, heq⟩ := pluginRequest_of_mem hmem hreq
    rw [hinfo, hauth, hrate] at heq
    rw [hinfo] at hpath
    rw [hreq.name] at hget
    obtain ⟨hput, hstays⟩ := (get_syncRun a sh env (visible_of_word hshown) prior _ _).mp hget
    refine ⟨hshown, (apiPath_registered m hv hslash).mp hpath, ?_, hstays⟩
    have hkey : a.target (routeName m.id) ∈ (c.requests sh env).map fun req => a.target req.name := by
      rw [← hreq.name]
      exact List.mem_map_of_mem hmem
    obtain ⟨pre, last, post, hsplit, hlast, hpost⟩ := exists_last_request hkey
    refine ⟨pre, last, post, hsplit, hlast, hpost, ?_⟩
    rw [hsplit, get_putAll_requests hlast hpost] at hput
    rw [pluginRequest, ← heq]
    exact Option.some.inj hput
  · intro hr
    have hpath := (apiPath_registered m hv hslash).mpr hr.path
    have hmem : pluginRequest env m svc ∈ c.requests sh env := by
      refine mem_requests_iff.mpr (Or.inl ⟨m.id, hr.shown, mem_serviceRequests.mpr ⟨svc.apiPath, ?_, Or.inl ?_⟩⟩)
      · rw [hinfo]
        exact hpath
      · rw [hinfo, hauth, hrate]
        rfl
    refine ⟨pluginRequest env m svc, hmem, ⟨rfl, rfl, rfl, ?_⟩, ?_⟩
    · rw [pluginRequest, jwtAuth_mem, authText]
      cases svc.authRequired with
      | true => decide
      | false => decide
    · obtain ⟨pre, last, post, hsplit, hlast, hpost, hkept⟩ := hr.last
      rw [get_syncRun a sh env (visible_of_word hr.shown)]
      refine ⟨?_, hr.stays⟩
      have hname : (pluginRequest env m svc).name = routeName m.id := rfl
      rw [hname, hsplit, get_putAll_requests hlast hpost, hkept]

end Exposes

/-! ## Two manifests -/

section Example

@[reducible] def asciiLetters : LetterTables := ⟨fun _ => false, fun _ => false⟩

attribute [local instance] asciiLetters

def sourceOf (id path : Str) : PluginManifest Unit where
  id := id
  name := id
  version := lit "1.0.0"
  kind := .service
  description := []
  tenant := lit "platform"
  scopes := []
  dependencies := []
  capabilities := []
  service := some ⟨path, 8080, true, lit "ttl"⟩

def catalogOf (m : PluginManifest Unit) (svc : ServiceBinding) : Catalog :=
  ⟨[m.id], List.nodup_singleton _, fun _ => registeredMeta m svc⟩

def erpBinding : ServiceBinding := ⟨lit "/api/v1/plugins/erp", 8080, true, lit "ttl"⟩

def erpManifest : PluginManifest Unit := sourceOf (lit "sn_erp") erpBinding.apiPath

theorem erp_exposed :
    Exposes plainApisix plainShell noSettings (catalogOf erpManifest erpBinding) Dict.empty erpManifest erpBinding := by
  have hload : loadManifest (sourceOf (lit "sn_erp") (lit "/api/v1/plugins/erp/")) = .ok erpManifest := rfl
  have hstale : staleNames plainShell noSettings (catalogOf erpManifest erpBinding)
      (Dict.empty.putAll (entriesOf plainApisix ((catalogOf erpManifest erpBinding).requests plainShell noSettings))) = [] := by
    decide
  refine (exposes_iff hload rfl ⟨List.mem_singleton_self _, rfl⟩ Dict.empty).mpr ⟨by decide, by decide, ?_, ?_⟩
  · refine ⟨[], pluginRequest noSettings erpManifest erpBinding,
      createOrUpdateHealthRoute noSettings (lit "sn_erp") (lit "/api/v1/plugins/erp") :: staticRequests noSettings,
      rfl, rfl, ?_, ?_⟩
    · have hnames : ((createOrUpdateHealthRoute noSettings (lit "sn_erp") (lit "/api/v1/plugins/erp") ::
          staticRequests noSettings).all fun x => decide (x.name ≠ routeName (lit "sn_erp"))) = true := by
        decide
      intro x hx
      exact of_decide_eq_true (List.all_eq_true.mp hnames x hx)
    · exact (plainApisix.kept_eq_iff _).mpr (by decide)
  · rw [hstale]
    exact fun _ hw => (nomatch hw)

def toolsBinding : ServiceBinding := ⟨lit "/api/v1/tools", 8080, true, lit "ttl"⟩

def toolsManifest : PluginManifest Unit := sourceOf (lit "consul_tools") toolsBinding.apiPath

/-- An accepted and registered plugin that the filter drops. -/
theorem consul_tools_not_exposed :
    loadManifest (sourceOf (lit "consul_tools") (lit "/api/v1/tools")) = .ok toolsManifest ∧
      (catalogOf toolsManifest toolsBinding).Holds toolsManifest ∧
      ¬ Exposes plainApisix plainShell noSettings (catalogOf toolsManifest toolsBinding) Dict.empty toolsManifest
        toolsBinding := by
  refine ⟨rfl, ⟨List.mem_singleton_self _, rfl⟩, ?_⟩
  rintro ⟨req, hmem, hreq, _⟩
  have hshown := (pluginRequest_of_mem hmem hreq).1
  revert hshown
  decide

end Example

end IsaCloud.Gateway
