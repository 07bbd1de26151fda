import IsaCloud.Gateway.Catalog

/-!
# Convergence of the route sync

For catalogs whose names are words over letters, digits, `_` and `-`: when a run
without failures ends with exactly the routes the catalog is to have.
-/

namespace IsaCloud.Gateway

set_option autoImplicit false

open Support Support.Text

def isServiceChar (c : CodePoint) : Bool :=
  decide (97 ≤ c.val ∧ c.val ≤ 122) || isDigit c || c == cp '_' || c == cp '-'

structure WordCatalog extends Catalog where
  word : ∀ s ∈ names, s ≠ [] ∧ s.all isServiceChar = true

/-! ## Plain words -/

theorem isRouteChar_of_service {c : CodePoint} (h : isServiceChar c = true) : isRouteChar c = true := by
  rw [isServiceChar] at h
  rw [isRouteChar]
  simp only [Bool.or_eq_true] at h ⊢
  tauto

theorem routeChar_ne {c x : CodePoint} (h : isRouteChar c = true) (hx : isRouteChar x = false) : c ≠ x := by
  rintro rfl
  rw [h] at hx
  cases hx

/-- A code point that is no line end, no blank and no pattern for the shell. -/
def shellPlain (c : CodePoint) : Bool := c != 10 && !isBlank c && !(lit "*?[\\").contains c

theorem shellPlain_of_route {c : CodePoint} (h : isRouteChar c = true) : shellPlain c = true := by
  have hend : (c != 10) = true := bne_iff_ne.mpr (routeChar_ne h (by decide))
  have hspace : (c == 32) = false := beq_eq_false_iff_ne.mpr (routeChar_ne h (by decide))
  have htab : (c == 9) = false := beq_eq_false_iff_ne.mpr (routeChar_ne h (by decide))
  have hpattern : (lit "*?[\\").contains c = false := by
    rw [List.contains_eq_mem, decide_eq_false_iff_not]
    intro hmem
    have hnone : (lit "*?[\\").all (fun x => !isRouteChar x) = true := by decide
    have hc := List.all_eq_true.mp hnone c hmem
    rw [h] at hc
    cases hc
  rw [shellPlain, isBlank, hend, hspace, htab, hpattern]
  rfl

theorem all_shellPlain {w : Str} (h : w.all isRouteChar = true) : w.all shellPlain = true := by
  rw [List.all_eq_true] at h ⊢
  exact fun c hc => shellPlain_of_route (h c hc)

theorem shellPlain_iff {c : CodePoint} :
    shellPlain c = true ↔ c ≠ 10 ∧ isBlank c = false ∧ c ∉ lit "*?[\\" := by
  rw [shellPlain, Bool.and_eq_true, Bool.and_eq_true, bne_iff_ne, Bool.not_eq_true', Bool.not_eq_true',
    List.contains_eq_mem, decide_eq_false_iff_not, and_assoc]

theorem printed_plain {w : Str} (h : w.all shellPlain = true) : printed [w] = [w] := by
  have hsplit : w.splitOnP (fun c => c == 10) = [w] := by
    apply List.splitOnP_eq_singleton
    intro c hc
    exact beq_eq_false_iff_ne.mpr (shellPlain_iff.mp (List.all_eq_true.mp h c hc)).1
  rw [printed, List.flatMap_cons, List.flatMap_nil, hsplit, List.append_nil]

theorem fields_plain {w : Str} (h : w.all shellPlain = true) (hne : w ≠ []) : fields w = [w] := by
  have hsplit : w.splitOnP isBlank = [w] := by
    apply List.splitOnP_eq_singleton
    intro c hc
    exact (shellPlain_iff.mp (List.all_eq_true.mp h c hc)).2.1
  have hkeep : decide (w ≠ []) = true := decide_eq_true hne
  rw [fields, hsplit, List.filter_cons, if_pos hkeep, List.filter_nil]

theorem glob_shellPlain (sh : Shell) {w : Str} (h : w.all shellPlain = true) : sh.glob w = [w] := by
  apply sh.glob_plain
  intro c hc
  exact (shellPlain_iff.mp (List.all_eq_true.mp h c hc)).2.2

theorem words_plain (sh : Shell) {lines : List Str} (h : ∀ l ∈ lines, l.all shellPlain = true ∧ l ≠ []) :
    sh.words lines = lines := by
  induction lines with
  | nil => rfl
  | cons l lines ih =>
    have hl := h l (List.mem_cons_self ..)
    have hrest : (lines.flatMap fields).flatMap sh.glob = lines := ih fun x hx => h x (List.mem_cons_of_mem _ hx)
    rw [Shell.words, List.flatMap_cons, fields_plain hl.1 hl.2, List.flatMap_append, hrest, List.flatMap_cons,
      List.flatMap_nil, glob_shellPlain sh hl.1]
    rfl

/-- The words listed for one route. -/
def listedWords (sh : Shell) (name : Str) : List Str := sh.words (routeLines [name])

theorem mem_listed {sh : Shell} {routes : Routes} {w : Str} :
    w ∈ listed sh routes ↔ ∃ id v, routes.get id = some v ∧ w ∈ listedWords sh v.name := by
  have hlines : ∀ l, l ∈ routeLines (storedNames routes) ↔ ∃ id v, routes.get id = some v ∧ l ∈ routeLines [v.name] := by
    intro l
    rw [routeLines, List.mem_filter, printed, List.mem_flatMap]
    constructor
    · rintro ⟨⟨n, hn, hl⟩, hroute⟩
      obtain ⟨e, he, rfl⟩ := List.mem_map.mp hn
      refine ⟨e.1, e.2, Dict.mem_entries_iff.mp he, List.mem_filter.mpr ⟨?_, hroute⟩⟩
      exact List.mem_flatMap.mpr ⟨_, List.mem_singleton_self _, hl⟩
    · rintro ⟨id, v, hv, hl⟩
      rw [routeLines, List.mem_filter, printed, List.mem_flatMap] at hl
      obtain ⟨⟨n, hn, hl⟩, hroute⟩ := hl
      rw [List.mem_singleton.mp hn] at hl
      exact ⟨⟨v.name, List.mem_map.mpr ⟨(id, v), Dict.mem_entries_iff.mpr hv, rfl⟩, hl⟩, hroute⟩
  simp only [listed, listedWords, Shell.words, List.mem_flatMap]
  constructor
  · rintro ⟨f, ⟨l, hl, hf⟩, hw⟩
    obtain ⟨id, v, hv, hl⟩ := (hlines l).mp hl
    exact ⟨id, v, hv, f, ⟨l, hl, hf⟩, hw⟩
  · rintro ⟨id, v, hv, f, ⟨l, hl, hf⟩, hw⟩
    exact ⟨f, ⟨l, (hlines l).mpr ⟨id, v, hv, hl⟩, hf⟩, hw⟩

theorem listedWords_plain (sh : Shell) {b : Str} (h : b.all isRouteChar = true) :
    listedWords sh (routeName b) = [routeName b] := by
  have hplain : (routeName b).all isRouteChar = true := by
    rw [routeName, List.all_append, h]
    decide
  have hne : routeName b ≠ [] := List.append_ne_nil_of_right_ne_nil b (by decide)
  have hline : routeLines [routeName b] = [routeName b] := by
    have hroute : decide (routeSuffix <:+ routeName b) = true := decide_eq_true ⟨b, rfl⟩
    rw [routeLines, printed_plain (all_shellPlain hplain), List.filter_cons, if_pos hroute, List.filter_nil]
  rw [listedWords, hline, words_plain sh]
  intro l hl
  rw [List.mem_singleton.mp hl]
  exact ⟨all_shellPlain hplain, hne⟩

/-! ## What the catalog is to give -/

section Converges
variable (a : Apisix) (sh : Shell) (env : Settings)

/-- The main and the health route of every service that is served, and of the model service the
mlflow route, and the static routes. -/
def Catalog.expected (c : Catalog) : List Request :=
  (c.names.filter fun s => decide (s ≠ consulWord)).flatMap (fun s => serviceRequests env s (c.info s)) ++
    staticRequests env

def Managed (v : Stored) : Prop := routeSuffix <:+ v.name

/-- The managed routes are the expected ones. -/
def Catalog.Right (c : Catalog) (routes : Routes) : Prop :=
  ∀ id v, (routes.get id = some v ∧ Managed v) ↔ ∃ req ∈ c.expected env, id = req.name ∧ v = .synced req.route

structure Converges (c : Catalog) (prior : Routes) : Prop where
  managed : c.Right env (syncRun a sh env c prior)
  distinct : ((c.expected env).map fun req => req.name).Nodup
  stable : syncRun a sh env c (syncRun a sh env c prior) = syncRun a sh env c prior

/-! ## The condition -/

/-- The routes no request of the catalog is about. -/
def Catalog.leftover (c : Catalog) (prior : Routes) : Routes :=
  prior.restrict fun id => decide (id ∉ (c.expected env).map fun req => req.name)

/-- What is left over is listed under names that address it, and under none that addresses an
expected route. -/
structure Catalog.Tidy (c : Catalog) (prior : Routes) : Prop where
  addressed : ∀ id v, (c.leftover env prior).get id = some v → Managed v →
    ∃ w ∈ listed sh (c.leftover env prior), w ∉ ((c.expected env).map fun req => req.name) ∧ a.target w = id
  apart : ∀ w ∈ listed sh (c.leftover env prior), w ∉ ((c.expected env).map fun req => req.name) →
    a.target w ∉ (c.expected env).map fun req => req.name

/-- The catalog names a service that the filter leaves. -/
def Catalog.Visible (c : Catalog) : Prop := ∃ s ∈ c.names, ¬ consulWord <:+: s

structure Catalog.Fits (c : Catalog) (prior : Routes) : Prop where
  shown : ∀ s, c.Serves s → ¬ consulWord <:+: s
  noClash : c.NoClash
  clean : ∀ req ∈ c.expected env, req.clean a.isNumber = true
  tidy : c.Tidy a sh env prior

variable {a sh env}

theorem names_expected (c : Catalog) :
    ((c.expected env).map fun req => req.name) = c.bases.map routeName := by
  rw [Catalog.expected, Catalog.bases, List.map_append, List.map_append, names_staticRequests]
  congr 1
  rw [List.map_flatMap, List.map_flatMap]
  exact List.flatMap_congr fun s _ => names_serviceRequests env s (c.info s)

theorem nodup_expected_iff (c : Catalog) : ((c.expected env).map fun req => req.name).Nodup ↔ c.NoClash := by
  rw [names_expected, ← nodup_bases_iff]
  exact List.nodup_map_iff fun _ _ => routeName_injective

theorem plain_bases (c : WordCatalog) {b : Str} (h : b ∈ c.bases) : b.all isRouteChar = true := by
  rcases List.mem_append.mp h with h | h
  · obtain ⟨s, hs, hb⟩ := List.mem_flatMap.mp h
    have hplain : s.all isRouteChar = true := by
      rw [List.all_eq_true]
      intro x hx
      exact isRouteChar_of_service (List.all_eq_true.mp (c.word s (List.mem_filter.mp hs).1).2 x hx)
    rcases (mem_serviceBases.mp hb).2 with rfl | ⟨_, rfl⟩ | rfl
    · exact hplain
    · decide
    · rw [List.all_append, hplain]
      decide
  · obtain ⟨x, _, rfl⟩ := List.mem_map.mp h
    cases x <;> decide

theorem route_name_request {env : Settings} {c : Catalog} {req : Request} (h : req ∈ c.expected env) :
    req.route.name = req.name := by
  rcases List.mem_append.mp h with h | h
  · obtain ⟨s, _, hreq⟩ := List.mem_flatMap.mp h
    obtain ⟨x, hx, rfl⟩ := List.mem_map.mp hreq
    rw [serviceAttempts] at hx
    dsimp only at hx
    cases hp : apiPath (c.info s) with
    | none =>
      rw [hp] at hx
      cases hx
    | some path =>
      rw [hp] at hx
      dsimp only at hx
      rcases List.mem_append.mp hx with hx | hx
      · rcases List.mem_append.mp hx with hx | hx
        · rw [List.mem_singleton.mp hx]
          rfl
        · split at hx
          · rw [List.mem_singleton.mp hx]
            rfl
          · cases hx
      · rw [List.mem_singleton.mp hx]
        rfl
  · obtain ⟨x, _, rfl⟩ := List.mem_map.mp h
    cases x <;> rfl

/-- An expected name is listed as one word, which addresses the route of that name. -/
theorem expected_name (a : Apisix) (sh : Shell) (c : WordCatalog) {req : Request} (h : req ∈ c.expected env) :
    listedWords sh req.name = [req.name] ∧ a.target req.name = req.name ∧ routeSuffix <:+ req.name := by
  have hmem : req.name ∈ (c.expected env).map fun req => req.name := List.mem_map_of_mem h
  rw [names_expected, List.mem_map] at hmem
  obtain ⟨b, hb, hname⟩ := hmem
  have hplain := plain_bases c hb
  rw [← hname]
  refine ⟨listedWords_plain sh hplain, a.target_plain _ ?_, ⟨b, rfl⟩⟩
  rw [routeName, List.all_append, hplain]
  decide

/-! ## The requests of a run -/

theorem service_plain (c : WordCatalog) {s : Str} (h : s ∈ c.names) : s.all shellPlain = true ∧ s ≠ [] := by
  refine ⟨List.all_eq_true.mpr ?_, (c.word s h).1⟩
  intro x hx
  exact shellPlain_of_route <| isRouteChar_of_service (List.all_eq_true.mp (c.word s h).2 x hx)

theorem printed_names {names : List Str} (h : ∀ s ∈ names, s.all shellPlain = true ∧ s ≠ []) :
    printed names = names := by
  induction names with
  | nil => rfl
  | cons s names ih =>
    have hs := printed_plain (h s (List.mem_cons_self ..)).1
    rw [printed, List.flatMap_cons, List.flatMap_nil, List.append_nil] at hs
    have hrest : printed names = names := ih fun x hx => h x (List.mem_cons_of_mem _ hx)
    rw [printed] at hrest
    rw [printed, List.flatMap_cons, hs, hrest]
    rfl

theorem words_services (c : WordCatalog) :
    sh.words (serviceLines c.names) = c.names.filter fun s => !decide (consulWord <:+: s) := by
  rw [serviceLines, printed_names fun s hs => service_plain c hs]
  apply words_plain
  intro s hs
  exact service_plain c (List.mem_filter.mp hs).1

theorem visible_iff (c : WordCatalog) : c.Visible ↔ ∃ l ∈ serviceLines c.names, l ≠ [] := by
  rw [serviceLines, printed_names fun s hs => service_plain c hs]
  constructor
  · rintro ⟨s, hs, hshown⟩
    exact ⟨s, List.mem_filter.mpr ⟨hs, by simpa using hshown⟩, (c.word s hs).1⟩
  · rintro ⟨s, hs, _⟩
    rw [List.mem_filter] at hs
    exact ⟨s, hs.1, by simpa using hs.2⟩

theorem notConsul_of_shown {s : Str} (h : ¬ consulWord <:+: s) : s ≠ consulWord := by
  rintro rfl
  exact h (List.infix_refl _)

theorem mem_requests (c : WordCatalog) {req : Request} (h : req ∈ c.requests sh env) :
    (∃ s ∈ c.names, ¬ consulWord <:+: s ∧ req ∈ serviceRequests env s (c.info s)) ∨ req ∈ staticRequests env := by
  rw [Catalog.requests, words_services, List.mem_append, List.mem_flatMap] at h
  rcases h with ⟨s, hs, hreq⟩ | h
  · rw [List.mem_filter] at hs
    exact Or.inl ⟨s, hs.1, by simpa using hs.2, hreq⟩
  · exact Or.inr h

theorem mem_expected_of_requests (c : WordCatalog) {req : Request} (h : req ∈ c.requests sh env) :
    req ∈ c.expected env := by
  rcases mem_requests c h with ⟨s, hs, hshown, hreq⟩ | h
  · refine List.mem_append_left _ (List.mem_flatMap.mpr ⟨s, List.mem_filter.mpr ⟨hs, ?_⟩, hreq⟩)
    exact decide_eq_true (notConsul_of_shown hshown)
  · exact List.mem_append_right _ h

theorem serviceRequests_of_no_path {s : Str} {m : Meta} (h : ¬ (apiPath m).isSome) : serviceRequests env s m = [] := by
  rw [Option.not_isSome_iff_eq_none] at h
  rw [serviceRequests, serviceAttempts]
  dsimp only
  rw [h]
  rfl

theorem requests_eq (sh : Shell) (c : WordCatalog) (hshown : ∀ s, c.Serves s → ¬ consulWord <:+: s) :
    c.requests sh env = c.expected env := by
  rw [Catalog.requests, words_services, Catalog.expected]
  congr 1
  have hall : ∀ names : List Str, (∀ s ∈ names, s ∈ c.names) →
      (names.filter fun s => !decide (consulWord <:+: s)).flatMap (fun s => serviceRequests env s (c.info s)) =
        (names.filter fun s => decide (s ≠ consulWord)).flatMap (fun s => serviceRequests env s (c.info s)) := by
    intro names
    induction names with
    | nil => exact fun _ => rfl
    | cons s names ih =>
      intro hmem
      have hrest := ih fun x hx => hmem x (List.mem_cons_of_mem _ hx)
      by_cases hin : consulWord <:+: s
      · rw [List.filter_cons, if_neg (by simpa using hin), hrest, List.filter_cons]
        by_cases hconsul : s = consulWord
        · rw [if_neg (by simpa using hconsul)]
        · have hpath : ¬ (apiPath (c.info s)).isSome := by
            intro hp
            exact hshown s ⟨hmem s (List.mem_cons_self ..), hconsul, hp⟩ hin
          rw [if_pos (decide_eq_true hconsul), List.flatMap_cons, serviceRequests_of_no_path hpath, List.nil_append]
      · rw [List.filter_cons, if_pos (by simpa using hin), List.filter_cons,
          if_pos (decide_eq_true (notConsul_of_shown hin)), List.flatMap_cons, List.flatMap_cons, hrest]
  exact hall c.names fun _ hs => hs

/-! ## What a run leaves -/

theorem keys_entriesOf (c : WordCatalog) {reqs : List Request} (h : ∀ req ∈ reqs, req ∈ c.expected env) :
    (entriesOf a reqs).map Prod.fst = reqs.map fun req => req.name := by
  rw [entriesOf, List.map_map]
  exact List.map_congr_left fun req hreq => (expected_name a plainShell c (h req hreq)).2.1

theorem get_leftover (c : Catalog) (prior : Routes) (id : Str) (v : Stored) :
    (c.leftover env prior).get id = some v ↔
      prior.get id = some v ∧ id ∉ (c.expected env).map fun req => req.name := by
  rw [Catalog.leftover, Dict.get_restrict]
  by_cases h : id ∈ (c.expected env).map fun req => req.name
  · simp [h]
  · simp [h]

section Written
variable (c : WordCatalog) (prior : Routes) (hclash : c.NoClash) (hshown : ∀ s, c.Serves s → ¬ consulWord <:+: s)
include hclash hshown

theorem get_written_of_mem {req : Request} (h : req ∈ c.expected env) :
    (prior.putAll (entriesOf a (c.requests sh env))).get req.name = some (a.kept req) := by
  have hkeys : (entriesOf a (c.expected env)).map Prod.fst = (c.expected env).map fun req => req.name :=
    keys_entriesOf c fun _ h => h
  have hnodup : ((entriesOf a (c.expected env)).map Prod.fst).Nodup := by
    rw [hkeys]
    exact (nodup_expected_iff c.toCatalog).mpr hclash
  rw [requests_eq sh c hshown, ← (expected_name a sh c h).2.1]
  have hmem : (a.target req.name, a.kept req) ∈ entriesOf a (c.expected env) := List.mem_map_of_mem h
  exact Dict.get_putAll_of_nodup hnodup hmem

omit hclash in
theorem get_written_of_not_mem {id : Str} (h : id ∉ (c.expected env).map fun req => req.name) :
    (prior.putAll (entriesOf a (c.requests sh env))).get id = prior.get id := by
  rw [requests_eq sh c hshown]
  apply Dict.get_putAll_of_not_mem
  rw [keys_entriesOf c fun _ h => h]
  exact h

/-- With clean requests the stale names are those listed for what is left over. -/
theorem mem_stale_iff (hclean : ∀ req ∈ c.expected env, req.clean a.isNumber = true) {w : Str} :
    w ∈ staleNames sh env c.toCatalog (prior.putAll (entriesOf a (c.requests sh env))) ↔
      w ∈ listed sh (c.leftover env prior) ∧ w ∉ (c.expected env).map fun req => req.name := by
  rw [mem_staleNames sh env]
  nth_rewrite 2 [requests_eq sh c hshown]
  apply and_congr_left
  intro hw
  rw [mem_listed, mem_listed]
  constructor
  · rintro ⟨id, v, hv, hlisted⟩
    by_cases hid : id ∈ (c.expected env).map fun req => req.name
    · obtain ⟨req, hreq, rfl⟩ := List.mem_map.mp hid
      rw [get_written_of_mem c prior hclash hshown hreq, (a.kept_eq_iff req).mpr (hclean req hreq)] at hv
      rw [← Option.some.inj hv] at hlisted
      have hname : (Stored.synced req.route).name = req.name := route_name_request hreq
      rw [hname, (expected_name a sh c hreq).1, List.mem_singleton] at hlisted
      exact absurd (hlisted ▸ hid) hw
    · rw [get_written_of_not_mem c prior hshown hid] at hv
      exact ⟨id, v, (get_leftover c.toCatalog prior id v).mpr ⟨hv, hid⟩, hlisted⟩
  · rintro ⟨id, v, hv, hlisted⟩
    obtain ⟨hv, hid⟩ := (get_leftover c.toCatalog prior id v).mp hv
    exact ⟨id, v, (get_written_of_not_mem c prior hshown hid).trans hv, hlisted⟩

end Written

/-! ## The claimed end of a run -/

theorem main_request_mem (env : Settings) (c : WordCatalog) {s : Str} (h : c.Serves s) :
    ∃ req ∈ c.expected env, req.name = routeName s ∧ req.route.name = routeName s := by
  have hmem : routeName s ∈ (c.expected env).map fun req => req.name := by
    rw [names_expected, Catalog.bases, List.map_append]
    refine List.mem_append_left _ (List.mem_map_of_mem (List.mem_flatMap.mpr ⟨s, h.mem_filter, ?_⟩))
    exact mem_serviceBases.mpr ⟨h.path, Or.inl rfl⟩
  obtain ⟨req, hreq, hname⟩ := List.mem_map.mp hmem
  exact ⟨req, hreq, hname, (route_name_request hreq).trans hname⟩

/-- The filter hides the routes of a service with `consul` in its name. -/
theorem name_not_requested (c : WordCatalog) (hclash : c.NoClash) {s : Str} (hs : c.Serves s)
    (hhidden : consulWord <:+: s) : routeName s ∉ (c.requests sh env).map fun req => req.name := by
  intro hmem
  obtain ⟨req, hreq, hname⟩ := List.mem_map.mp hmem
  rcases mem_requests c hreq with ⟨t, ht, hshown, hreq⟩ | hreq
  · have hb : routeName s ∈ (serviceBases t (c.info t)).map routeName := by
      rw [← names_serviceRequests env, ← hname]
      exact List.mem_map_of_mem hreq
    obtain ⟨b, hb, hbs⟩ := List.mem_map.mp hb
    rw [routeName_injective hbs] at hb
    have hne : s ≠ t := by
      rintro rfl
      exact hshown hhidden
    have htf : t ∈ c.names.filter fun s => decide (s ≠ consulWord) :=
      List.mem_filter.mpr ⟨ht, decide_eq_true (notConsul_of_shown hshown)⟩
    exact disjoint_serviceBases hclash hne hs.mem_filter htf (mem_serviceBases.mpr ⟨hs.path, Or.inl rfl⟩) hb
  · have hb : routeName s ∈ (statics.map Static.base).map routeName := by
      rw [← names_staticRequests env, ← hname]
      exact List.mem_map_of_mem hreq
    obtain ⟨b, hb, hbs⟩ := List.mem_map.mp hb
    obtain ⟨x, hx, rfl⟩ := List.mem_map.mp hb
    exact hclash.static s hs x hx (routeName_injective hbs).symm

theorem shown_of_right (c : WordCatalog) (hvis : c.Visible) (prior : Routes) (hclash : c.NoClash)
    (h : c.Right env (syncRun a sh env c.toCatalog prior)) : ∀ s, c.Serves s → ¬ consulWord <:+: s := by
  intro s hs hhidden
  obtain ⟨req, hreq, hname, hroute⟩ := main_request_mem env c hs
  obtain ⟨hlist, htarget, _⟩ := expected_name a sh c hreq
  have hget := ((h req.name (.synced req.route)).mpr ⟨req, hreq, rfl, rfl⟩).1
  obtain ⟨hwritten, hstale⟩ := (get_syncRun a sh env ((visible_iff c).mp hvis) prior _ _).mp hget
  have hnot : req.name ∉ (c.requests sh env).map fun req => req.name := by
    rw [hname]
    exact name_not_requested c hclash hs hhidden
  refine hstale req.name ((mem_staleNames sh env).mpr ⟨mem_listed.mpr ⟨_, _, hwritten, ?_⟩, hnot⟩) htarget
  have hstored : (Stored.synced req.route).name = req.name := route_name_request hreq
  rw [hstored, hlist]
  exact List.mem_singleton_self _

theorem fits_of_converges (c : WordCatalog) (hvis : c.Visible) (prior : Routes)
    (h : Converges a sh env c.toCatalog prior) : c.Fits a sh env prior := by
  have hclash := (nodup_expected_iff c.toCatalog).mp h.distinct
  have hshown := shown_of_right c hvis prior hclash h.managed
  have hstays : ∀ req ∈ c.expected env,
      (prior.putAll (entriesOf a (c.requests sh env))).get req.name = some (.synced req.route) ∧
        ∀ w ∈ staleNames sh env c.toCatalog (prior.putAll (entriesOf a (c.requests sh env))), a.target w ≠ req.name := by
    intro req hreq
    exact (get_syncRun a sh env ((visible_iff c).mp hvis) prior _ _).mp ((h.managed _ _).mpr ⟨req, hreq, rfl, rfl⟩).1
  have hclean : ∀ req ∈ c.expected env, req.clean a.isNumber = true := by
    intro req hreq
    rw [← a.kept_eq_iff]
    have hkept : (prior.putAll (entriesOf a (c.requests sh env))).get req.name = some (a.kept req) :=
      get_written_of_mem c prior hclash hshown hreq
    exact Option.some.inj (hkept.symm.trans (hstays req hreq).1)
  refine ⟨hshown, hclash, hclean, ?_, ?_⟩
  · intro id v hv hmanaged
    obtain ⟨hprior, hid⟩ := (get_leftover c.toCatalog prior id v).mp hv
    have hnone : ¬ (syncRun a sh env c.toCatalog prior).get id = some v := by
      intro hget
      obtain ⟨req, hreq, hname, _⟩ := (h.managed id v).mp ⟨hget, hmanaged⟩
      exact hid (List.mem_map.mpr ⟨req, hreq, hname.symm⟩)
    rw [get_syncRun a sh env ((visible_iff c).mp hvis), get_written_of_not_mem c prior hshown hid] at hnone
    by_contra hno
    refine hnone ⟨hprior, ?_⟩
    intro w hw htarget
    obtain ⟨hlisted, hfresh⟩ := (mem_stale_iff c prior hclash hshown hclean).mp hw
    exact hno ⟨w, hlisted, hfresh, htarget⟩
  · intro w hw hfresh htarget
    obtain ⟨req, hreq, hname⟩ := List.mem_map.mp htarget
    exact (hstays req hreq).2 w ((mem_stale_iff c prior hclash hshown hclean).mpr ⟨hw, hfresh⟩) hname.symm

theorem right_of_fits (c : WordCatalog) (hvis : c.Visible) (prior : Routes) (h : c.Fits a sh env prior) :
    c.Right env (syncRun a sh env c.toCatalog prior) := by
  intro id v
  rw [get_syncRun a sh env ((visible_iff c).mp hvis)]
  constructor
  · rintro ⟨⟨hget, hstale⟩, hmanaged⟩
    by_cases hid : id ∈ (c.expected env).map fun req => req.name
    · obtain ⟨req, hreq, rfl⟩ := List.mem_map.mp hid
      rw [get_written_of_mem c prior h.noClash h.shown hreq, (a.kept_eq_iff req).mpr (h.clean req hreq)] at hget
      exact ⟨req, hreq, rfl, (Option.some.inj hget).symm⟩
    · rw [get_written_of_not_mem c prior h.shown hid] at hget
      obtain ⟨w, hw, hfresh, htarget⟩ :=
        h.tidy.addressed id v ((get_leftover c.toCatalog prior id v).mpr ⟨hget, hid⟩) hmanaged
      exact absurd htarget (hstale w ((mem_stale_iff c prior h.noClash h.shown h.clean).mpr ⟨hw, hfresh⟩))
  · rintro ⟨req, hreq, rfl, rfl⟩
    refine ⟨⟨?_, ?_⟩, ?_⟩
    · rw [get_written_of_mem c prior h.noClash h.shown hreq, (a.kept_eq_iff req).mpr (h.clean req hreq)]
    · intro w hw htarget
      obtain ⟨hlisted, hfresh⟩ := (mem_stale_iff c prior h.noClash h.shown h.clean).mp hw
      exact h.tidy.apart w hlisted hfresh (htarget ▸ List.mem_map_of_mem hreq)
    · rw [Managed, Stored.name, route_name_request hreq]
      exact (expected_name a sh c hreq).2.2

/-- A second run writes what is there and finds no further stale name that addresses a route. -/
theorem stable_of_fits (c : WordCatalog) (hvis : c.Visible) (prior : Routes) (h : c.Fits a sh env prior) :
    syncRun a sh env c.toCatalog (syncRun a sh env c.toCatalog prior) = syncRun a sh env c.toCatalog prior := by
  have hright := right_of_fits c hvis prior h
  have hput : (syncRun a sh env c.toCatalog prior).putAll (entriesOf a (c.requests sh env)) =
      syncRun a sh env c.toCatalog prior := by
    apply Dict.putAll_eq_self
    intro e he
    obtain ⟨req, hreq, rfl⟩ := List.mem_map.mp he
    have hexp := mem_expected_of_requests c hreq
    dsimp only
    rw [(expected_name a sh c hexp).2.1, (a.kept_eq_iff req).mpr (h.clean req hexp)]
    exact ((hright _ _).mpr ⟨req, hexp, rfl, rfl⟩).1
  rw [syncRun_eq a sh env ((visible_iff c).mp hvis) (syncRun a sh env c.toCatalog prior), hput]
  apply Dict.dropAll_eq_self
  intro k hk
  obtain ⟨w, hw, rfl⟩ := List.mem_map.mp hk
  obtain ⟨hlisted, hfresh⟩ := (mem_staleNames sh env).mp hw
  obtain ⟨id, v, hv, hwords⟩ := mem_listed.mp hlisted
  have hstale : w ∈ staleNames sh env c.toCatalog (prior.putAll (entriesOf a (c.requests sh env))) :=
    (mem_staleNames sh env).mpr ⟨mem_listed.mpr ⟨id, v, ((get_syncRun a sh env ((visible_iff c).mp hvis) prior id v).mp hv).1, hwords⟩, hfresh⟩
  rw [Option.eq_none_iff_forall_ne_some]
  intro u hu
  exact ((get_syncRun a sh env ((visible_iff c).mp hvis) prior _ u).mp hu).2 w hstale rfl

/-- A run without failures ends with exactly the expected managed routes, of distinct names, and a
second one changes nothing, exactly when the catalog shows a service and hides none that is served, no
names clash, the texts are clean and the prior routes tidy; about a catalog that shows no service the
run does nothing, so the routes have to be right before it. -/
theorem converges_iff (c : WordCatalog) (prior : Routes) :
    Converges a sh env c.toCatalog prior ↔
      (c.Visible ∧ c.Fits a sh env prior) ∨ (¬ c.Visible ∧ c.NoClash ∧ c.Right env prior) := by
  by_cases hvis : c.Visible
  · constructor
    · intro h
      exact Or.inl ⟨hvis, fits_of_converges c hvis prior h⟩
    · rintro (⟨_, h⟩ | ⟨hno, _⟩)
      · exact ⟨right_of_fits c hvis prior h, (nodup_expected_iff c.toCatalog).mpr h.noClash, stable_of_fits c hvis prior h⟩
      · exact absurd hvis hno
  · have hrun : ∀ routes, syncRun a sh env c.toCatalog routes = routes :=
      syncRun_empty a sh env fun h => hvis ((visible_iff c).mpr h)
    constructor
    · intro h
      have hmanaged := h.managed
      rw [hrun] at hmanaged
      exact Or.inr ⟨hvis, (nodup_expected_iff c.toCatalog).mp h.distinct, hmanaged⟩
    · rintro (⟨hyes, _⟩ | ⟨_, hclash, hright⟩)
      · exact absurd hyes hvis
      · refine ⟨?_, (nodup_expected_iff c.toCatalog).mpr hclash, ?_⟩
        · rw [hrun]
          exact hright
        · rw [hrun, hrun]

end Converges

/-! ## A service that the filter hides -/

section Example

def exportService : Str := lit "consul_export"

/-- Two services with a path, one of which has `consul` in its name. -/
def exportCatalog : WordCatalog where
  names := [exportService, lit "web"]
  nodup := by decide
  info := fun s => Dict.empty.set (lit "api_path") (lit "/api/v1/" ++ s)
  word := by
    intro s hs
    rcases List.mem_cons.mp hs with rfl | hs
    · decide
    · rw [List.mem_singleton.mp hs]
      decide

/-- The run gives the service no route, and deletes the one it had. -/
theorem hidden_service_has_no_route :
    exportCatalog.Serves exportService ∧
      (syncRun plainApisix plainShell noSettings exportCatalog.toCatalog
        (Dict.empty.set (routeName exportService) (.other (routeName exportService)))).get (routeName exportService) = none ∧
      ¬ Converges plainApisix plainShell noSettings exportCatalog.toCatalog
        (Dict.empty.set (routeName exportService) (.other (routeName exportService))) := by
  have hserves : exportCatalog.Serves exportService := ⟨List.mem_cons_self .., by decide, by decide⟩
  have hnone : (syncRun plainApisix plainShell noSettings exportCatalog.toCatalog
      (Dict.empty.set (routeName exportService) (.other (routeName exportService)))).get (routeName exportService) = none := by
    decide +kernel
  refine ⟨hserves, hnone, ?_⟩
  intro h
  obtain ⟨req, hreq, hname, _⟩ := main_request_mem noSettings exportCatalog hserves
  have hget := ((h.managed req.name (.synced req.route)).mpr ⟨req, hreq, rfl, rfl⟩).1
  rw [hname, hnone] at hget
  cases hget

end Example

end IsaCloud.Gateway
