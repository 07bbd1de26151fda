import IsaCloud.Observability.ContractScan

/-!
# What the visitor looks at

The visitor comes to every node of a tree once, however deep it lies, and what it
collects is what it collects at the nodes one by one. Of a dotted name the last
name counts, whatever stands before it.
-/

namespace IsaCloud.Observability

set_option autoImplicit false

open Support
open Text Python Encoding Json Glob PosixPath

/-! ## Nodes -/

/-- Induction over a tree through the nodes inside it. -/
theorem ast_induction {P : Ast → Prop} (imports : ∀ line names, P (.imports line names))
    (importFrom : ∀ line module names, P (.importFrom line module names))
    (classDef : ∀ line name children, (∀ n ∈ children, P n) → P (.classDef line name children))
    (call : ∀ line func args keywords, P func → (∀ n ∈ args, P n) → (∀ n ∈ keywords, P n) →
      P (.call line func args keywords))
    (name : ∀ id, P (.name id)) (dotted : ∀ value attr, P value → P (.attribute value attr))
    (string : ∀ value, P (.string value)) (other : ∀ children, (∀ n ∈ children, P n) → P (.other children)) :
    ∀ t, P t := by
  refine @Ast.rec P (fun ns => ∀ n ∈ ns, P n) imports importFrom classDef call name dotted string other ?_ ?_
  · intro n hn
    cases hn
  · intro head tail hhead htail n hn
    rcases List.mem_cons.mp hn with rfl | hn
    · exact hhead
    · exact htail n hn

mutual

/-- A node before what is below it. -/
def nodes : Ast → List Ast
  | .imports line names => [.imports line names]
  | .importFrom line module names => [.importFrom line module names]
  | .classDef line name children => .classDef line name children :: nodesOf children
  | .call line func args keywords =>
    .call line func args keywords :: (nodes func ++ (nodesOf args ++ nodesOf keywords))
  | .name id => [.name id]
  | .attribute value attr => .attribute value attr :: nodes value
  | .string value => [.string value]
  | .other children => .other children :: nodesOf children

def nodesOf : List Ast → List Ast
  | [] => []
  | n :: ns => nodes n ++ nodesOf ns

end

theorem nodesOf_eq (ns : List Ast) : nodesOf ns = ns.flatMap nodes := by
  induction ns with
  | nil => rfl
  | cons n ns ih => rw [nodesOf, ih, List.flatMap_cons]

theorem mem_nodesOf {m : Ast} {ns : List Ast} : m ∈ nodesOf ns ↔ ∃ n ∈ ns, m ∈ nodes n := by
  rw [nodesOf_eq, List.mem_flatMap]

theorem self_mem_nodes (t : Ast) : t ∈ nodes t := by
  cases t <;> exact List.mem_cons_self

theorem nodes_trans {m n t : Ast} (hm : m ∈ nodes n) (hn : n ∈ nodes t) : m ∈ nodes t := by
  have hlist : ∀ ns : List Ast, (∀ r ∈ ns, n ∈ nodes r → m ∈ nodes r) → n ∈ nodesOf ns → m ∈ nodesOf ns := by
    intro ns ih h
    obtain ⟨r, hr, hnr⟩ := mem_nodesOf.mp h
    exact mem_nodesOf.mpr ⟨r, hr, ih r hr hnr⟩
  induction t using ast_induction with
  | imports | importFrom | name | string =>
    rw [List.mem_singleton.mp hn] at hm
    exact hm
  | classDef line name children ih =>
    rcases List.mem_cons.mp hn with rfl | hn
    · exact hm
    · exact List.mem_cons_of_mem _ (hlist children ih hn)
  | call line func args keywords ihFunc ihArgs ihKeywords =>
    rcases List.mem_cons.mp hn with rfl | hn
    · exact hm
    · refine List.mem_cons_of_mem _ ?_
      rcases List.mem_append.mp hn with hn | hn
      · exact List.mem_append_left _ (ihFunc hn)
      · rcases List.mem_append.mp hn with hn | hn
        · exact List.mem_append_right _ (List.mem_append_left _ (hlist args ihArgs hn))
        · exact List.mem_append_right _ (List.mem_append_right _ (hlist keywords ihKeywords hn))
  | dotted value attr ih =>
    rcases List.mem_cons.mp hn with rfl | hn
    · exact hm
    · exact List.mem_cons_of_mem _ (ih hn)
  | other children ih =>
    rcases List.mem_cons.mp hn with rfl | hn
    · exact hm
    · exact List.mem_cons_of_mem _ (hlist children ih hn)

/-- What the visitor collects at a node, without what is below it. -/
def own (path : Str) : Ast → Visit
  | .imports line names => ⟨names.flatMap (moduleFindings path line), []⟩
  | .importFrom line module names => ⟨importFromFindings path line (module.getD []) names, []⟩
  | .classDef line name _ => ⟨classFindings path line name, []⟩
  | .call line func args _ =>
    ⟨callFindings path line func args, if isSetupObservabilityCall (callName func) then [line] else []⟩
  | _ => {}

/-- What the visitor collects at the nodes of a list. -/
def ownAll (path : Str) (ns : List Ast) : Visit :=
  ⟨ns.flatMap fun n => (own path n).findings, ns.flatMap fun n => (own path n).setupObservabilityCalls⟩

theorem ownAll_append (path : Str) (ns ms : List Ast) :
    ownAll path (ns ++ ms) = Visit.append (ownAll path ns) (ownAll path ms) := by
  simp only [ownAll, Visit.append, List.flatMap_append]

theorem ownAll_cons (path : Str) (n : Ast) (ns : List Ast) :
    ownAll path (n :: ns) = Visit.append (own path n) (ownAll path ns) := rfl

/-- The visitor collects at every node once. -/
theorem visit_eq (path : Str) (t : Ast) : visit path t = ownAll path (nodes t) := by
  have hlist : ∀ ns : List Ast, (∀ n ∈ ns, visit path n = ownAll path (nodes n)) →
      genericVisit path ns = ownAll path (nodesOf ns) := by
    intro ns ih
    induction ns with
    | nil => rfl
    | cons n ns ihns =>
      rw [genericVisit, nodesOf, ownAll_append, ih n List.mem_cons_self,
        ihns fun m hm => ih m (List.mem_cons_of_mem _ hm)]
  have hsingle : ∀ n : Ast, own path n = ownAll path [n] := by
    intro n
    simp only [ownAll, List.flatMap_cons, List.flatMap_nil, List.append_nil]
  induction t using ast_induction with
  | imports line names => exact hsingle (.imports line names)
  | importFrom line module names => exact hsingle (.importFrom line module names)
  | classDef line name children ih => rw [visit, nodes, ownAll_cons, hlist children ih, own]
  | call line func args keywords ihFunc ihArgs ihKeywords =>
    rw [visit, nodes, ownAll_cons, ownAll_append, ownAll_append, hlist args ihArgs, hlist keywords ihKeywords, ihFunc, own]
  | name id => exact hsingle (.name id)
  | dotted value attr ih =>
    rw [visit, nodes, ownAll_cons, ih]
    rfl
  | string value => exact hsingle (.string value)
  | other children ih =>
    rw [visit, nodes, ownAll_cons, hlist children ih]
    rfl

/-! ## Dotted names -/

def dot : CodePoint := cp '.'

/-- The last name of a dotted name. -/
def lastName : Ast → Option Str
  | .name id => some id
  | .attribute _ attr => some attr
  | _ => none

/-- What the parser takes for one name has no dot. -/
def DotFree (t : Ast) : Prop := ∀ n ∈ nodes t, ∀ a, lastName n = some a → dot ∉ a

theorem DotFree.node {t n : Ast} (h : DotFree t) (hn : n ∈ nodes t) : DotFree n :=
  fun m hm => h m (nodes_trans hm hn)

theorem takeWhile_eq_self_append {s r : Str} (h : dot ∉ s) (hr : r.head?.all (· == dot)) :
    (s ++ r).takeWhile (· != dot) = s := by
  have hs : ∀ x ∈ s, (x != dot) = true := by
    intro x hx
    rw [bne_iff_ne]
    rintro rfl
    exact h hx
  rw [List.takeWhile_append_of_pos hs]
  cases r with
  | nil => exact List.append_nil s
  | cons x r =>
    have hx : (x != dot) = false := by simpa using hr
    rw [List.takeWhile_cons_of_neg (by rw [hx]; exact Bool.false_ne_true), List.append_nil]

theorem leaf_of_dotFree {s : Str} (h : dot ∉ s) : leaf s = s := by
  have hrev := takeWhile_eq_self_append (s := s.reverse) (r := []) (by rwa [List.mem_reverse]) rfl
  rw [List.append_nil] at hrev
  rw [leaf, ← dot, hrev, List.reverse_reverse]

theorem leaf_append_dot (q : Str) {s : Str} (h : dot ∉ s) : leaf (q ++ lit "." ++ s) = s := by
  have hrev := takeWhile_eq_self_append (s := s.reverse) (r := dot :: q.reverse) (by rwa [List.mem_reverse]) (by simp)
  have hshape : (q ++ lit "." ++ s).reverse = s.reverse ++ dot :: q.reverse := by simp [lit, dot]
  rw [leaf, hshape, ← dot, hrev, List.reverse_reverse]

/-- A pattern without a dot ends a dotted name exactly if it ends the last name. -/
theorem isSuffix_append_dot {pattern q s : Str} (h : dot ∉ pattern) :
    pattern <:+ q ++ lit "." ++ s ↔ pattern <:+ s := by
  constructor
  · intro hsuffix
    by_cases hlength : pattern.length ≤ s.length
    · exact List.suffix_of_suffix_length_le hsuffix (List.suffix_append _ _) hlength
    · have hend : dot :: s <:+ q ++ lit "." ++ s := ⟨q, by simp [lit, dot]⟩
      have hlong : dot :: s <:+ pattern := by
        refine List.suffix_of_suffix_length_le hend hsuffix ?_
        rw [List.length_cons]
        omega
      exact absurd (hlong.subset List.mem_cons_self) h
  · exact fun hsuffix => hsuffix.trans (List.suffix_append _ _)

theorem callName_cases (n : Ast) : (lastName n = none ∧ callName n = []) ∨
    ∃ a, lastName n = some a ∧ (callName n = a ∨ ∃ q, callName n = q ++ lit "." ++ a) := by
  induction n using ast_induction with
  | name id => exact .inr ⟨id, rfl, .inl rfl⟩
  | dotted value attr _ =>
    refine .inr ⟨attr, rfl, ?_⟩
    simp only [callName]
    split
    · exact .inr ⟨callName value, rfl⟩
    · exact .inl rfl
  | imports | importFrom | classDef | call | string | other => exact .inl ⟨rfl, rfl⟩

theorem leaf_callName {n : Ast} (h : DotFree n) : leaf (callName n) = (lastName n).getD [] := by
  rcases callName_cases n with ⟨hlast, hcall⟩ | ⟨a, hlast, hcall⟩
  · rw [hlast, hcall]
    rfl
  · have ha : dot ∉ a := h n (self_mem_nodes n) a hlast
    rw [hlast, Option.getD_some]
    rcases hcall with hcall | ⟨q, hcall⟩
    · rw [hcall, leaf_of_dotFree ha]
    · rw [hcall, leaf_append_dot q ha]

theorem isSuffix_callName {n : Ast} {pattern : Str} (hne : pattern ≠ []) (hdot : dot ∉ pattern) :
    pattern <:+ callName n ↔ ∃ a, lastName n = some a ∧ pattern <:+ a := by
  rcases callName_cases n with ⟨hlast, hcall⟩ | ⟨a, hlast, hcall⟩
  · simp [hlast, hcall, hne]
  · rw [hlast]
    simp only [Option.some.injEq, exists_eq_left']
    rcases hcall with hcall | ⟨q, hcall⟩
    · rw [hcall]
    · rw [hcall, isSuffix_append_dot hdot]

/-- `Route`, also as an attribute of anything. -/
theorem route_callName {n : Ast} (h : DotFree n) :
    (callName n = lit "Route" ∨ callName n = lit "starlette.routing.Route" ∨ lit ".Route" <:+ callName n) ↔
      lastName n = some (lit "Route") := by
  have hroute : dot ∉ lit "Route" := by decide
  constructor
  · intro hcall
    have hleaf : leaf (callName n) = lit "Route" := by
      rcases hcall with hcall | hcall | ⟨q, hcall⟩
      · rw [hcall]
        decide
      · rw [hcall]
        decide
      · rw [← hcall]
        exact (congrArg leaf (List.append_assoc q (lit ".") (lit "Route")).symm).trans (leaf_append_dot q hroute)
    rw [leaf_callName h] at hleaf
    cases hlast : lastName n with
    | none =>
      rw [hlast] at hleaf
      cases hleaf
    | some a =>
      rw [hlast] at hleaf
      exact congrArg some hleaf
  · intro hlast
    rcases callName_cases n with ⟨hnone, _⟩ | ⟨a, ha, hcall⟩
    · rw [hnone] at hlast
      cases hlast
    · obtain rfl : a = lit "Route" := Option.some.inj (ha.symm.trans hlast)
      rcases hcall with hcall | ⟨q, hcall⟩
      · exact .inl hcall
      · exact .inr (.inr ⟨q, by rw [hcall]; exact (List.append_assoc q (lit ".") (lit "Route")).symm⟩)

/-! ## Forbidden nodes -/

/-- A package or a module inside it. -/
def InPackage (package module : Str) : Prop := module = package ∨ ∃ inner, module = package ++ lit "." ++ inner

/-- A call that looks as if it registered a route. -/
def RegistersRoute (func : Ast) : Prop :=
  lastName func = some (lit "Route") ∨
    ∃ value attr, func = .attribute value attr ∧ attr ∈ [lit "get", lit "route", lit "add_route"] ∧
      (rootName func ∈ [lit "app", lit "api", lit "router"] ∨ lit "router" <:+ rootName func)

/-- What competes with `isa_common`, under which rule, and what is said of it. -/
inductive Violates : Ast → Rule → Str → Prop where
  | importPrometheus {line names module} (hname : module ∈ names) (h : InPackage (lit "prometheus_client") module) :
      Violates (.imports line names) .rawPrometheusClient
        (lit "raw prometheus_client import; use isa_common.metrics factories")
  | importInstrumentator {line names module} (hname : module ∈ names)
      (h : InPackage (lit "prometheus_fastapi_instrumentator") module) :
      Violates (.imports line names) .prometheusFastapiInstrumentator
        (lit "prometheus-fastapi-instrumentator competes with isa_common.metrics")
  | fromPrometheus {line module names} (h : InPackage (lit "prometheus_client") module) :
      Violates (.importFrom line (some module) names) .rawPrometheusClient
        (lit "raw prometheus_client import; use isa_common.metrics factories")
  | fromInstrumentator {line module names} (h : InPackage (lit "prometheus_fastapi_instrumentator") module) :
      Violates (.importFrom line (some module) names) .prometheusFastapiInstrumentator
        (lit "prometheus-fastapi-instrumentator competes with isa_common.metrics")
  | tracerProvider {line names} (h : lit "TracerProvider" ∈ names) :
      Violates (.importFrom line (some (lit "opentelemetry.sdk.trace")) names) .rawTracerProvider
        (lit "raw TracerProvider import; use isa_common.tracing/setup_observability")
  | setTracerProvider {line names} (h : lit "set_tracer_provider" ∈ names) :
      Violates (.importFrom line (some (lit "opentelemetry.trace")) names) .rawTracerProvider
        (lit "raw set_tracer_provider import; use isa_common.tracing/setup_observability")
  | middlewareClass {line children} :
      Violates (.classDef line (lit "PrometheusMiddleware") children) .customPrometheusMiddleware
        (lit "custom PrometheusMiddleware competes with isa_common.metrics middleware")
  | setsProvider {line func args keywords a} (hlast : lastName func = some a) (h : lit "set_tracer_provider" <:+ a) :
      Violates (.call line func args keywords) .rawTracerProvider
        (lit "raw set_tracer_provider call; use isa_common.tracing/setup_observability")
  | metricsRoute {line func args keywords} (h : RegistersRoute func) :
      Violates (.call line func (.string (lit "/metrics") :: args) keywords) .customMetricsRoute
        (lit "custom /metrics route; use isa_common.metrics/setup_observability")
  | addsMiddleware {line func first args keywords a} (hlast : lastName func = some a) (h : lit "add_middleware" <:+ a)
      (hfirst : lastName first = some (lit "PrometheusMiddleware")) :
      Violates (.call line func (first :: args) keywords) .customPrometheusMiddleware
        (lit "custom PrometheusMiddleware registered; use isa_common.metrics middleware")

/-- A call of `setup_observability`, under any number of leading underscores. -/
def setsUp : Ast → Bool
  | .call _ func _ _ =>
    (lastName func).any fun a => a.dropWhile (· == cp '_') == lit "setup_observability"
  | _ => false

/-- `node.lineno`, or 0. -/
def lineOf : Ast → Nat
  | .imports line _ => line
  | .importFrom line _ _ => line
  | .classDef line _ _ => line
  | .call line _ _ _ => line
  | _ => 0

theorem isImportOf_iff {package module : Str} : isImportOf package module = true ↔ InPackage package module := by
  rw [isImportOf, Bool.or_eq_true, beq_iff_eq, List.isPrefixOf_iff_prefix]
  exact or_congr_right ⟨fun ⟨inner, h⟩ => ⟨inner, h.symm⟩, fun ⟨inner, h⟩ => ⟨inner, h.symm⟩⟩

theorem not_inPackage_nil {package : Str} (h : package ≠ []) : ¬ InPackage package [] := by
  rintro (rfl | ⟨inner, hinner⟩)
  · exact h rfl
  · simp [lit] at hinner

theorem isMetricsRouteCall_iff {func : Ast} {args : List Ast} (h : DotFree func) :
    isMetricsRouteCall func args = true ↔ (∃ rest, args = .string (lit "/metrics") :: rest) ∧ RegistersRoute func := by
  have hfirst : firstStringArg args = some (lit "/metrics") ↔ ∃ rest, args = .string (lit "/metrics") :: rest := by
    rcases args with _ | ⟨first, rest⟩
    · simp [firstStringArg]
    · cases first <;> simp [firstStringArg]
  rw [← hfirst]
  unfold isMetricsRouteCall
  by_cases hmetrics : firstStringArg args = some (lit "/metrics")
  · rw [if_neg (not_not.mpr hmetrics), RegistersRoute, ← route_callName h]
    simp only [hmetrics, true_and, List.isSuffixOf_iff_suffix]
    by_cases hroute : callName func = lit "Route" ∨ callName func = lit "starlette.routing.Route" ∨
        lit ".Route" <:+ callName func
    · simp only [hroute, if_true, true_or]
    · simp only [hroute, if_false, false_or]
      induction func using ast_induction with
      | dotted value attr _ =>
        by_cases hattr : attr = lit "get" ∨ attr = lit "route" ∨ attr = lit "add_route"
        · simp [hattr]
        · simp [hattr]
      | imports | importFrom | classDef | call | name | string | other => simp
  · simp [hmetrics]

theorem mem_ite_singleton {α : Type} {p : Prop} [Decidable p] {a b : α} : (a ∈ if p then [b] else []) ↔ p ∧ a = b := by
  split <;> simp [*]

theorem mem_moduleFindings {path : Str} {line : Nat} {module : Str} {f : Finding} :
    f ∈ moduleFindings path line module ↔
      (InPackage (lit "prometheus_client") module ∧ f = finding path .rawPrometheusClient line
        (lit "raw prometheus_client import; use isa_common.metrics factories")) ∨
      (InPackage (lit "prometheus_fastapi_instrumentator") module ∧ f = finding path .prometheusFastapiInstrumentator line
        (lit "prometheus-fastapi-instrumentator competes with isa_common.metrics")) := by
  rw [moduleFindings, List.mem_append, mem_ite_singleton, mem_ite_singleton]
  exact or_congr (and_congr_left' isImportOf_iff) (and_congr_left' isImportOf_iff)

theorem mem_importFromFindings {path : Str} {line : Nat} {module : Option Str} {names : List Str} {f : Finding} :
    f ∈ importFromFindings path line (module.getD []) names ↔
      ∃ rule message, Violates (.importFrom line module names) rule message ∧ f = finding path rule line message := by
  rw [importFromFindings, List.mem_append, List.mem_append, mem_moduleFindings, mem_ite_singleton, mem_ite_singleton]
  constructor
  · cases module with
    | none =>
      rintro (((⟨h, _⟩ | ⟨h, _⟩) | ⟨⟨h, _⟩, _⟩) | ⟨⟨h, _⟩, _⟩)
      · exact absurd h (not_inPackage_nil (by decide))
      · exact absurd h (not_inPackage_nil (by decide))
      · exact absurd h (by decide)
      · exact absurd h (by decide)
    | some module =>
      rintro (((⟨h, hf⟩ | ⟨h, hf⟩) | ⟨⟨h, hname⟩, hf⟩) | ⟨⟨h, hname⟩, hf⟩)
      · exact ⟨_, _, .fromPrometheus h, hf⟩
      · exact ⟨_, _, .fromInstrumentator h, hf⟩
      · obtain rfl : module = lit "opentelemetry.sdk.trace" := h
        exact ⟨_, _, .tracerProvider hname, hf⟩
      · obtain rfl : module = lit "opentelemetry.trace" := h
        exact ⟨_, _, .setTracerProvider hname, hf⟩
  · rintro ⟨rule, message, hviolates, hf⟩
    cases hviolates with
    | fromPrometheus h => exact .inl (.inl (.inl ⟨h, hf⟩))
    | fromInstrumentator h => exact .inl (.inl (.inr ⟨h, hf⟩))
    | tracerProvider h => exact .inl (.inr ⟨⟨rfl, h⟩, hf⟩)
    | setTracerProvider h => exact .inr ⟨⟨rfl, h⟩, hf⟩

theorem mem_middlewareFindings {path : Str} {line : Nat} {func : Ast} {args : List Ast}
    (h : ∀ n ∈ args, DotFree n) {f : Finding} : f ∈ middlewareFindings path line (callName func) args ↔
      ∃ first rest a, args = first :: rest ∧ lastName func = some a ∧ lit "add_middleware" <:+ a ∧
        lastName first = some (lit "PrometheusMiddleware") ∧
        f = finding path .customPrometheusMiddleware line
          (lit "custom PrometheusMiddleware registered; use isa_common.metrics middleware") := by
  cases args with
  | nil => simp [middlewareFindings]
  | cons first rest =>
    have hleaf : leaf (callName first) = lit "PrometheusMiddleware" ↔
        lastName first = some (lit "PrometheusMiddleware") := by
      rw [leaf_callName (h first List.mem_cons_self)]
      cases lastName first with
      | none => exact iff_of_false (by decide) (by simp)
      | some a => simp
    rw [middlewareFindings, mem_ite_singleton, hleaf, List.isSuffixOf_iff_suffix,
      isSuffix_callName (by decide) (by decide)]
    constructor
    · rintro ⟨⟨⟨a, hlast, hsuffix⟩, hfirst⟩, hf⟩
      exact ⟨first, rest, a, rfl, hlast, hsuffix, hfirst, hf⟩
    · rintro ⟨_, _, a, hargs, hlast, hsuffix, hfirst, hf⟩
      obtain ⟨rfl, rfl⟩ := List.cons.inj hargs
      exact ⟨⟨⟨a, hlast, hsuffix⟩, hfirst⟩, hf⟩

theorem mem_callFindings {path : Str} {line : Nat} {func : Ast} {args keywords : List Ast}
    (hfunc : DotFree func) (hargs : ∀ n ∈ args, DotFree n) {f : Finding} : f ∈ callFindings path line func args ↔
      ∃ rule message, Violates (.call line func args keywords) rule message ∧ f = finding path rule line message := by
  rw [callFindings, List.mem_append, List.mem_append, mem_ite_singleton, mem_ite_singleton,
    mem_middlewareFindings hargs, isMetricsRouteCall_iff hfunc, List.isSuffixOf_iff_suffix,
    isSuffix_callName (by decide) (by decide)]
  constructor
  · rintro ((⟨⟨a, hlast, hsuffix⟩, hf⟩ | ⟨⟨⟨rest, rfl⟩, hroute⟩, hf⟩) |
      ⟨first, rest, a, rfl, hlast, hsuffix, hfirst, hf⟩)
    · exact ⟨_, _, .setsProvider hlast hsuffix, hf⟩
    · exact ⟨_, _, .metricsRoute hroute, hf⟩
    · exact ⟨_, _, .addsMiddleware hlast hsuffix hfirst, hf⟩
  · rintro ⟨rule, message, hviolates, hf⟩
    cases hviolates with
    | setsProvider hlast hsuffix => exact .inl (.inl ⟨⟨_, hlast, hsuffix⟩, hf⟩)
    | metricsRoute hroute => exact .inl (.inr ⟨⟨⟨_, rfl⟩, hroute⟩, hf⟩)
    | addsMiddleware hlast hsuffix hfirst => exact .inr ⟨_, _, _, rfl, hlast, hsuffix, hfirst, hf⟩

theorem DotFree.func {line : Nat} {func : Ast} {args keywords : List Ast}
    (h : DotFree (.call line func args keywords)) : DotFree func :=
  h.node (List.mem_cons_of_mem _ (List.mem_append_left _ (self_mem_nodes func)))

theorem DotFree.args {line : Nat} {func : Ast} {args keywords : List Ast}
    (h : DotFree (.call line func args keywords)) : ∀ n ∈ args, DotFree n := by
  intro n hn
  have hmem : n ∈ nodesOf args := mem_nodesOf.mpr ⟨n, hn, self_mem_nodes n⟩
  exact h.node (List.mem_cons_of_mem _ (List.mem_append_right _ (List.mem_append_left _ hmem)))

/-- What is reported of one node. -/
theorem mem_own_iff {path : Str} {n : Ast} (h : DotFree n) {f : Finding} : f ∈ (own path n).findings ↔
    ∃ rule message, Violates n rule message ∧ f = finding path rule (lineOf n) message := by
  have hsilent : (∀ rule message, ¬ Violates n rule message) → (own path n).findings = [] →
      (f ∈ (own path n).findings ↔
        ∃ rule message, Violates n rule message ∧ f = finding path rule (lineOf n) message) := by
    intro hnone hown
    rw [hown]
    exact iff_of_false List.not_mem_nil fun ⟨rule, message, hviolates, _⟩ => hnone rule message hviolates
  induction n using ast_induction with
  | imports line names =>
    simp only [own, List.mem_flatMap, mem_moduleFindings]
    constructor
    · rintro ⟨module, hmodule, ⟨hin, hf⟩ | ⟨hin, hf⟩⟩
      · exact ⟨_, _, .importPrometheus hmodule hin, hf⟩
      · exact ⟨_, _, .importInstrumentator hmodule hin, hf⟩
    · rintro ⟨rule, message, hviolates, hf⟩
      cases hviolates with
      | importPrometheus hmodule hin => exact ⟨_, hmodule, .inl ⟨hin, hf⟩⟩
      | importInstrumentator hmodule hin => exact ⟨_, hmodule, .inr ⟨hin, hf⟩⟩
  | importFrom line module names => exact mem_importFromFindings
  | classDef line name children _ =>
    simp only [own, classFindings, mem_ite_singleton]
    constructor
    · rintro ⟨rfl, hf⟩
      exact ⟨_, _, .middlewareClass, hf⟩
    · rintro ⟨rule, message, hviolates, hf⟩
      cases hviolates with
      | middlewareClass => exact ⟨rfl, hf⟩
  | call line func args keywords _ _ _ => exact mem_callFindings h.func h.args
  | name id =>
    refine hsilent ?_ rfl
    intro rule message hviolates
    cases hviolates
  | dotted value attr _ =>
    refine hsilent ?_ rfl
    intro rule message hviolates
    cases hviolates
  | string value =>
    refine hsilent ?_ rfl
    intro rule message hviolates
    cases hviolates
  | other children _ =>
    refine hsilent ?_ rfl
    intro rule message hviolates
    cases hviolates

theorem own_setups {path : Str} {n : Ast} (h : DotFree n) :
    (own path n).setupObservabilityCalls = if setsUp n then [lineOf n] else [] := by
  cases n with
  | call line func args keywords =>
    have hcall : isSetupObservabilityCall (callName func) = setsUp (.call line func args keywords) := by
      rw [isSetupObservabilityCall, leaf_callName h.func, setsUp]
      cases lastName func <;> rfl
    rw [own, hcall]
    rfl
  | _ => rfl

end IsaCloud.Observability
