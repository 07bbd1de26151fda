import IsaCloud.Support.Dict
import IsaCloud.Support.Glob
import IsaCloud.Support.Json
import IsaCloud.Support.Listing
import IsaCloud.Support.PosixPath
import Mathlib.Data.List.Sort

/-!
# The observability contract scan

`scripts/observability_contract_scan.py` reads the Python files of a checkout and
reports what competes with `isa_common`, then looks for a ServiceMonitor of every
service. A checkout is a repository at a place; paths are absolute and resolved.
`str.lower` and `ast.parse` are the interpreter's, and of a syntax tree only what
the visitor reads is kept.
-/

namespace IsaCloud.Observability

set_option autoImplicit false

open Support
open Text Python Encoding Json Glob PosixPath

/-! ## Findings -/

inductive Severity where
  | error
  | warning
  deriving DecidableEq, Repr

inductive Rule where
  | rawPrometheusClient
  | prometheusFastapiInstrumentator
  | rawTracerProvider
  | customPrometheusMiddleware
  | customMetricsRoute
  | pythonParseError
  | multipleSetupObservability
  | missingServiceMonitor
  deriving DecidableEq, Repr

def Rule.text : Rule → Str
  | rawPrometheusClient => lit "raw-prometheus-client"
  | prometheusFastapiInstrumentator => lit "prometheus-fastapi-instrumentator"
  | rawTracerProvider => lit "raw-tracer-provider"
  | customPrometheusMiddleware => lit "custom-prometheus-middleware"
  | customMetricsRoute => lit "custom-metrics-route"
  | pythonParseError => lit "python-parse-error"
  | multipleSetupObservability => lit "multiple-setup-observability"
  | missingServiceMonitor => lit "missing-service-monitor"

structure Finding where
  rule : Rule
  severity : Severity
  path : Str
  line : Nat
  message : Str
  service : Option Str
  deriving DecidableEq

structure ScanSummary where
  scannedFiles : Nat
  findings : List Finding

/-- The order of `(path, line, rule)`. -/
def keyLe (k k' : Str × Nat × Str) : Bool :=
  if k.1 ≠ k'.1 then strLe k.1 k'.1
  else if k.2.1 ≠ k'.2.1 then decide (k.2.1 < k'.2.1)
  else strLe k.2.2 k'.2.2

def Finding.key (f : Finding) : Str × Nat × Str := (f.path, f.line, f.rule.text)

def sortedFindings (findings : List Finding) : List Finding :=
  findings.insertionSort fun f f' => keyLe f.key f'.key = true

/-! ## Options -/

def defaultServices : List Str :=
  [lit "isa-mcp", lit "isa-model", lit "isa-agent", lit "isa-data", lit "isa-user", lit "isa-trade",
    lit "isa-creative", lit "isa-mate", lit "isa-os"]

def defaultSkipDirs : List Str :=
  [lit ".git", lit ".hg", lit ".mypy_cache", lit ".pytest_cache", lit ".ruff_cache", lit ".tox", lit ".venv",
    lit "__pycache__", lit "build", lit "dist", lit "htmlcov", lit "node_modules", lit "site-packages", lit "venv"]

def docTestParts : List Str := [lit "docs", lit "doc", lit "examples", lit "example", lit "tests", lit "test"]

def defaultAllowGlobs : List Str := [lit "isA_common/**", lit "isa_common/**"]

/-- `rel` of `repo_root / rel`. -/
def osNames (rel : String) : List Name :=
  (segments (lit rel)).filterMap fun seg =>
    match component seg with
    | some (.name n) => some n
    | _ => none

def defaultServiceMonitorPaths : List (List Name) :=
  [osNames "deployments/kubernetes/production/manifests/app-service-monitors.yaml",
    osNames "deployments/kubernetes/production/manifests/prometheus-service-monitors.yaml"]

structure Options where
  includeDocsTests : Bool := false
  excludes : List Str := []
  allowGlobs : List Str := defaultAllowGlobs
  services : List Str := defaultServices
  /-- Given by their names below the repository root. -/
  monitorPaths : Option (List (List Name)) := none
  checkServiceMonitors : Bool := true

/-! ## Syntax trees -/

inductive Ast where
  | imports (lineno : Nat) (names : List Str)
  | importFrom (lineno : Nat) (module : Option Str) (names : List Str)
  | classDef (lineno : Nat) (name : Str) (children : List Ast)
  | call (lineno : Nat) (func : Ast) (args keywords : List Ast)
  | name (id : Str)
  | attribute (value : Ast) (attr : Str)
  | string (value : Str)
  /-- Any other node, with its children in the order of the fields. -/
  | other (children : List Ast)

inductive ParseFailure where
  | syntaxError (lineno : Option Nat)
  | raised (e : PyError)

structure Interpreter where
  /-- `str.lower`. -/
  lower : Str → Str
  /-- `ast.parse`. -/
  parse : Str → Except ParseFailure Ast

/-! ## Checkouts and their paths -/

structure Repository where
  listing : Listing Name Bytes
  ok : listing.wellFormed = true

structure Checkout where
  place : List Name
  repo : Repository

def parts (path : List Name) : List Str := path.map fun n => fsdecode n.bytes

/-- `as_posix()` of a relative path. -/
def posix (path : List Name) : Str := if path.isEmpty then lit "." else PosixPath.text (parts path)

/-- `as_posix()` of an absolute path. -/
def absPosix (path : List Name) : Str := slash :: PosixPath.text (parts path)

/-- `rsplit(".", 1)[-1]`. -/
def leaf (name : Str) : Str := (name.reverse.takeWhile (· != cp '.')).reverse

/-- The suffix of a path with this last part. -/
def suffix (name : Str) : Str :=
  let ext := leaf name
  if ext.length + 1 < name.length ∧ ext ≠ [] then cp '.' :: ext else []

section Paths
variable (py : Interpreter) (opts : Options) (c : Checkout)

def resolve (path : List Name) : List Name :=
  match path.dropPrefix? c.place with
  | some rel => c.place ++ c.repo.listing.resolve rel
  | none => path

def relative (path : List Name) : Str :=
  match (resolve c path).dropPrefix? (resolve c c.place) with
  | some rel => posix rel
  | none => absPosix path

def matchesAny (path : List Name) (patterns : List Str) : Bool :=
  patterns.any fun pattern => fnmatch (relative c path) pattern

def isDocOrTestPath (path : List Name) : Bool :=
  (lit "/" :: parts path).any fun part => docTestParts.contains (py.lower part)

def shouldScanPythonFile (path : List Name) : Bool :=
  if suffix ((parts path).getLastD []) != lit ".py" then false
  else if matchesAny c path opts.allowGlobs then false
  else if !opts.includeDocsTests && isDocOrTestPath py path then false
  else true

/-- What stays in `dirnames`. -/
def keepDir (current : List Name) (name : Name) : Bool :=
  !defaultSkipDirs.contains (fsdecode name.bytes) && !matchesAny c (current ++ [name]) opts.excludes &&
    (opts.includeDocsTests || !isDocOrTestPath py (current ++ [name]))

def keepFile (current : List Name) (name : Name) : Bool :=
  !matchesAny c (current ++ [name]) opts.excludes && shouldScanPythonFile py opts c (current ++ [name])

/-- With the repository root as the only root. -/
def iterPythonFiles : List (List Name) :=
  Listing.walk c.repo.listing (keepDir py opts c) (keepFile py opts c) c.place c.repo.listing

def dataAt (path : List Name) : Option Bytes := (path.dropPrefix? c.place).bind c.repo.listing.dataAt

def noSuchFile (path : List Name) : PyError :=
  ⟨.osError, lit "[Errno 2] No such file or directory: " ++ absPosix path⟩

/-- `path.read_text(encoding="utf-8")`. -/
def readPath (path : List Name) : Except PyError Str :=
  match dataAt c path with
  | some bs => readText bs
  | none => .error (noSuchFile path)

end Paths

/-! ## The visitor -/

def callName : Ast → Str
  | .name id => id
  | .attribute value attr =>
    let parent := callName value
    if parent ≠ [] then parent ++ lit "." ++ attr else attr
  | _ => []

def rootName : Ast → Str
  | .name id => id
  | .attribute value _ => rootName value
  | _ => []

def firstStringArg : List Ast → Option Str
  | .string value :: _ => some value
  | _ => none

def isMetricsRouteCall (func : Ast) (args : List Ast) : Bool :=
  if firstStringArg args ≠ some (lit "/metrics") then false
  else
    let funcName := callName func
    if funcName = lit "Route" ∨ funcName = lit "starlette.routing.Route" ∨ (lit ".Route").isSuffixOf funcName then true
    else
      match func with
      | .attribute _ attr =>
        let root := rootName func
        if attr = lit "get" ∨ attr = lit "route" ∨ attr = lit "add_route" then
          [lit "app", lit "api", lit "router"].contains root || (lit "router").isSuffixOf root
        else false
      | _ => false

def isImportOf (package module : Str) : Bool := module == package || (package ++ lit ".").isPrefixOf module

def isPrometheusImport (module : Str) : Bool := isImportOf (lit "prometheus_client") module

def isInstrumentatorImport (module : Str) : Bool := isImportOf (lit "prometheus_fastapi_instrumentator") module

def isSetupObservabilityCall (funcName : Str) : Bool :=
  (leaf funcName).dropWhile (· == cp '_') == lit "setup_observability"

/-- What the visitor has collected. -/
structure Visit where
  findings : List Finding := []
  setupObservabilityCalls : List Nat := []

def Visit.append (v w : Visit) : Visit :=
  ⟨v.findings ++ w.findings, v.setupObservabilityCalls ++ w.setupObservabilityCalls⟩

section Visitor
variable (path : Str)

def finding (rule : Rule) (line : Nat) (message : Str) : Finding := ⟨rule, .error, path, line, message, none⟩

/-- The two checks that `import` and `from … import` share. -/
def moduleFindings (line : Nat) (module : Str) : List Finding :=
  (if isPrometheusImport module then
    [finding path .rawPrometheusClient line (lit "raw prometheus_client import; use isa_common.metrics factories")]
  else []) ++
  if isInstrumentatorImport module then
    [finding path .prometheusFastapiInstrumentator line
      (lit "prometheus-fastapi-instrumentator competes with isa_common.metrics")]
  else []

def importFromFindings (line : Nat) (module : Str) (names : List Str) : List Finding :=
  moduleFindings path line module ++
  (if module = lit "opentelemetry.sdk.trace" ∧ lit "TracerProvider" ∈ names then
    [finding path .rawTracerProvider line
      (lit "raw TracerProvider import; use isa_common.tracing/setup_observability")]
  else []) ++
  if module = lit "opentelemetry.trace" ∧ lit "set_tracer_provider" ∈ names then
    [finding path .rawTracerProvider line
      (lit "raw set_tracer_provider import; use isa_common.tracing/setup_observability")]
  else []

def classFindings (line : Nat) (name : Str) : List Finding :=
  if name = lit "PrometheusMiddleware" then
    [finding path .customPrometheusMiddleware line
      (lit "custom PrometheusMiddleware competes with isa_common.metrics middleware")]
  else []

def middlewareFindings (line : Nat) (funcName : Str) : List Ast → List Finding
  | [] => []
  | first :: _ =>
    if (lit "add_middleware").isSuffixOf funcName ∧ leaf (callName first) = lit "PrometheusMiddleware" then
      [finding path .customPrometheusMiddleware line
        (lit "custom PrometheusMiddleware registered; use isa_common.metrics middleware")]
    else []

def callFindings (line : Nat) (func : Ast) (args : List Ast) : List Finding :=
  let funcName := callName func
  (if (lit "set_tracer_provider").isSuffixOf funcName then
    [finding path .rawTracerProvider line
      (lit "raw set_tracer_provider call; use isa_common.tracing/setup_observability")]
  else []) ++
  (if isMetricsRouteCall func args then
    [finding path .customMetricsRoute line
      (lit "custom /metrics route; use isa_common.metrics/setup_observability")]
  else []) ++
  middlewareFindings path line funcName args

mutual

def visit : Ast → Visit
  | .imports line names => ⟨names.flatMap (moduleFindings path line), []⟩
  | .importFrom line module names => ⟨importFromFindings path line (module.getD []) names, []⟩
  | .classDef line name children => Visit.append ⟨classFindings path line name, []⟩ (genericVisit children)
  | .call line func args keywords =>
    Visit.append ⟨callFindings path line func args, if isSetupObservabilityCall (callName func) then [line] else []⟩
      (Visit.append (visit func) (Visit.append (genericVisit args) (genericVisit keywords)))
  | .name _ => {}
  | .attribute value _ => visit value
  | .string _ => {}
  | .other children => genericVisit children

def genericVisit : List Ast → Visit
  | [] => {}
  | node :: nodes => Visit.append (visit node) (genericVisit nodes)

end

end Visitor

/-! ## Python files -/

section Roots
variable (py : Interpreter) (opts : Options) (c : Checkout)

def parseError (path : List Name) (lineno : Option Nat) : Finding :=
  ⟨.pythonParseError, .warning, relative c path, lineno.getD 0,
    lit "could not parse Python file; scanner skipped AST checks", none⟩

/-- One pass through the loop of `scan_python_roots`. -/
def scanFile (path : List Name) : Except PyError Visit :=
  match readPath c path with
  | .error e => .error e
  | .ok text =>
    match py.parse text with
    | .error (.syntaxError lineno) => .ok ⟨[parseError c path lineno], []⟩
    | .error (.raised e) => .error e
    | .ok tree => .ok (visit (relative c path) tree)

structure Scanned where
  scannedFiles : Nat
  findings : List Finding
  setupCalls : List (List Name × Nat)

def Scanned.add (s : Scanned) (path : List Name) (v : Visit) : Scanned :=
  ⟨s.scannedFiles + 1, s.findings ++ v.findings, s.setupCalls ++ v.setupObservabilityCalls.map fun line => (path, line)⟩

def scanFiles (s : Scanned) : List (List Name) → Except PyError Scanned
  | [] => .ok s
  | path :: paths =>
    match scanFile py c path with
    | .error e => .error e
    | .ok v => scanFiles (s.add path v) paths

def location (call : List Name × Nat) : Str := relative c call.1 ++ lit ":" ++ natText call.2

/-- The only root is the checkout itself. -/
def multipleSetup (calls : List (List Name × Nat)) : List Finding :=
  match calls with
  | (firstPath, firstLine) :: _ :: _ =>
    [⟨.multipleSetupObservability, .error, relative c firstPath, firstLine,
      lit "setup_observability() is called " ++ natText calls.length ++ lit " times under " ++ relative c c.place ++
        lit "; expected one startup/lifespan entrypoint. Locations: " ++ joinComma (calls.map (location c)),
      some ((parts c.place).getLastD [])⟩]
  | _ => []

def scanPythonRoots : Except PyError ScanSummary :=
  (scanFiles py c ⟨0, [], []⟩ (iterPythonFiles py opts c)).map fun s =>
    ⟨s.scannedFiles, sortedFindings (s.findings ++ multipleSetup c s.setupCalls)⟩

end Roots

/-! ## Service monitors -/

def newline : CodePoint := 10

/-- How far `\s*$` goes: to the end of the text, or to the last line end that only white space leads to. -/
def lineEnd (s : Str) : Option Nat :=
  let run := s.takeWhile isSpace
  if run.length = s.length then some run.length
  else
    match run.reverse.dropWhile (· != newline) with
    | [] => none
    | _ :: before => some before.length

/-- `^---\s*$`, and how long the match is. -/
def separator (s : Str) : Option Nat :=
  (s.dropPrefix? (lit "---")).bind fun rest => (lineEnd rest).map (3 + ·)

/-- `re.split`; `skip` code points belong to a separator, and `start` says that a line begins here. -/
def splitBlocks : Nat → Bool → Str → List Str
  | _, _, [] => [[]]
  | skip + 1, _, c :: rest => splitBlocks skip (c == newline) rest
  | 0, start, c :: rest =>
    match if start then separator (c :: rest) else none with
    | some n => [] :: splitBlocks (n - 1) (c == newline) rest
    | none =>
      match splitBlocks 0 (c == newline) rest with
      | [] => [[c]]
      | block :: blocks => (c :: block) :: blocks

/-- `^\s*kind:\s*ServiceMonitor\s*$`. -/
def kindLine (s : Str) : Bool :=
  match (s.dropWhile isSpace).dropPrefix? (lit "kind:") with
  | none => false
  | some rest =>
    match (rest.dropWhile isSpace).dropPrefix? (lit "ServiceMonitor") with
    | none => false
    | some rest => (lineEnd rest).isSome

def hasKindLine : Bool → Str → Bool
  | _, [] => false
  | start, c :: rest => (start && kindLine (c :: rest)) || hasKindLine (c == newline) rest

def serviceMonitorBlocks (text : Str) : List Str := (splitBlocks 0 true text).filter (hasKindLine true)

/-- `[A-Za-z0-9_.-]`. -/
def isNamePoint (c : CodePoint) : Bool :=
  isDigit c || decide ((65 ≤ c.val ∧ c.val ≤ 90) ∨ (97 ≤ c.val ∧ c.val ≤ 122)) || [cp '_', cp '.', cp '-'].contains c

/-- An apostrophe or a quotation mark. -/
def isQuote (c : CodePoint) : Bool := c == 39 || c == 34

/-- The value of `^\s*(?:name|app):\s*['\"]?([A-Za-z0-9_.-]+)`, and how long the match is. -/
def value (s : Str) : Option (Str × Nat) :=
  let body := s.dropWhile isSpace
  match (body.dropPrefix? (lit "name:")).orElse fun _ => body.dropPrefix? (lit "app:") with
  | none => none
  | some rest =>
    let rest := rest.dropWhile isSpace
    let rest := if rest.head?.any isQuote then rest.tail else rest
    let found := rest.takeWhile isNamePoint
    if found = [] then none else some (found, s.length - (rest.length - found.length))

/-- `value_re.findall`. -/
def findValues : Nat → Bool → Str → List Str
  | _, _, [] => []
  | skip + 1, _, c :: rest => findValues skip (c == newline) rest
  | 0, start, c :: rest =>
    match if start then value (c :: rest) else none with
    | some (found, n) => found :: findValues (n - 1) (c == newline) rest
    | none => findValues 0 (c == newline) rest

section Monitors
variable (py : Interpreter) (opts : Options) (c : Checkout)

def normalizeServiceName (name : Str) : Str :=
  let normalized := py.lower ((strip name).map fun c => if c = cp '_' then cp '-' else c)
  if (lit "isa-").isPrefixOf normalized then normalized
  else if (lit "isa").isPrefixOf normalized then lit "isa-" ++ (normalized.drop 3).dropWhile (· == cp '-')
  else normalized

/-- `refs.setdefault(service, []).append(path)`. -/
def addRef (path : Str) (refs : Dict Str (List Str)) (service : Str) : Dict Str (List Str) :=
  refs.set service ((refs.get service).getD [] ++ [path])

/-- The references in one manifest. -/
def manifestServices (text : Str) : List Str :=
  (serviceMonitorBlocks text).flatMap fun block => (findValues 0 true block).map (normalizeServiceName py)

def collectServiceMonitorRefs (refs : Dict Str (List Str)) : List (List Name) → Except PyError (Dict Str (List Str))
  | [] => .ok refs
  | path :: paths =>
    if (dataAt c path).isNone then collectServiceMonitorRefs refs paths
    else
      match readPath c path with
      | .error e => .error e
      | .ok text => collectServiceMonitorRefs ((manifestServices py text).foldl (addRef (absPosix path)) refs) paths

def missingMonitor (manifestPath : List Name) (normalized : Str) : Finding :=
  ⟨.missingServiceMonitor, .error, relative c manifestPath, 0,
    lit "no ServiceMonitor reference found for " ++ normalized ++
      lit "; add a production ServiceMonitor or pass --skip-service-monitor-check",
    some normalized⟩

def isReferenced (refs : Dict Str (List Str)) (normalized : Str) : Bool :=
  refs.keys.any fun ref => ref == normalized || (normalized ++ lit "-").isPrefixOf ref

def serviceMonitorFindings (monitorPaths : List (List Name)) : Except PyError (List Finding) :=
  match monitorPaths.filter fun path => (dataAt c path).isSome with
  | [] => .ok []
  | first :: existing =>
    (collectServiceMonitorRefs py c Dict.empty (first :: existing)).map fun refs =>
      ((opts.services.map (normalizeServiceName py)).filter fun service => !isReferenced refs service).map
        (missingMonitor c first)

/-! ## The scan -/

def monitorPaths : List (List Name) :=
  (opts.monitorPaths.getD defaultServiceMonitorPaths).map fun rel => c.place ++ rel

/-- `scan([repo_root], repo_root, …)`. -/
def scan : Except PyError ScanSummary :=
  match scanPythonRoots py opts c with
  | .error e => .error e
  | .ok summary =>
    if opts.checkServiceMonitors then
      (serviceMonitorFindings py opts c (monitorPaths opts c)).map fun findings =>
        ⟨summary.scannedFiles, sortedFindings (summary.findings ++ findings)⟩
    else .ok ⟨summary.scannedFiles, sortedFindings summary.findings⟩

end Monitors

end IsaCloud.Observability
