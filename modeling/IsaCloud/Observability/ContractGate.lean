import IsaCloud.Observability.Placement
import IsaCloud.Observability.Visitor

/-!
# What the scan reports, and when the gate passes

Every forbidden node of every Python file in scope is reported, and nothing else
but files that cannot be parsed, a second `setup_observability` and services
without a monitor. The exit code is zero exactly when there is no such error.
-/

namespace IsaCloud.Observability

set_option autoImplicit false

open Support
open Text Python Encoding Json Glob PosixPath

/-! ## What is inspected -/

section Statement
variable (py : Interpreter) (opts : Options) (c : Checkout)

/-- A Python file, by its names below the place, that the options leave to be scanned. -/
structure Inspected (p : List Name) : Prop where
  file : p ∈ Listing.allFiles c.repo.listing c.repo.listing
  python : suffix ((parts (c.place ++ p)).getLastD []) = lit ".py"
  dirs : ∀ n ∈ p.dropLast, fsdecode n.bytes ∉ defaultSkipDirs
  service : opts.includeDocsTests = true ∨ isDocOrTestPath py (c.place ++ p) = false
  enforced : matchesAny c (c.place ++ p) opts.allowGlobs = false
  included : ∀ q, q <+: p → q ≠ [] → matchesAny c (c.place ++ q) opts.excludes = false

/-- The nodes of a file that can be parsed. -/
def nodesAt (path : List Name) : List Ast :=
  ((readPath c path).toOption.bind fun text => (py.parse text).toOption).elim [] nodes

/-- Every call of `setup_observability`, with its file and line, in the order of the scan. -/
def setups : List (List Name × Nat) :=
  (iterPythonFiles py opts c).flatMap fun path => ((nodesAt py c path).filter setsUp).map fun n => (path, lineOf n)

/-- A manifest refers to the service or to something named after it. -/
def Monitored (service : Str) : Prop :=
  ∃ path ∈ monitorPaths opts c, ∃ text, readPath c path = .ok text ∧
    ∃ ref ∈ manifestServices py text, ref = service ∨ service ++ lit "-" <+: ref

/-- The scan does not come to a file that it cannot read, or that crashes the parser. -/
structure Readable : Prop where
  files : ∀ p, Inspected py opts c p → ∃ text, readPath c (c.place ++ p) = .ok text ∧ ∀ e, py.parse text ≠ .error (.raised e)
  manifests : opts.checkServiceMonitors = true → ∀ path ∈ monitorPaths opts c, (dataAt c path).isSome = true →
    ∃ text, readPath c path = .ok text

/-- What a finding stands for. -/
inductive Reported (f : Finding) : Prop where
  | violation {p text tree n rule message} (hscope : Inspected py opts c p)
      (hread : readPath c (c.place ++ p) = .ok text) (hparse : py.parse text = .ok tree) (hnode : n ∈ nodes tree)
      (h : Violates n rule message) (hf : f = finding (relative c (c.place ++ p)) rule (lineOf n) message)
  | unparsed {p text lineno} (hscope : Inspected py opts c p) (hread : readPath c (c.place ++ p) = .ok text)
      (hparse : py.parse text = .error (.syntaxError lineno)) (hf : f = parseError c (c.place ++ p) lineno)
  | setUpAgain (hf : f ∈ multipleSetup c (setups py opts c))
  | unmonitored {first service} (hcheck : opts.checkServiceMonitors = true)
      (hfirst : ((monitorPaths opts c).filter fun path => (dataAt c path).isSome).head? = some first)
      (hservice : service ∈ opts.services) (h : ¬ Monitored py opts c (normalizeServiceName py service))
      (hf : f = missingMonitor c first (normalizeServiceName py service))

/-- Nothing that the contract forbids. -/
structure Clean : Prop where
  files : ∀ p text tree, Inspected py opts c p → readPath c (c.place ++ p) = .ok text → py.parse text = .ok tree →
    ∀ n ∈ nodes tree, ∀ rule message, ¬ Violates n rule message
  setups : (setups py opts c).length ≤ 1
  monitors : opts.checkServiceMonitors = true → (∃ path ∈ monitorPaths opts c, (dataAt c path).isSome = true) →
    ∀ service ∈ opts.services, Monitored py opts c (normalizeServiceName py service)

end Statement

/-! ## The exit code -/

def ScanSummary.errorCount (s : ScanSummary) : Nat := s.findings.countP fun f => f.severity = .error

/-- The arguments, with the repository as the only path. -/
structure Arguments where
  includeDocsTests : Bool := false
  exclude : List Str := []
  allowPath : List Str := []
  service : List Str := []
  serviceMonitor : List (List Name) := []
  skipServiceMonitorCheck : Bool := false
  warnOnly : Bool := false

def Arguments.options (a : Arguments) : Options where
  includeDocsTests := a.includeDocsTests
  excludes := a.exclude
  allowGlobs := defaultAllowGlobs ++ a.allowPath
  services := if a.service.isEmpty then defaultServices else a.service
  monitorPaths := if a.serviceMonitor.isEmpty then none else some a.serviceMonitor
  checkServiceMonitors := !a.skipServiceMonitorCheck

def main (py : Interpreter) (a : Arguments) (c : Checkout) : Except PyError Nat :=
  (scan py a.options c).map fun summary => if summary.errorCount ≠ 0 ∧ a.warnOnly = false then 1 else 0

/-! ## Files -/

section Files
variable {py : Interpreter} {opts : Options} {c : Checkout}

theorem passesDir_iff {d : List Name} {n : Name} : keepDir py opts c d n = true ↔
    fsdecode n.bytes ∉ defaultSkipDirs ∧ matchesAny c (d ++ [n]) opts.excludes = false ∧
      (opts.includeDocsTests = true ∨ isDocOrTestPath py (d ++ [n]) = false) := by
  simp [keepDir, and_assoc]

theorem passesFile_iff {d : List Name} {n : Name} : keepFile py opts c d n = true ↔
    matchesAny c (d ++ [n]) opts.excludes = false ∧ suffix ((parts (d ++ [n])).getLastD []) = lit ".py" ∧
      matchesAny c (d ++ [n]) opts.allowGlobs = false ∧
      (opts.includeDocsTests = true ∨ isDocOrTestPath py (d ++ [n]) = false) := by
  simp [keepFile, shouldScanPythonFile_eq, admits, and_assoc]

theorem mem_iterPythonFiles_iff {path : List Name} :
    path ∈ iterPythonFiles py opts c ↔ ∃ p, path = c.place ++ p ∧ Inspected py opts c p := by
  rw [iterPythonFiles, Listing.walk_eq, List.mem_map]
  have hkept : ∀ p, (p ∈ (Listing.allFiles c.repo.listing c.repo.listing).filter
      (Listing.keeps (keepDir py opts c) (keepFile py opts c) c.place)) ↔ Inspected py opts c p := by
    intro p
    rw [List.mem_filter, Listing.keeps_iff]
    constructor
    · rintro ⟨hfile, q, n, rfl, hkept, hdirs⟩
      obtain ⟨hexcluded, hpython, hallowed, hservice⟩ := passesFile_iff.mp hkept
      rw [List.append_assoc] at hexcluded hpython hallowed hservice
      refine ⟨hfile, hpython, ?_, hservice, hallowed, ?_⟩
      · rw [List.dropLast_concat]
        intro m hm
        obtain ⟨d, r, rfl⟩ := List.append_of_mem hm
        exact (passesDir_iff.mp (hdirs d m ⟨r, by simp⟩)).1
      · intro r hr hne
        rcases List.prefix_concat_iff.mp hr with rfl | hr
        · exact hexcluded
        · obtain ⟨d, m, rfl⟩ := (List.eq_nil_or_concat' r).resolve_left hne
          rw [← List.append_assoc]
          exact (passesDir_iff.mp (hdirs d m hr)).2.1
    · intro h
      obtain ⟨q, n, rfl⟩ := (List.eq_nil_or_concat' p).resolve_left (Listing.ne_nil_of_mem_allFiles h.file)
      refine ⟨h.file, q, n, rfl, ?_, ?_⟩
      · rw [passesFile_iff, List.append_assoc]
        exact ⟨h.included _ List.prefix_rfl (by simp), h.python, h.enforced, h.service⟩
      · intro d m hd
        have hprefix : d ++ [m] <+: q ++ [n] := hd.trans (List.prefix_append q [n])
        have hmem : m ∈ (q ++ [n]).dropLast := by
          rw [List.dropLast_concat]
          exact hd.subset (by simp)
        rw [passesDir_iff, List.append_assoc]
        refine ⟨h.dirs m hmem, h.included _ hprefix (by simp), h.service.imp_right fun hservice => ?_⟩
        exact isDocOrTestPath_of_prefix ((List.prefix_append_right_inj c.place).mpr hprefix) hservice
  exact exists_congr fun p => (and_congr_left' (hkept p)).trans (and_comm.trans (and_congr_left' eq_comm))

/-- What a file adds if it can be scanned. -/
def visitAt (py : Interpreter) (c : Checkout) (path : List Name) : Visit := (scanFile py c path).toOption.getD {}

theorem scanFiles_ok {s : Scanned} {paths : List (List Name)} (h : ∀ path ∈ paths, ∃ v, scanFile py c path = .ok v) :
    scanFiles py c s paths = .ok ⟨s.scannedFiles + paths.length,
      s.findings ++ paths.flatMap fun path => (visitAt py c path).findings,
      s.setupCalls ++ paths.flatMap fun path => (visitAt py c path).setupObservabilityCalls.map fun line => (path, line)⟩ := by
  induction paths generalizing s with
  | nil => simp [scanFiles]
  | cons path paths ih =>
    obtain ⟨v, hv⟩ := h path List.mem_cons_self
    have hvisit : visitAt py c path = v := by rw [visitAt, hv]; rfl
    have hcount : s.scannedFiles + 1 + paths.length = s.scannedFiles + (paths.length + 1) := by omega
    simp only [scanFiles, hv, ih fun q hq => h q (List.mem_cons_of_mem _ hq), Scanned.add, List.length_cons,
      List.flatMap_cons, List.append_assoc, hvisit, hcount]

theorem scanFiles_ok_iff {s : Scanned} {paths : List (List Name)} :
    (∃ s', scanFiles py c s paths = .ok s') ↔ ∀ path ∈ paths, ∃ v, scanFile py c path = .ok v := by
  constructor
  · intro h
    induction paths generalizing s with
    | nil =>
      intro path hpath
      cases hpath
    | cons first paths ih =>
      obtain ⟨s', hs'⟩ := h
      rw [scanFiles] at hs'
      cases hfirst : scanFile py c first with
      | error e =>
        rw [hfirst] at hs'
        cases hs'
      | ok v =>
        rw [hfirst] at hs'
        intro path hpath
        rcases List.mem_cons.mp hpath with rfl | hpath
        · exact ⟨v, hfirst⟩
        · exact ih ⟨s', hs'⟩ path hpath
  · exact fun h => ⟨_, scanFiles_ok h⟩

theorem scanFile_ok_iff {path : List Name} : (∃ v, scanFile py c path = .ok v) ↔
    ∃ text, readPath c path = .ok text ∧ ∀ e, py.parse text ≠ .error (.raised e) := by
  rw [scanFile]
  cases readPath c path with
  | error e => simp
  | ok text =>
    dsimp only
    cases hparse : py.parse text with
    | ok tree => simp [hparse]
    | error failure => cases failure <;> simp [hparse]

theorem mem_visitAt_iff (hnames : ∀ text tree, py.parse text = .ok tree → DotFree tree) {path : List Name}
    {f : Finding} : f ∈ (visitAt py c path).findings ↔ ∃ text, readPath c path = .ok text ∧
      ((∃ tree n rule message, py.parse text = .ok tree ∧ n ∈ nodes tree ∧ Violates n rule message ∧
          f = finding (relative c path) rule (lineOf n) message) ∨
        ∃ lineno, py.parse text = .error (.syntaxError lineno) ∧ f = parseError c path lineno) := by
  rw [visitAt, scanFile]
  cases readPath c path with
  | error e => simp [Except.toOption]
  | ok text =>
    dsimp only
    cases hparse : py.parse text with
    | error failure => cases failure <;> simp [Except.toOption, hparse]
    | ok tree =>
      have htree : DotFree tree := hnames text tree hparse
      simp only [Except.toOption, Option.getD_some, visit_eq, ownAll, List.mem_flatMap]
      constructor
      · rintro ⟨n, hn, hf⟩
        obtain ⟨rule, message, hviolates, rfl⟩ := (mem_own_iff (htree.node hn)).mp hf
        exact ⟨text, rfl, .inl ⟨tree, n, rule, message, hparse, hn, hviolates, rfl⟩⟩
      · rintro ⟨_, htext, ⟨_, n, rule, message, hok, hn, hviolates, rfl⟩ | ⟨lineno, herror, _⟩⟩
        · obtain rfl := Except.ok.inj htext
          obtain rfl := Except.ok.inj (hparse.symm.trans hok)
          exact ⟨n, hn, (mem_own_iff (htree.node hn)).mpr ⟨rule, message, hviolates, rfl⟩⟩
        · obtain rfl := Except.ok.inj htext
          cases hparse.symm.trans herror

theorem setups_visitAt (hnames : ∀ text tree, py.parse text = .ok tree → DotFree tree) (path : List Name) :
    (visitAt py c path).setupObservabilityCalls = ((nodesAt py c path).filter setsUp).map lineOf := by
  rw [visitAt, scanFile, nodesAt]
  cases readPath c path with
  | error e => rfl
  | ok text =>
    simp only [Except.toOption, Option.bind_some]
    cases hparse : py.parse text with
    | error failure => cases failure <;> rfl
    | ok tree =>
      have htree : DotFree tree := hnames text tree hparse
      simp only [Option.getD_some, visit_eq, ownAll, Option.elim_some]
      have hown : ∀ n ∈ nodes tree, (own (relative c path) n).setupObservabilityCalls =
          if setsUp n then [lineOf n] else [] := fun n hn => own_setups (htree.node hn)
      rw [List.flatMap_congr hown]
      induction nodes tree with
      | nil => rfl
      | cons n ns ih =>
        rw [List.flatMap_cons, ih, List.filter_cons]
        split <;> rfl

end Files

/-! ## Manifests -/

section Manifests
variable {py : Interpreter} {opts : Options} {c : Checkout}

theorem mem_keys_addRefs {refs : Dict Str (List Str)} {path ref : Str} {services : List Str} :
    ref ∈ (services.foldl (addRef path) refs).keys ↔ ref ∈ refs.keys ∨ ref ∈ services := by
  induction services generalizing refs with
  | nil => simp
  | cons service services ih =>
    have hadd : ref ∈ (addRef path refs service).keys ↔ ref = service ∨ ref ∈ refs.keys := by
      rw [addRef, Dict.mem_keys, Dict.mem_keys, Dict.get_set]
      split
      · rename_i h
        simp [h]
      · rename_i h
        simp [h]
    rw [List.foldl_cons, ih, hadd, List.mem_cons]
    tauto

theorem readPath_error {path : List Name} (h : (dataAt c path).isNone = true) : ∀ text, readPath c path ≠ .ok text := by
  intro text htext
  rw [readPath, Option.isNone_iff_eq_none.mp h] at htext
  cases htext

theorem collect_ok_iff {refs : Dict Str (List Str)} {paths : List (List Name)} :
    (∃ refs', collectServiceMonitorRefs py c refs paths = .ok refs') ↔
      ∀ path ∈ paths, (dataAt c path).isSome = true → ∃ text, readPath c path = .ok text := by
  induction paths generalizing refs with
  | nil => simp [collectServiceMonitorRefs]
  | cons path paths ih =>
    rw [collectServiceMonitorRefs, List.forall_mem_cons]
    cases hdata : dataAt c path with
    | none =>
      rw [if_pos (by rfl), ih]
      simp
    | some bs =>
      rw [if_neg (by simp)]
      cases readPath c path with
      | error e => simp
      | ok text =>
        dsimp only
        rw [ih]
        simp

theorem mem_keys_collect {refs refs' : Dict Str (List Str)} {paths : List (List Name)}
    (h : collectServiceMonitorRefs py c refs paths = .ok refs') {ref : Str} : ref ∈ refs'.keys ↔
      ref ∈ refs.keys ∨ ∃ path ∈ paths, ∃ text, readPath c path = .ok text ∧ ref ∈ manifestServices py text := by
  induction paths generalizing refs with
  | nil =>
    obtain rfl := Except.ok.inj h
    simp
  | cons path paths ih =>
    rw [collectServiceMonitorRefs] at h
    rw [List.exists_mem_cons_iff]
    cases hdata : (dataAt c path).isNone with
    | true =>
      rw [if_pos hdata] at h
      have hskip : ¬ ∃ text, readPath c path = .ok text ∧ ref ∈ manifestServices py text := by
        rintro ⟨text, htext, _⟩
        exact readPath_error hdata text htext
      rw [ih h, or_iff_right hskip]
    | false =>
      rw [if_neg (by simp [hdata])] at h
      cases hread : readPath c path with
      | error e =>
        rw [hread] at h
        cases h
      | ok text =>
        rw [hread] at h
        rw [ih h, mem_keys_addRefs, or_assoc]
        simp

theorem isReferenced_iff {refs : Dict Str (List Str)} {service : Str} :
    isReferenced refs service = true ↔ ∃ ref ∈ refs.keys, ref = service ∨ service ++ lit "-" <+: ref := by
  simp [isReferenced]

theorem monitored_iff {refs : Dict Str (List Str)} {existing : List (List Name)} {service : Str}
    (hexisting : (monitorPaths opts c).filter (fun path => (dataAt c path).isSome) = existing)
    (h : collectServiceMonitorRefs py c Dict.empty existing = .ok refs) :
    isReferenced refs service = true ↔ Monitored py opts c service := by
  rw [isReferenced_iff, Monitored]
  constructor
  · rintro ⟨ref, href, hnamed⟩
    rcases (mem_keys_collect h).mp href with href | ⟨path, hpath, text, hread, href⟩
    · rw [Dict.keys_empty] at href
      cases href
    · rw [← hexisting] at hpath
      exact ⟨path, List.mem_of_mem_filter hpath, text, hread, ref, href, hnamed⟩
  · rintro ⟨path, hpath, text, hread, ref, href, hnamed⟩
    refine ⟨ref, (mem_keys_collect h).mpr (.inr ⟨path, ?_, text, hread, href⟩), hnamed⟩
    rw [← hexisting, List.mem_filter]
    refine ⟨hpath, ?_⟩
    cases hdata : dataAt c path with
    | none => exact absurd hread (readPath_error (by rw [hdata]; rfl) text)
    | some bs => rfl

theorem monitorFindings_ok_iff : (∃ fs, serviceMonitorFindings py opts c (monitorPaths opts c) = .ok fs) ↔
    ∀ path ∈ monitorPaths opts c, (dataAt c path).isSome = true → ∃ text, readPath c path = .ok text := by
  have hfilter : (∀ path ∈ (monitorPaths opts c).filter fun path => (dataAt c path).isSome,
      (dataAt c path).isSome = true → ∃ text, readPath c path = .ok text) ↔
      ∀ path ∈ monitorPaths opts c, (dataAt c path).isSome = true → ∃ text, readPath c path = .ok text := by
    constructor
    · exact fun h path hpath hdata => h path (List.mem_filter.mpr ⟨hpath, hdata⟩) hdata
    · exact fun h path hpath => h path (List.mem_of_mem_filter hpath)
  rw [← hfilter, serviceMonitorFindings]
  cases (monitorPaths opts c).filter fun path => (dataAt c path).isSome with
  | nil => simp
  | cons first existing =>
    rw [← @collect_ok_iff py c Dict.empty]
    dsimp only
    cases collectServiceMonitorRefs py c Dict.empty (first :: existing) <;> simp [Except.map]

theorem mem_monitorFindings {fs : List Finding} (h : serviceMonitorFindings py opts c (monitorPaths opts c) = .ok fs)
    {f : Finding} : f ∈ fs ↔ ∃ first service,
      ((monitorPaths opts c).filter fun path => (dataAt c path).isSome).head? = some first ∧
        service ∈ opts.services ∧ ¬ Monitored py opts c (normalizeServiceName py service) ∧
        f = missingMonitor c first (normalizeServiceName py service) := by
  rw [serviceMonitorFindings] at h
  cases hexisting : (monitorPaths opts c).filter fun path => (dataAt c path).isSome with
  | nil =>
    rw [hexisting] at h
    obtain rfl := Except.ok.inj h
    simp
  | cons first existing =>
    rw [hexisting] at h
    dsimp only at h
    cases hcollect : collectServiceMonitorRefs py c Dict.empty (first :: existing) with
    | error e =>
      rw [hcollect] at h
      cases h
    | ok refs =>
      rw [hcollect] at h
      obtain rfl := Except.ok.inj h
      have hmonitored := fun service => not_congr (@monitored_iff py opts c refs _ service hexisting hcollect)
      simp only [List.mem_map, List.mem_filter, Bool.not_eq_true', ← Bool.not_eq_true, hmonitored, List.head?_cons,
        Option.some.injEq, exists_and_left, exists_eq_left']
      constructor
      · rintro ⟨_, ⟨⟨service, hservice, rfl⟩, hmissing⟩, rfl⟩
        exact ⟨service, hservice, hmissing, rfl⟩
      · rintro ⟨service, hservice, hmissing, rfl⟩
        exact ⟨_, ⟨⟨service, hservice, rfl⟩, hmissing⟩, rfl⟩

end Manifests

/-! ## The order of findings -/

theorem keyLe_total (k k' : Str × Nat × Str) : keyLe k k' = true ∨ keyLe k' k = true := by
  by_cases hpath : k.1 = k'.1
  · by_cases hline : k.2.1 = k'.2.1
    · simpa [keyLe, hpath, hline] using strLe_total k.2.2 k'.2.2
    · have hne : k'.2.1 ≠ k.2.1 := fun h => hline h.symm
      simp only [keyLe, hpath, hline, hne, ne_eq, not_true_eq_false, if_false, not_false_eq_true, if_true,
        decide_eq_true_eq]
      omega
  · have hne : k'.1 ≠ k.1 := fun h => hpath h.symm
    simpa [keyLe, hpath, hne] using strLe_total k.1 k'.1

theorem keyLe_trans {k k' k'' : Str × Nat × Str} (h : keyLe k k' = true) (h' : keyLe k' k'' = true) :
    keyLe k k'' = true := by
  by_cases hpath : k.1 = k'.1
  · by_cases hpath' : k'.1 = k''.1
    · simp only [keyLe, hpath, hpath', ne_eq, not_true_eq_false, if_false] at h h' ⊢
      by_cases hline : k.2.1 = k'.2.1
      · by_cases hline' : k'.2.1 = k''.2.1
        · simp only [hline, hline', not_true_eq_false, if_false] at h h' ⊢
          exact strLe_trans h h'
        · simp only [hline, hline', not_false_eq_true, if_true] at h' ⊢
          exact h'
      · simp only [hline, not_false_eq_true, if_true, decide_eq_true_eq] at h
        by_cases hline' : k'.2.1 = k''.2.1
        · rw [← hline', if_pos hline]
          exact decide_eq_true h
        · simp only [hline', not_false_eq_true, if_true, decide_eq_true_eq] at h'
          have hlt : k.2.1 < k''.2.1 := h.trans h'
          rw [if_pos hlt.ne]
          exact decide_eq_true hlt
    · simp only [keyLe, hpath, hpath', ne_eq, not_false_eq_true, if_true] at h' ⊢
      exact h'
  · have hle : strLe k.1 k'.1 = true := by
      rw [keyLe, if_pos hpath] at h
      exact h
    by_cases hpath' : k'.1 = k''.1
    · rw [keyLe, ← hpath', if_pos hpath]
      exact hle
    · have hle' : strLe k'.1 k''.1 = true := by
        rw [keyLe, if_pos hpath'] at h'
        exact h'
      have hne : k.1 ≠ k''.1 := by
        intro hsame
        rw [← hsame] at hle'
        exact hpath (strLe_antisymm hle hle')
      rw [keyLe, if_pos hne]
      exact strLe_trans hle hle'

theorem pairwise_sortedFindings (fs : List Finding) :
    (sortedFindings fs).Pairwise fun f f' => keyLe f.key f'.key = true := by
  have : Std.Total fun f f' : Finding => keyLe f.key f'.key = true := ⟨fun f f' => keyLe_total f.key f'.key⟩
  have : IsTrans Finding fun f f' => keyLe f.key f'.key = true := ⟨fun _ _ _ => keyLe_trans⟩
  exact List.pairwise_insertionSort _ fs

theorem mem_sortedFindings {fs : List Finding} {f : Finding} : f ∈ sortedFindings fs ↔ f ∈ fs :=
  (List.perm_insertionSort _ fs).mem_iff

/-! ## The scan and the gate -/

section Gate
variable {py : Interpreter} {opts : Options} {c : Checkout}

theorem files_ok_iff : (∀ path ∈ iterPythonFiles py opts c, ∃ v, scanFile py c path = .ok v) ↔
    ∀ p, Inspected py opts c p →
      ∃ text, readPath c (c.place ++ p) = .ok text ∧ ∀ e, py.parse text ≠ .error (.raised e) := by
  simp only [scanFile_ok_iff, mem_iterPythonFiles_iff]
  constructor
  · exact fun h p hp => h _ ⟨p, rfl, hp⟩
  · rintro h _ ⟨p, rfl, hp⟩
    exact h p hp

theorem roots_ok (h : ∀ path ∈ iterPythonFiles py opts c, ∃ v, scanFile py c path = .ok v)
    (hnames : ∀ text tree, py.parse text = .ok tree → DotFree tree) :
    scanPythonRoots py opts c = .ok ⟨(iterPythonFiles py opts c).length, sortedFindings
      (((iterPythonFiles py opts c).flatMap fun path => (visitAt py c path).findings) ++
        multipleSetup c (setups py opts c))⟩ := by
  have hsetups : ((iterPythonFiles py opts c).flatMap fun path =>
      (visitAt py c path).setupObservabilityCalls.map fun line => (path, line)) = setups py opts c := by
    refine List.flatMap_congr fun path _ => ?_
    rw [setups_visitAt hnames, List.map_map]
    rfl
  rw [scanPythonRoots, scanFiles_ok h]
  simp only [Except.map, Nat.zero_add, List.nil_append, hsetups]

theorem roots_ok_iff : (∃ summary, scanPythonRoots py opts c = .ok summary) ↔
    ∀ path ∈ iterPythonFiles py opts c, ∃ v, scanFile py c path = .ok v := by
  rw [← @scanFiles_ok_iff py c ⟨0, [], []⟩, scanPythonRoots]
  cases scanFiles py c ⟨0, [], []⟩ (iterPythonFiles py opts c) <;> simp [Except.map]

theorem scan_ok_iff : (∃ summary, scan py opts c = .ok summary) ↔ Readable py opts c := by
  have hboth : Readable py opts c ↔ (∃ summary, scanPythonRoots py opts c = .ok summary) ∧
      (opts.checkServiceMonitors = true → ∃ fs, serviceMonitorFindings py opts c (monitorPaths opts c) = .ok fs) := by
    rw [roots_ok_iff, files_ok_iff, monitorFindings_ok_iff]
    exact ⟨fun h => ⟨h.files, h.manifests⟩, fun h => ⟨h.1, h.2⟩⟩
  rw [hboth, scan]
  cases scanPythonRoots py opts c with
  | error e => simp
  | ok summary =>
    cases opts.checkServiceMonitors with
    | false => simp
    | true => cases serviceMonitorFindings py opts c (monitorPaths opts c) <;> simp [Except.map]

theorem mem_roots_iff (hnames : ∀ text tree, py.parse text = .ok tree → DotFree tree) {f : Finding} :
    (f ∈ (iterPythonFiles py opts c).flatMap fun path => (visitAt py c path).findings) ↔
      (∃ p text tree n rule message, Inspected py opts c p ∧ readPath c (c.place ++ p) = .ok text ∧
        py.parse text = .ok tree ∧ n ∈ nodes tree ∧ Violates n rule message ∧
        f = finding (relative c (c.place ++ p)) rule (lineOf n) message) ∨
      ∃ p text lineno, Inspected py opts c p ∧ readPath c (c.place ++ p) = .ok text ∧
        py.parse text = .error (.syntaxError lineno) ∧ f = parseError c (c.place ++ p) lineno := by
  rw [List.mem_flatMap]
  constructor
  · rintro ⟨path, hpath, hf⟩
    obtain ⟨p, rfl, hp⟩ := mem_iterPythonFiles_iff.mp hpath
    obtain ⟨text, hread, ⟨tree, n, rule, message, hparse, hn, hviolates, hf⟩ | ⟨lineno, hparse, hf⟩⟩ :=
      (mem_visitAt_iff hnames).mp hf
    · exact .inl ⟨p, text, tree, n, rule, message, hp, hread, hparse, hn, hviolates, hf⟩
    · exact .inr ⟨p, text, lineno, hp, hread, hparse, hf⟩
  · rintro (⟨p, text, tree, n, rule, message, hp, hread, hparse, hn, hviolates, hf⟩ |
      ⟨p, text, lineno, hp, hread, hparse, hf⟩)
    · exact ⟨_, mem_iterPythonFiles_iff.mpr ⟨p, rfl, hp⟩,
        (mem_visitAt_iff hnames).mpr ⟨text, hread, .inl ⟨tree, n, rule, message, hparse, hn, hviolates, hf⟩⟩⟩
    · exact ⟨_, mem_iterPythonFiles_iff.mpr ⟨p, rfl, hp⟩,
        (mem_visitAt_iff hnames).mpr ⟨text, hread, .inr ⟨lineno, hparse, hf⟩⟩⟩

theorem scan_inv {summary : ScanSummary} (h : scan py opts c = .ok summary) :
    ∃ s ms, scanPythonRoots py opts c = .ok s ∧
      summary = ⟨s.scannedFiles, sortedFindings (s.findings ++ ms)⟩ ∧
      ∀ f, f ∈ ms ↔ opts.checkServiceMonitors = true ∧ ∃ first service,
        ((monitorPaths opts c).filter fun path => (dataAt c path).isSome).head? = some first ∧
          service ∈ opts.services ∧ ¬ Monitored py opts c (normalizeServiceName py service) ∧
          f = missingMonitor c first (normalizeServiceName py service) := by
  rw [scan] at h
  cases hroots : scanPythonRoots py opts c with
  | error e =>
    rw [hroots] at h
    cases h
  | ok s =>
    rw [hroots] at h
    dsimp only at h
    cases hcheck : opts.checkServiceMonitors with
    | false =>
      rw [hcheck, if_neg Bool.false_ne_true] at h
      refine ⟨s, [], rfl, ?_, by simp⟩
      rw [List.append_nil]
      exact (Except.ok.inj h).symm
    | true =>
      rw [hcheck, if_pos rfl] at h
      cases hmonitors : serviceMonitorFindings py opts c (monitorPaths opts c) with
      | error e =>
        rw [hmonitors] at h
        cases h
      | ok ms =>
        rw [hmonitors] at h
        refine ⟨s, ms, rfl, (Except.ok.inj h).symm, ?_⟩
        intro f
        rw [mem_monitorFindings hmonitors, and_iff_right rfl]

theorem mem_findings_iff (hnames : ∀ text tree, py.parse text = .ok tree → DotFree tree) {summary : ScanSummary}
    (h : scan py opts c = .ok summary) {f : Finding} : f ∈ summary.findings ↔ Reported py opts c f := by
  obtain ⟨s, ms, hroots, rfl, hms⟩ := scan_inv h
  obtain rfl := Except.ok.inj ((roots_ok (roots_ok_iff.mp ⟨s, hroots⟩) hnames).symm.trans hroots)
  rw [mem_sortedFindings, List.mem_append, mem_sortedFindings, List.mem_append, mem_roots_iff hnames, hms]
  constructor
  · rintro (((⟨p, text, tree, n, rule, message, hp, hread, hparse, hn, hviolates, hf⟩ |
      ⟨p, text, lineno, hp, hread, hparse, hf⟩) | hf) | ⟨hcheck, first, service, hfirst, hservice, hmissing, hf⟩)
    · exact .violation hp hread hparse hn hviolates hf
    · exact .unparsed hp hread hparse hf
    · exact .setUpAgain hf
    · exact .unmonitored hcheck hfirst hservice hmissing hf
  · intro hf
    cases hf with
    | violation hp hread hparse hn hviolates hf =>
      exact .inl (.inl (.inl ⟨_, _, _, _, _, _, hp, hread, hparse, hn, hviolates, hf⟩))
    | unparsed hp hread hparse hf => exact .inl (.inl (.inr ⟨_, _, _, hp, hread, hparse, hf⟩))
    | setUpAgain hf => exact .inl (.inr hf)
    | unmonitored hcheck hfirst hservice hmissing hf => exact .inr ⟨hcheck, _, _, hfirst, hservice, hmissing, hf⟩

/-- A scan that returns lists what it is to report and nothing else, sorted by file, line and rule. -/
theorem scan_reports (hnames : ∀ text tree, py.parse text = .ok tree → DotFree tree) {summary : ScanSummary}
    (h : scan py opts c = .ok summary) :
    (summary.findings.Pairwise fun f f' => keyLe f.key f'.key = true) ∧
      ∀ f, f ∈ summary.findings ↔ Reported py opts c f := by
  refine ⟨?_, fun f => mem_findings_iff hnames h⟩
  obtain ⟨s, ms, _, rfl, _⟩ := scan_inv h
  exact pairwise_sortedFindings _

theorem multipleSetup_severity {calls : List (List Name × Nat)} {f : Finding} (h : f ∈ multipleSetup c calls) :
    f.severity = .error := by
  rcases calls with _ | ⟨call, _ | ⟨again, rest⟩⟩
  · cases h
  · cases h
  · rw [List.mem_singleton.mp h]

theorem multipleSetup_nil_iff {calls : List (List Name × Nat)} : multipleSetup c calls = [] ↔ calls.length ≤ 1 := by
  rcases calls with _ | ⟨call, _ | ⟨again, rest⟩⟩ <;> simp [multipleSetup]

/-- The errors a scan can report are what a clean checkout has none of. -/
theorem clean_iff : Clean py opts c ↔ ∀ f, Reported py opts c f → f.severity ≠ .error := by
  constructor
  · intro hclean f hf herror
    cases hf with
    | violation hp hread hparse hn hviolates hf => exact hclean.files _ _ _ hp hread hparse _ hn _ _ hviolates
    | unparsed hp hread hparse hf =>
      rw [hf] at herror
      cases herror
    | setUpAgain hf =>
      rw [multipleSetup_nil_iff.mpr hclean.setups] at hf
      cases hf
    | unmonitored hcheck hfirst hservice hmissing hf =>
      obtain ⟨hpath, hdata⟩ := List.mem_filter.mp (List.mem_of_mem_head? hfirst)
      exact hmissing (hclean.monitors hcheck ⟨_, hpath, hdata⟩ _ hservice)
  · intro h
    refine ⟨?_, ?_, ?_⟩
    · intro p text tree hp hread hparse n hn rule message hviolates
      exact h _ (.violation hp hread hparse hn hviolates rfl) rfl
    · have hnone : multipleSetup c (setups py opts c) = [] :=
        List.eq_nil_iff_forall_not_mem.mpr fun f hf => h f (.setUpAgain hf) (multipleSetup_severity hf)
      exact multipleSetup_nil_iff.mp hnone
    · rintro hcheck ⟨path, hpath, hdata⟩ service hservice
      by_contra hmissing
      have hne : ((monitorPaths opts c).filter fun path => (dataAt c path).isSome) ≠ [] :=
        List.ne_nil_of_mem (List.mem_filter.mpr ⟨hpath, hdata⟩)
      exact h _ (.unmonitored hcheck (List.head?_eq_some_head hne) hservice hmissing rfl) rfl

/-- The gate lets a checkout through exactly if the scan can read it and it is clean, or only warnings are asked for. -/
theorem gate_passes_iff (a : Arguments) (hnames : ∀ text tree, py.parse text = .ok tree → DotFree tree) :
    main py a c = .ok 0 ↔ Readable py a.options c ∧ (a.warnOnly = true ∨ Clean py a.options c) := by
  rw [← scan_ok_iff, main]
  cases hscan : scan py a.options c with
  | error e => simp [Except.map]
  | ok summary =>
    have hclean : Clean py a.options c ↔ summary.errorCount = 0 := by
      rw [clean_iff, ScanSummary.errorCount, List.countP_eq_zero]
      simp only [mem_findings_iff hnames hscan, decide_eq_true_eq]
    rw [hclean]
    simp only [Except.map, Except.ok.injEq, exists_eq', true_and]
    cases a.warnOnly <;> simp

end Gate

theorem counterInterpreter_names (text : Str) (tree : Ast) (h : counterInterpreter.parse text = .ok tree) :
    DotFree tree := by
  change (if text = counterSource then Except.ok (.other [.importFrom 1 (some (lit "prometheus_client")) [lit "Counter"]])
    else .ok (.other [])) = Except.ok tree at h
  intro n hn a ha
  split at h
  · obtain rfl := Except.ok.inj h
    simp only [nodes, nodesOf, List.append_nil, List.mem_cons, List.not_mem_nil, or_false] at hn
    rcases hn with rfl | rfl <;> cases ha
  · obtain rfl := Except.ok.inj h
    rw [List.mem_singleton.mp hn] at ha
    cases ha

theorem counter_import_reported : Reported counterInterpreter {} ⟨srvRepo, counterRepository⟩
    (finding (lit "main.py") .rawPrometheusClient 1
      (lit "raw prometheus_client import; use isa_common.metrics factories")) := by
  have hscan : scan counterInterpreter {} ⟨srvRepo, counterRepository⟩ = .ok ⟨1, [finding (lit "main.py")
      .rawPrometheusClient 1 (lit "raw prometheus_client import; use isa_common.metrics factories")]⟩ := rfl
  exact ((scan_reports counterInterpreter_names hscan).2 _).mp List.mem_cons_self

/-- The checkout at `/srv/repo` that imports `prometheus_client` is let through with `--warn-only` alone. -/
theorem counter_needs_warn_only :
    main counterInterpreter { warnOnly := true } ⟨srvRepo, counterRepository⟩ = .ok 0 ∧
      Readable counterInterpreter {} ⟨srvRepo, counterRepository⟩ ∧
      ¬ Clean counterInterpreter {} ⟨srvRepo, counterRepository⟩ := by
  have hlenient : main counterInterpreter { warnOnly := true } ⟨srvRepo, counterRepository⟩ = .ok 0 := rfl
  have hstrict : main counterInterpreter {} ⟨srvRepo, counterRepository⟩ = .ok 1 := rfl
  have hreadable := ((gate_passes_iff { warnOnly := true } counterInterpreter_names).mp hlenient).1
  refine ⟨hlenient, hreadable, ?_⟩
  intro hclean
  have hpass := (gate_passes_iff {} counterInterpreter_names).mpr ⟨hreadable, .inr hclean⟩
  rw [hstrict] at hpass
  cases hpass

end IsaCloud.Observability
