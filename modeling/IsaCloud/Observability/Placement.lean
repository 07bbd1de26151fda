import IsaCloud.Observability.ContractScan

/-!
# Where the repository is checked out

Patterns are matched with paths below the repository root, but the names that
mark documentation and tests are looked for in the whole path. Below a place that
has such a name the scan finds no Python file, and below any other place it finds
what it finds below `/`.
-/

namespace IsaCloud.Observability

set_option autoImplicit false

open Support
open Text Python Encoding Json Glob PosixPath

/-! ## What a report says -/

abbrev Essence := Rule × Severity × Str × Nat

def Finding.essence (f : Finding) : Essence := (f.rule, f.severity, f.path, f.line)

/-- The count and the findings, if the scan returns. -/
def report (r : Except PyError ScanSummary) : Option (Nat × List Essence) :=
  r.toOption.map fun s => (s.scannedFiles, s.findings.map Finding.essence)

section Statement
variable (py : Interpreter) (opts : Options) (repo : Repository)

def scanAt (place : List Name) : Option (Nat × List Essence) := report (scan py opts ⟨place, repo⟩)

/-- A Python file that the rules about paths in the repository leave to be scanned. -/
structure InScope (p : List Name) : Prop where
  file : p ∈ Listing.allFiles repo.listing repo.listing
  python : suffix ((parts p).getLastD []) = lit ".py"
  dirs : ∀ n ∈ p.dropLast, fsdecode n.bytes ∉ defaultSkipDirs
  service : isDocOrTestPath py p = false
  enforced : matchesAny ⟨[], repo⟩ p opts.allowGlobs = false
  included : ∀ q, q <+: p → q ≠ [] → matchesAny ⟨[], repo⟩ q opts.excludes = false

/-- The monitor check comes to a manifest that is not UTF-8. -/
def ManifestUnreadable : Prop :=
  opts.checkServiceMonitors = true ∧
    ∃ p ∈ opts.monitorPaths.getD defaultServiceMonitorPaths, ∃ bs, repo.listing.dataAt p = some bs ∧
      (readText bs).toOption = none

end Statement

/-! ## Paths below a place -/

section Paths
variable {py : Interpreter} {opts : Options} {repo : Repository} {place : List Name}

theorem dropPrefix_append (place p : List Name) : (place ++ p).dropPrefix? place = some p :=
  List.dropPrefix?_append_of_beq p BEq.rfl

theorem resolve_append (p : List Name) : resolve ⟨place, repo⟩ (place ++ p) = place ++ repo.listing.resolve p := by
  rw [resolve, dropPrefix_append]

theorem relative_append (p : List Name) : relative ⟨place, repo⟩ (place ++ p) = posix (repo.listing.resolve p) := by
  have hroot : resolve ⟨place, repo⟩ place = place := by
    have h := @resolve_append repo place []
    rw [List.append_nil] at h
    rw [h]
    exact List.append_nil place
  rw [relative, resolve_append, hroot, dropPrefix_append]

/-- Below the place as below `/`. -/
theorem relative_shift (p : List Name) : relative ⟨place, repo⟩ (place ++ p) = relative ⟨[], repo⟩ p := by
  have hroot := @relative_append repo [] p
  rw [List.nil_append] at hroot
  rw [relative_append, hroot]

theorem matchesAny_shift (p : List Name) (patterns : List Str) :
    matchesAny ⟨place, repo⟩ (place ++ p) patterns = matchesAny ⟨[], repo⟩ p patterns := by
  rw [matchesAny, relative_shift, matchesAny]

theorem dataAt_append (p : List Name) : dataAt ⟨place, repo⟩ (place ++ p) = repo.listing.dataAt p := by
  rw [dataAt, dropPrefix_append]
  rfl

theorem dataAt_root (p : List Name) : dataAt ⟨[], repo⟩ p = repo.listing.dataAt p := @dataAt_append repo [] p

theorem isDocOrTestPath_append (p : List Name) :
    isDocOrTestPath py (place ++ p) = (isDocOrTestPath py p || isDocOrTestPath py place) := by
  simp only [isDocOrTestPath, parts, List.map_append, List.any_cons, List.any_append]
  cases docTestParts.contains (py.lower (lit "/")) <;> simp [Bool.or_comm]

theorem isDocOrTestPath_of_prefix {p q : List Name} (hq : q <+: p) (h : isDocOrTestPath py p = false) :
    isDocOrTestPath py q = false := by
  obtain ⟨r, rfl⟩ := hq
  rw [isDocOrTestPath_append, Bool.or_eq_false_iff] at h
  exact h.2

/-- What the names of the place leave of the scan: all or nothing. -/
def admits (py : Interpreter) (opts : Options) (place : List Name) : Bool :=
  opts.includeDocsTests || !isDocOrTestPath py place

theorem keepDir_shift (d : List Name) (n : Name) :
    keepDir py opts ⟨place, repo⟩ (place ++ d) n = (keepDir py opts ⟨[], repo⟩ d n && admits py opts place) := by
  rw [keepDir, keepDir, admits, List.append_assoc, matchesAny_shift, isDocOrTestPath_append]
  cases opts.includeDocsTests <;> simp [Bool.and_assoc]

theorem shouldScanPythonFile_eq (c : Checkout) (p : List Name) :
    shouldScanPythonFile py opts c p =
      (suffix ((parts p).getLastD []) == lit ".py" && !matchesAny c p opts.allowGlobs && admits py opts p) := by
  rw [shouldScanPythonFile, admits, bne]
  cases suffix ((parts p).getLastD []) == lit ".py" <;> cases matchesAny c p opts.allowGlobs <;>
    cases opts.includeDocsTests <;> cases isDocOrTestPath py p <;> rfl

theorem admits_append (p : List Name) : admits py opts (place ++ p) = (admits py opts p && admits py opts place) := by
  rw [admits, admits, admits, isDocOrTestPath_append]
  cases opts.includeDocsTests <;> simp

theorem parts_last (d : List Name) (n : Name) : (parts (d ++ [n])).getLastD [] = fsdecode n.bytes := by
  rw [parts, List.map_append]
  exact List.getLastD_concat

theorem keepFile_shift (d : List Name) (n : Name) :
    keepFile py opts ⟨place, repo⟩ (place ++ d) n = (keepFile py opts ⟨[], repo⟩ d n && admits py opts place) := by
  rw [keepFile, keepFile, shouldScanPythonFile_eq, shouldScanPythonFile_eq, parts_last, parts_last, List.append_assoc,
    matchesAny_shift, matchesAny_shift, admits_append]
  simp only [Bool.and_assoc]

/-- Every file or none, by the names of the place. -/
theorem iterPythonFiles_shift : iterPythonFiles py opts ⟨place, repo⟩ =
    if admits py opts place then (iterPythonFiles py opts ⟨[], repo⟩).map (place ++ ·) else [] :=
  Listing.walk_shift keepDir_shift keepFile_shift repo.listing

theorem keepDir_iff (hopt : opts.includeDocsTests = false) {d : List Name} {n : Name} :
    keepDir py opts ⟨[], repo⟩ d n = true ↔ fsdecode n.bytes ∉ defaultSkipDirs ∧
      matchesAny ⟨[], repo⟩ (d ++ [n]) opts.excludes = false ∧ isDocOrTestPath py (d ++ [n]) = false := by
  simp [keepDir, hopt, and_assoc]

theorem keepFile_iff (hopt : opts.includeDocsTests = false) {d : List Name} {n : Name} :
    keepFile py opts ⟨[], repo⟩ d n = true ↔ matchesAny ⟨[], repo⟩ (d ++ [n]) opts.excludes = false ∧
      suffix ((parts (d ++ [n])).getLastD []) = lit ".py" ∧
      matchesAny ⟨[], repo⟩ (d ++ [n]) opts.allowGlobs = false ∧ isDocOrTestPath py (d ++ [n]) = false := by
  simp [keepFile, shouldScanPythonFile_eq, admits, hopt, and_assoc]

theorem mem_iterPythonFiles {p : List Name} (hopt : opts.includeDocsTests = false) :
    p ∈ iterPythonFiles py opts ⟨[], repo⟩ ↔ InScope py opts repo p := by
  have hiter : iterPythonFiles py opts ⟨[], repo⟩ = (Listing.allFiles repo.listing repo.listing).filter
      (Listing.keeps (keepDir py opts ⟨[], repo⟩) (keepFile py opts ⟨[], repo⟩) []) := by
    rw [iterPythonFiles, Listing.walk_eq]
    exact List.map_id _
  rw [hiter, List.mem_filter, Listing.keeps_iff]
  constructor
  · rintro ⟨hfile, q, n, rfl, hkept, hdirs⟩
    obtain ⟨hexcluded, hpython, hallowed, hservice⟩ := (keepFile_iff hopt).mp hkept
    refine ⟨hfile, hpython, ?_, hservice, hallowed, ?_⟩
    · rw [List.dropLast_concat]
      intro m hm
      obtain ⟨d, r, rfl⟩ := List.append_of_mem hm
      exact ((keepDir_iff hopt).mp (hdirs d m ⟨r, by simp⟩)).1
    · intro r hr hne
      rcases List.prefix_concat_iff.mp hr with rfl | hr
      · exact hexcluded
      · obtain ⟨d, m, rfl⟩ := (List.eq_nil_or_concat' r).resolve_left hne
        exact ((keepDir_iff hopt).mp (hdirs d m hr)).2.1
  · intro h
    obtain ⟨q, n, rfl⟩ := (List.eq_nil_or_concat' p).resolve_left (Listing.ne_nil_of_mem_allFiles h.file)
    refine ⟨h.file, q, n, rfl, ?_, ?_⟩
    · exact (keepFile_iff hopt).mpr ⟨h.included _ List.prefix_rfl (by simp), h.python, h.enforced, h.service⟩
    · intro d m hd
      have hprefix : d ++ [m] <+: q ++ [n] := hd.trans (List.prefix_append q [n])
      have hmem : m ∈ (q ++ [n]).dropLast := by
        rw [List.dropLast_concat]
        exact hd.subset (by simp)
      exact (keepDir_iff hopt).mpr
        ⟨h.dirs m hmem, h.included _ hprefix (by simp), isDocOrTestPath_of_prefix hprefix h.service⟩

end Paths

/-! ## Scanning below a place -/

section Scanning
variable {py : Interpreter} {opts : Options} {repo : Repository} {place : List Name}

theorem readPath_shift (p : List Name) :
    (readPath ⟨place, repo⟩ (place ++ p)).toOption = (readPath ⟨[], repo⟩ p).toOption := by
  rw [readPath, readPath, dataAt_append, dataAt_root]
  cases repo.listing.dataAt p <;> rfl

theorem scanFile_shift (p : List Name) :
    (scanFile py ⟨place, repo⟩ (place ++ p)).toOption = (scanFile py ⟨[], repo⟩ p).toOption := by
  have hread := @readPath_shift repo place p
  have herror : ∀ lineno, parseError ⟨place, repo⟩ (place ++ p) lineno = parseError ⟨[], repo⟩ p lineno := by
    intro lineno
    rw [parseError, relative_shift, parseError]
  rw [scanFile, scanFile, relative_shift]
  simp only [herror]
  cases h : readPath ⟨place, repo⟩ (place ++ p) <;> cases h' : readPath ⟨[], repo⟩ p <;> rw [h, h'] at hread
  · rfl
  · cases hread
  · cases hread
  · obtain rfl := Option.some.inj hread
    rfl

/-- The calls are kept with the paths of the files that make them. -/
def Scanned.at (place : List Name) (s : Scanned) : Scanned :=
  { s with setupCalls := s.setupCalls.map fun call => (place ++ call.1, call.2) }

theorem Scanned.at_add (s : Scanned) (p : List Name) (v : Visit) :
    (s.at place).add (place ++ p) v = (s.add p v).at place := by
  simp [Scanned.at, Scanned.add, Function.comp_def]

theorem scanFiles_shift (s : Scanned) (ps : List (List Name)) :
    (scanFiles py ⟨place, repo⟩ (s.at place) (ps.map (place ++ ·))).toOption =
      (scanFiles py ⟨[], repo⟩ s ps).toOption.map (Scanned.at place) := by
  induction ps generalizing s with
  | nil => rfl
  | cons p ps ih =>
    have hfile := @scanFile_shift py repo place p
    rw [List.map_cons, scanFiles, scanFiles]
    cases h : scanFile py ⟨place, repo⟩ (place ++ p) <;> cases h' : scanFile py ⟨[], repo⟩ p <;> rw [h, h'] at hfile
    · rfl
    · cases hfile
    · cases hfile
    · obtain rfl := Option.some.inj hfile
      dsimp only
      rw [Scanned.at_add]
      exact ih _

theorem multipleSetup_shift (calls : List (List Name × Nat)) :
    (multipleSetup ⟨place, repo⟩ (calls.map fun call => (place ++ call.1, call.2))).map Finding.essence =
      (multipleSetup ⟨[], repo⟩ calls).map Finding.essence := by
  match calls with
  | [] => rfl
  | [_] => rfl
  | (p, line) :: _ :: _ =>
    simp only [List.map_cons, multipleSetup, Finding.essence, relative_shift]

theorem scannedFiles_scanFiles {c : Checkout} {s s' : Scanned} {ps : List (List Name)}
    (h : scanFiles py c s ps = .ok s') : s'.scannedFiles = s.scannedFiles + ps.length := by
  induction ps generalizing s with
  | nil =>
    obtain rfl := Except.ok.inj h
    rfl
  | cons p ps ih =>
    rw [scanFiles] at h
    cases hfile : scanFile py c p with
    | error e =>
      rw [hfile] at h
      cases h
    | ok v =>
      rw [hfile] at h
      have hadd : (s.add p v).scannedFiles = s.scannedFiles + 1 := rfl
      rw [ih h, List.length_cons, hadd]
      omega

def essenceLe (e e' : Essence) : Bool := keyLe (e.2.2.1, e.2.2.2, e.1.text) (e'.2.2.1, e'.2.2.2, e'.1.text)

def sortedEssences (es : List Essence) : List Essence := es.insertionSort fun e e' => essenceLe e e' = true

theorem map_sortedFindings (fs : List Finding) :
    (sortedFindings fs).map Finding.essence = sortedEssences (fs.map Finding.essence) :=
  List.map_insertionSort _ _ _ _ fun _ _ _ _ => Iff.rfl

theorem report_map {α : Type} (r : Except PyError α) (f : α → ScanSummary) :
    report (r.map f) = r.toOption.map fun a => ((f a).scannedFiles, (f a).findings.map Finding.essence) := by
  cases r <;> rfl

theorem report_roots_shift (h : admits py opts place = true) :
    report (scanPythonRoots py opts ⟨place, repo⟩) = report (scanPythonRoots py opts ⟨[], repo⟩) := by
  have hfiles := @scanFiles_shift py repo place ⟨0, [], []⟩ (iterPythonFiles py opts ⟨[], repo⟩)
  rw [Scanned.at, List.map_nil] at hfiles
  rw [scanPythonRoots, scanPythonRoots, report_map, report_map, iterPythonFiles_shift, if_pos h, hfiles, Option.map_map]
  congr 1
  funext s
  simp only [Function.comp, map_sortedFindings, List.map_append, Scanned.at, multipleSetup_shift]

theorem report_roots_nil {c : Checkout} (h : iterPythonFiles py opts c = []) :
    report (scanPythonRoots py opts c) = some (0, []) := by
  rw [scanPythonRoots, h]
  rfl

end Scanning

/-! ## Service monitors below a place -/

section Monitors
variable {py : Interpreter} {opts : Options} {repo : Repository} {place : List Name}

theorem keys_addRef {refs refs' : Dict Str (List Str)} (h : refs.keys = refs'.keys) (path path' service : Str) :
    (addRef path refs service).keys = (addRef path' refs' service).keys := by
  rw [addRef, addRef]
  by_cases hs : service ∈ refs.keys
  · rw [Dict.keys_set_of_mem _ hs, Dict.keys_set_of_mem _ (h ▸ hs), h]
  · rw [Dict.keys_set_of_not_mem _ hs, Dict.keys_set_of_not_mem _ (h ▸ hs), h]

theorem keys_addRefs {refs refs' : Dict Str (List Str)} (h : refs.keys = refs'.keys) (path path' : Str)
    (services : List Str) :
    (services.foldl (addRef path) refs).keys = (services.foldl (addRef path') refs').keys := by
  induction services generalizing refs refs' with
  | nil => exact h
  | cons service services ih => exact ih (keys_addRef h path path' service)

/-- The references name the manifests by absolute paths, but nothing looks at those. -/
theorem collect_shift {refs refs' : Dict Str (List Str)} (h : refs.keys = refs'.keys) (ps : List (List Name)) :
    (collectServiceMonitorRefs py ⟨place, repo⟩ refs (ps.map (place ++ ·))).toOption.map Dict.keys =
      (collectServiceMonitorRefs py ⟨[], repo⟩ refs' ps).toOption.map Dict.keys := by
  induction ps generalizing refs refs' with
  | nil => exact congrArg some h
  | cons p ps ih =>
    have hread := @readPath_shift repo place p
    rw [List.map_cons, collectServiceMonitorRefs, collectServiceMonitorRefs, dataAt_append, dataAt_root]
    cases (repo.listing.dataAt p).isNone with
    | true => exact ih h
    | false =>
      rw [if_neg Bool.false_ne_true, if_neg Bool.false_ne_true]
      cases hp : readPath ⟨place, repo⟩ (place ++ p) <;> cases hp' : readPath ⟨[], repo⟩ p <;> rw [hp, hp'] at hread
      · rfl
      · cases hread
      · cases hread
      · obtain rfl := Option.some.inj hread
        exact ih (keys_addRefs h _ _ _)

theorem existing_shift (ps : List (List Name)) :
    (ps.map (place ++ ·)).filter (fun path => (dataAt ⟨place, repo⟩ path).isSome) =
      (ps.filter fun path => (dataAt ⟨[], repo⟩ path).isSome).map (place ++ ·) := by
  rw [List.filter_map]
  congr 1
  apply List.filter_congr
  intro p _
  rw [Function.comp, dataAt_append, dataAt_root]

theorem serviceMonitorFindings_shift (ps : List (List Name)) :
    (serviceMonitorFindings py opts ⟨place, repo⟩ (ps.map (place ++ ·))).toOption =
      (serviceMonitorFindings py opts ⟨[], repo⟩ ps).toOption := by
  rw [serviceMonitorFindings, serviceMonitorFindings, existing_shift]
  cases ps.filter fun path => (dataAt ⟨[], repo⟩ path).isSome with
  | nil => rfl
  | cons first existing =>
    have hkeys := @collect_shift py repo place Dict.empty Dict.empty rfl (first :: existing)
    have hmissing : missingMonitor ⟨place, repo⟩ (place ++ first) = missingMonitor ⟨[], repo⟩ first := by
      funext service
      rw [missingMonitor, relative_shift, missingMonitor]
    rw [List.map_cons] at hkeys ⊢
    dsimp only
    rw [hmissing]
    cases h : collectServiceMonitorRefs py ⟨place, repo⟩ Dict.empty ((place ++ first) :: existing.map (place ++ ·)) <;>
      cases h' : collectServiceMonitorRefs py ⟨[], repo⟩ Dict.empty (first :: existing) <;> rw [h, h'] at hkeys
    · rfl
    · cases hkeys
    · cases hkeys
    · have hsame := Option.some.inj hkeys
      simp only [Except.map, Except.toOption, isReferenced, hsame]

theorem collect_none_iff {refs : Dict Str (List Str)} {ps : List (List Name)} :
    (collectServiceMonitorRefs py ⟨[], repo⟩ refs ps).toOption = none ↔
      ∃ p ∈ ps, ∃ bs, repo.listing.dataAt p = some bs ∧ (readText bs).toOption = none := by
  induction ps generalizing refs with
  | nil => simp [collectServiceMonitorRefs, Except.toOption]
  | cons p ps ih =>
    rw [collectServiceMonitorRefs, readPath, dataAt_root]
    cases hp : repo.listing.dataAt p with
    | none => simpa [hp] using ih
    | some bs =>
      cases hbs : readText bs with
      | error e => simp [hp, hbs, Except.toOption]
      | ok text => simpa [hp, hbs, Except.toOption] using ih

theorem findings_none_iff {ps : List (List Name)} :
    (serviceMonitorFindings py opts ⟨[], repo⟩ ps).toOption = none ↔
      ∃ p ∈ ps, ∃ bs, repo.listing.dataAt p = some bs ∧ (readText bs).toOption = none := by
  have hexisting : (∃ p ∈ ps.filter fun path => (dataAt ⟨[], repo⟩ path).isSome, ∃ bs,
      repo.listing.dataAt p = some bs ∧ (readText bs).toOption = none) ↔
      ∃ p ∈ ps, ∃ bs, repo.listing.dataAt p = some bs ∧ (readText bs).toOption = none := by
    constructor
    · rintro ⟨p, hp, h⟩
      exact ⟨p, List.mem_of_mem_filter hp, h⟩
    · rintro ⟨p, hp, bs, hbs, h⟩
      exact ⟨p, List.mem_filter.mpr ⟨hp, by rw [dataAt_root, hbs]; rfl⟩, bs, hbs, h⟩
  rw [← hexisting, serviceMonitorFindings]
  cases ps.filter fun path => (dataAt ⟨[], repo⟩ path).isSome with
  | nil => simp [Except.toOption]
  | cons first existing =>
    rw [← @collect_none_iff py repo Dict.empty (first :: existing)]
    dsimp only
    cases collectServiceMonitorRefs py ⟨[], repo⟩ Dict.empty (first :: existing) <;>
      simp [Except.map, Except.toOption]

end Monitors

/-! ## The scan below two places -/

section Places
variable {py : Interpreter} {opts : Options} {repo : Repository} {place : List Name}

def monitorReport (py : Interpreter) (opts : Options) (c : Checkout) : Option (List Essence) :=
  if opts.checkServiceMonitors then
    (serviceMonitorFindings py opts c (monitorPaths opts c)).toOption.map fun fs => fs.map Finding.essence
  else some []

theorem report_scan (c : Checkout) : report (scan py opts c) =
    (report (scanPythonRoots py opts c)).bind fun s =>
      (monitorReport py opts c).map fun ms => (s.1, sortedEssences (s.2 ++ ms)) := by
  rw [scan, monitorReport]
  cases scanPythonRoots py opts c with
  | error e => rfl
  | ok summary =>
    cases opts.checkServiceMonitors with
    | true =>
      cases serviceMonitorFindings py opts c (monitorPaths opts c) with
      | error e => rfl
      | ok fs => simp [report, Except.map, Except.toOption, map_sortedFindings]
    | false => simp [report, Except.toOption, map_sortedFindings]

theorem monitorReport_shift : monitorReport py opts ⟨place, repo⟩ = monitorReport py opts ⟨[], repo⟩ := by
  have hroot : monitorPaths opts ⟨[], repo⟩ = opts.monitorPaths.getD defaultServiceMonitorPaths := List.map_id _
  rw [monitorReport, monitorReport, monitorPaths, serviceMonitorFindings_shift, hroot]

theorem monitorReport_none_iff : monitorReport py opts ⟨[], repo⟩ = none ↔ ManifestUnreadable opts repo := by
  have hroot : monitorPaths opts ⟨[], repo⟩ = opts.monitorPaths.getD defaultServiceMonitorPaths := List.map_id _
  rw [monitorReport, ManifestUnreadable, ← @findings_none_iff py opts, hroot]
  cases opts.checkServiceMonitors <;> simp

/-- What is left when no Python file is scanned. -/
def bare (py : Interpreter) (opts : Options) (repo : Repository) : Option (Nat × List Essence) :=
  (monitorReport py opts ⟨[], repo⟩).map fun ms => (0, sortedEssences ms)

theorem scanAt_of_nil (h : iterPythonFiles py opts ⟨place, repo⟩ = []) :
    scanAt py opts repo place = bare py opts repo := by
  rw [scanAt, report_scan, report_roots_nil h, monitorReport_shift]
  rfl

theorem scanAt_eq (py : Interpreter) (opts : Options) (repo : Repository) (place : List Name) :
    scanAt py opts repo place = if admits py opts place then scanAt py opts repo [] else bare py opts repo := by
  cases h : admits py opts place with
  | true => rw [if_pos rfl, scanAt, scanAt, report_scan, report_scan, report_roots_shift h, monitorReport_shift]
  | false =>
    rw [if_neg Bool.false_ne_true]
    apply scanAt_of_nil
    rw [iterPythonFiles_shift, h, if_neg Bool.false_ne_true]

theorem count_of_report {c : Checkout} {n : Nat} {es : List Essence}
    (h : report (scanPythonRoots py opts c) = some (n, es)) : n = (iterPythonFiles py opts c).length := by
  rw [scanPythonRoots, report_map] at h
  cases hs : scanFiles py c ⟨0, [], []⟩ (iterPythonFiles py opts c) with
  | error e =>
    rw [hs] at h
    cases h
  | ok s =>
    rw [hs] at h
    have hcount := scannedFiles_scanFiles hs
    rw [Nat.zero_add] at hcount
    rw [← hcount]
    exact (congrArg Prod.fst (Option.some.inj h)).symm

theorem scan_bare_iff (hopt : opts.includeDocsTests = false) : scanAt py opts repo [] = bare py opts repo ↔
    (¬ ∃ p, InScope py opts repo p) ∨ ManifestUnreadable opts repo := by
  have hscope : iterPythonFiles py opts ⟨[], repo⟩ = [] ↔ ¬ ∃ p, InScope py opts repo p := by
    simp only [List.eq_nil_iff_forall_not_mem, mem_iterPythonFiles hopt, not_exists]
  rw [← hscope, ← @monitorReport_none_iff py]
  constructor
  · intro h
    cases hm : monitorReport py opts ⟨[], repo⟩ with
    | none => exact Or.inr rfl
    | some ms =>
      left
      rw [scanAt, report_scan, bare, hm] at h
      cases hr : report (scanPythonRoots py opts ⟨[], repo⟩) with
      | none =>
        rw [hr] at h
        cases h
      | some s =>
        rw [hr] at h
        have hcount : s.1 = 0 := congrArg Prod.fst (Option.some.inj h)
        rw [count_of_report hr] at hcount
        exact List.length_eq_zero_iff.mp hcount
  · rintro (h | h)
    · exact scanAt_of_nil h
    · rw [scanAt, report_scan, bare, h]
      cases report (scanPythonRoots py opts ⟨[], repo⟩) <;> rfl

/-- Two places give one report exactly when none of their names hides the repository, or both do, or nothing is
there to hide, or neither scan returns. -/
theorem scan_places_iff (py : Interpreter) (opts : Options) (repo : Repository) (a b : List Name) :
    scanAt py opts repo a = scanAt py opts repo b ↔
      opts.includeDocsTests = true ∨ isDocOrTestPath py a = isDocOrTestPath py b ∨
        (¬ ∃ p, InScope py opts repo p) ∨ ManifestUnreadable opts repo := by
  rw [scanAt_eq py opts repo a, scanAt_eq py opts repo b]
  cases hopt : opts.includeDocsTests with
  | true => simp [admits, hopt]
  | false =>
    rw [← scan_bare_iff hopt]
    cases ha : isDocOrTestPath py a <;> cases hb : isDocOrTestPath py b <;> simp [admits, hopt, ha, hb, eq_comm]

end Places

/-! ## A checkout below `tests` -/

def nameOf (s : String) (h : nameOk ((lit s).map fun c => byte c.val) = true) : Name := ⟨_, h⟩

def homeCiTestsRepo : List Name :=
  [nameOf "home" (by decide), nameOf "ci" (by decide), nameOf "tests" (by decide), nameOf "repo" (by decide)]

def srvRepo : List Name := [nameOf "srv" (by decide), nameOf "repo" (by decide)]

def counterSource : Str := lit "from prometheus_client import Counter\n"

/-- One service that imports `prometheus_client`. -/
def counterRepository : Repository :=
  ⟨.file (nameOf "main.py" (by decide)) (counterSource.map fun c => byte c.val) .nil, by decide⟩

def counterInterpreter : Interpreter where
  lower := lower
  parse s :=
    if s = counterSource then .ok (.other [.importFrom 1 (some (lit "prometheus_client")) [lit "Counter"]])
    else .ok (.other [])

theorem checkout_below_tests_is_not_scanned :
    scanAt counterInterpreter {} counterRepository srvRepo =
        some (1, [(.rawPrometheusClient, .error, lit "main.py", 1)]) ∧
      scanAt counterInterpreter {} counterRepository homeCiTestsRepo = some (0, []) ∧
      ¬ ∀ (py : Interpreter) (opts : Options) (repo : Repository) (a b : List Name),
        scanAt py opts repo a = scanAt py opts repo b := by
  have hfound : scanAt counterInterpreter {} counterRepository srvRepo =
      some (1, [(.rawPrometheusClient, .error, lit "main.py", 1)]) := rfl
  have hmissed : scanAt counterInterpreter {} counterRepository homeCiTestsRepo = some (0, []) := rfl
  refine ⟨hfound, hmissed, ?_⟩
  intro h
  have hsame := h counterInterpreter {} counterRepository srvRepo homeCiTestsRepo
  rw [hfound, hmissed] at hsame
  cases hsame

end IsaCloud.Observability
