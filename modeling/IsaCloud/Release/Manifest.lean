import IsaCloud.Support.Dict
import IsaCloud.Support.Json

/-!
# Release manifest and offline bundle

`build_manifest` and `build_bundle_rows` go through the services of a release one by
one. The manifest is a dict by component; a row of the bundle tells where an image is
mirrored to. Both names are shortened: a component has dashes for underscores, a
Harbor target only the last part of the path of an image.
-/

namespace IsaCloud.Release

set_option autoImplicit false

open Support Support.Text Support.Python

/-! ## The generator -/

/-- What `platform-services.yaml` says about a service, `has_image` by its truth value. -/
structure ServiceMeta where
  hasImage : Bool
  image : Option Str
  approxSize : Option Str

abbrev Services := Dict Str ServiceMeta

/-- `harbor.<host>/isa/<image>:<ref>`. -/
def harborProject : Str := lit "isa"

def imageRef (image version : Str) (digest : Option Str) : Str :=
  match digest with
  | none | some [] => image ++ lit ":" ++ version
  | some digest => image ++ lit "@" ++ digest

/-- `image.rsplit("/", 1)[-1]`. -/
def lastSegment (image : Str) : Str := (image.reverse.takeWhile (· != cp '/')).reverse

def harborTarget (image version : Str) (_digest : Option Str) (host : Str) : Str :=
  host ++ lit "/" ++ harborProject ++ lit "/" ++ lastSegment image ++ lit ":" ++ version

/-- `sorted(services_cfg.items())`; no two names are equal, so what comes after them does not matter. -/
def sortedItems (services : Services) : List (Str × ServiceMeta) :=
  services.entries.insertionSort fun e e' => strLe e.1 e'.1 = true

/-- `name.replace("_", "-")`. -/
def dashed (name : Str) : Str := name.map fun c => if c = cp '_' then cp '-' else c

def component (name : Str) : Str := lit "isa-" ++ dashed name

def noImage : PyError := ⟨.keyError, lit "'image'"⟩

structure ReleaseManifest where
  platformVersion : Str
  generatedAt : Str
  services : Dict Str Str
  charts : Dict Str Str

section Builders
variable (version : Str) (digests : Dict Str Str)

/-- The loop of `build_manifest`. -/
def manifestServices (services : Dict Str Str) : List (Str × ServiceMeta) → Except PyError (Dict Str Str)
  | [] => .ok services
  | (name, entry) :: items =>
    if !entry.hasImage then manifestServices services items
    else
      match entry.image with
      | none => .error noImage
      | some image => manifestServices (services.set (component name) (imageRef image version (digests.get name))) items

def buildManifest (services : Services) (generatedAt : Str) (chartVersions : Dict Str Str) :
    Except PyError ReleaseManifest :=
  (manifestServices version digests Dict.empty (sortedItems services)).map fun refs =>
    ⟨version, generatedAt, refs, chartVersions⟩

structure BundleRow where
  category : Str
  component : Str
  sourceRef : Str
  harborTarget : Str
  approxSize : Str
  action : Str
  notes : Str

def rowNotes (digest : Option Str) : Str :=
  let note := lit "platform image (edition-agnostic); pinned by release manifest"
  match digest with
  | none | some [] => note ++ lit "; tag fallback — resolve digest before mirror"
  | some _ => note

def bundleRow (host name image : Str) (entry : ServiceMeta) : BundleRow where
  category := lit "platform-service"
  component := Release.component name
  sourceRef := imageRef image version (digests.get name)
  harborTarget := Release.harborTarget image version (digests.get name) host
  approxSize := entry.approxSize.getD (lit "~1GB")
  action := lit "MIRROR"
  notes := rowNotes (digests.get name)

/-- The loop of `build_bundle_rows`. -/
def bundleRows (host : Str) (rows : List BundleRow) : List (Str × ServiceMeta) → Except PyError (List BundleRow)
  | [] => .ok rows
  | (name, entry) :: items =>
    if !entry.hasImage then bundleRows host rows items
    else
      match entry.image with
      | none => .error noImage
      | some image => bundleRows host (rows ++ [bundleRow version digests host name image entry]) items

def buildBundleRows (services : Services) (host : Str) : Except PyError (List BundleRow) :=
  bundleRows version digests host [] (sortedItems services)

end Builders

/-! ## One release -/

/-- The services that bear an image. -/
def bearing (services : Services) : List (Str × ServiceMeta) := services.entries.filter fun e => e.2.hasImage

section Release
variable (services : Services) (version generatedAt : Str) (charts digests : Dict Str Str) (host : Str)

def imageOf (e : Str × ServiceMeta) : Str := e.2.image.getD []

def refOf (e : Str × ServiceMeta) : Str := imageRef (imageOf e) version (digests.get e.1)

/-- One entry and one row a service, the same reference in both, and no target for two references. -/
structure Delivers (manifest : ReleaseManifest) (rows : List BundleRow) : Prop where
  manifest_entries : manifest.services.entries.Perm ((bearing services).map fun e => (component e.1, refOf version digests e))
  bundle_rows : (rows.map fun r => (r.component, r.sourceRef)).Perm
    ((bearing services).map fun e => (component e.1, refOf version digests e))
  refs : ∀ r ∈ rows, manifest.services.get r.component = some r.sourceRef
  distinct : (rows.map BundleRow.component).Nodup
  targets : ∀ r ∈ rows, ∀ r' ∈ rows, r.sourceRef ≠ r'.sourceRef → r.harborTarget ≠ r'.harborTarget

def SameImages : Prop :=
  ∃ manifest rows, buildManifest version digests services generatedAt charts = .ok manifest ∧
    buildBundleRows version digests services host = .ok rows ∧ Delivers services version digests manifest rows

/-- No two services become one component, and no two references one target. -/
structure Unambiguous : Prop where
  images : ∀ e ∈ bearing services, e.2.image.isSome
  names : ∀ e ∈ bearing services, ∀ e' ∈ bearing services, dashed e.1 = dashed e'.1 → e.1 = e'.1
  segments : ∀ e ∈ bearing services, ∀ e' ∈ bearing services,
    lastSegment (imageOf e) = lastSegment (imageOf e') → refOf version digests e = refOf version digests e'

end Release

/-! ## The loops -/

section Loops
variable {version : Str} {digests : Dict Str Str} {host : Str} {items : List (Str × ServiceMeta)}

def rowOf (version : Str) (digests : Dict Str Str) (host : Str) (e : Str × ServiceMeta) : BundleRow :=
  bundleRow version digests host e.1 (imageOf e) e.2

theorem manifestServices_ok (h : ∀ e ∈ items, e.2.hasImage = true → e.2.image.isSome) (refs : Dict Str Str) :
    manifestServices version digests refs items =
      .ok ((items.filter fun e => e.2.hasImage).foldl (fun d e => d.set (component e.1) (refOf version digests e)) refs) := by
  induction items generalizing refs with
  | nil => rfl
  | cons e items ih =>
    obtain ⟨name, entry⟩ := e
    have hrest := ih fun e he => h e (List.mem_cons_of_mem _ he)
    rw [manifestServices]
    cases hhas : entry.hasImage with
    | false =>
      rw [List.filter_cons_of_neg (by simp [hhas])]
      exact hrest refs
    | true =>
      obtain ⟨image, himage⟩ := Option.isSome_iff_exists.mp (h (name, entry) List.mem_cons_self hhas)
      rw [List.filter_cons_of_pos (by simp [hhas]), himage]
      have href : refOf version digests (name, entry) = imageRef image version (digests.get name) := by
        rw [refOf, imageOf, himage]
        rfl
      rw [List.foldl_cons, href]
      exact hrest _

theorem bundleRows_ok (h : ∀ e ∈ items, e.2.hasImage = true → e.2.image.isSome) (rows : List BundleRow) :
    bundleRows version digests host rows items =
      .ok (rows ++ (items.filter fun e => e.2.hasImage).map (rowOf version digests host)) := by
  induction items generalizing rows with
  | nil => rw [List.filter_nil, List.map_nil, List.append_nil]; rfl
  | cons e items ih =>
    obtain ⟨name, entry⟩ := e
    have hrest := ih fun e he => h e (List.mem_cons_of_mem _ he)
    rw [bundleRows]
    cases hhas : entry.hasImage with
    | false =>
      rw [List.filter_cons_of_neg (by simp [hhas])]
      exact hrest rows
    | true =>
      obtain ⟨image, himage⟩ := Option.isSome_iff_exists.mp (h (name, entry) List.mem_cons_self hhas)
      rw [List.filter_cons_of_pos (by simp [hhas]), himage]
      have hrow : rowOf version digests host (name, entry) = bundleRow version digests host name image entry := by
        rw [rowOf, imageOf, himage]
        rfl
      rw [List.map_cons, hrow, ← List.singleton_append, ← List.append_assoc]
      exact hrest _

/-- A service whose image is missing ends the loop. -/
theorem images_of_bundleRows {rows result : List BundleRow} (h : bundleRows version digests host rows items = .ok result) :
    ∀ e ∈ items, e.2.hasImage = true → e.2.image.isSome := by
  induction items generalizing rows with
  | nil =>
    intro e he
    cases he
  | cons e items ih =>
    obtain ⟨name, entry⟩ := e
    rw [bundleRows] at h
    intro e' he' hhas'
    rcases List.mem_cons.mp he' with rfl | he'
    · have hhas : entry.hasImage = true := hhas'
      rw [hhas, Bool.not_true, if_neg Bool.false_ne_true] at h
      cases himage : entry.image with
      | none =>
        rw [himage] at h
        cases h
      | some image => rfl
    · split at h
      · exact ih h e' he' hhas'
      · split at h
        · cases h
        · exact ih h e' he' hhas'

end Loops

/-! ## When the two agree -/

section Agreement
variable {services : Services} {version generatedAt : Str} {charts digests : Dict Str Str} {host : Str}

def sortedBearing (services : Services) : List (Str × ServiceMeta) := (sortedItems services).filter fun e => e.2.hasImage

theorem sortedBearing_perm (services : Services) : (sortedBearing services).Perm (bearing services) :=
  (List.perm_insertionSort _ _).filter _

theorem mem_bearing_names {e e' : Str × ServiceMeta} (he : e ∈ bearing services) (he' : e' ∈ bearing services)
    (h : e.1 = e'.1) : e = e' := by
  have hnodup : (services.entries.map Prod.fst).Nodup := services.nodup
  exact List.inj_on_of_nodup_map hnodup (List.mem_of_mem_filter he) (List.mem_of_mem_filter he') h

theorem component_inj {name name' : Str} : component name = component name' ↔ dashed name = dashed name' :=
  List.append_right_inj _

theorem harborTarget_inj {image image' : Str} (digest digest' : Option Str) :
    harborTarget image version digest host = harborTarget image' version digest' host ↔
      lastSegment image = lastSegment image' := by
  simp [harborTarget]

/-- What both builders return when no image is missing. -/
theorem builders_ok (h : ∀ e ∈ bearing services, e.2.image.isSome) :
    buildManifest version digests services generatedAt charts =
        .ok ⟨version, generatedAt,
          Dict.comprehension (fun e => component e.1) (refOf version digests) (sortedBearing services), charts⟩ ∧
      buildBundleRows version digests services host = .ok ((sortedBearing services).map (rowOf version digests host)) := by
  have hitems : ∀ e ∈ sortedItems services, e.2.hasImage = true → e.2.image.isSome := by
    intro e he hhas
    apply h e
    exact List.mem_filter.mpr ⟨(List.mem_insertionSort _).mp he, hhas⟩
  constructor
  · rw [buildManifest, manifestServices_ok hitems]
    rfl
  · rw [buildBundleRows, bundleRows_ok hitems, List.nil_append]
    rfl

theorem components_nodup_iff (services : Services) : ((bearing services).map fun e => component e.1).Nodup ↔
    ∀ e ∈ bearing services, ∀ e' ∈ bearing services, dashed e.1 = dashed e'.1 → e.1 = e'.1 := by
  have hnodup : (bearing services).Nodup := (List.Nodup.of_map _ services.nodup).filter _
  rw [List.nodup_map_iff_inj_on hnodup]
  constructor
  · intro h e he e' he' hname
    exact congrArg Prod.fst (h e he e' he' (component_inj.mpr hname))
  · intro h e he e' he' hname
    exact mem_bearing_names he he' (h e he e' he' (component_inj.mp hname))

/-- The manifest and the bundle are about the same images exactly when names and last segments tell them apart. -/
theorem release_same_images_iff (services : Services) (version generatedAt : Str) (charts digests : Dict Str Str)
    (host : Str) :
    SameImages services version generatedAt charts digests host ↔ Unambiguous services version digests := by
  have hperm := sortedBearing_perm services
  constructor
  · rintro ⟨manifest, rows, hmanifest, hrows, hdelivers⟩
    have himages : ∀ e ∈ bearing services, e.2.image.isSome := by
      intro e he
      obtain ⟨hmem, hhas⟩ := List.mem_filter.mp he
      exact images_of_bundleRows hrows e ((List.mem_insertionSort _).mpr hmem) hhas
    obtain ⟨hmanifest', hrows'⟩ := @builders_ok services version generatedAt charts digests host himages
    obtain rfl := Except.ok.inj (hmanifest.symm.trans hmanifest')
    obtain rfl := Except.ok.inj (hrows.symm.trans hrows')
    refine ⟨himages, (components_nodup_iff services).mp ?_, ?_⟩
    · have hkeys := (hdelivers.manifest_entries.map Prod.fst).nodup_iff.mp (Dict.nodup _)
      rw [List.map_map] at hkeys
      exact hkeys
    · intro e he e' he' hsegment
      by_contra hne
      have hrow : ∀ e ∈ bearing services, rowOf version digests host e ∈
          (sortedBearing services).map (rowOf version digests host) :=
        fun e he => List.mem_map_of_mem (hperm.mem_iff.mpr he)
      exact hdelivers.targets _ (hrow e he) _ (hrow e' he') hne ((harborTarget_inj (digests.get e.1) (digests.get e'.1)).mpr hsegment)
  · intro h
    obtain ⟨hmanifest, hrows⟩ := @builders_ok services version generatedAt charts digests host h.images
    have hnodup := (components_nodup_iff services).mpr h.names
    have hsorted : ((sortedBearing services).map fun e => component e.1).Nodup := (hperm.map _).nodup_iff.mpr hnodup
    have hentries := Dict.entries_comprehension (fun e => component e.1) (refOf version digests) hsorted
    refine ⟨_, _, hmanifest, hrows, ?_, ?_, ?_, ?_, ?_⟩
    · exact hentries ▸ hperm.map _
    · rw [List.map_map]
      exact hperm.map _
    · intro r hr
      obtain ⟨e, he, rfl⟩ := List.mem_map.mp hr
      have hmem : (component e.1, refOf version digests e) ∈
          (Dict.comprehension (fun e => component e.1) (refOf version digests) (sortedBearing services)).entries := by
        rw [hentries]
        exact List.mem_map_of_mem he
      exact Dict.find_of_mem (Dict.nodup _) hmem
    · rw [List.map_map]
      exact hsorted
    · intro r hr r' hr' hne heq
      obtain ⟨e, he, rfl⟩ := List.mem_map.mp hr
      obtain ⟨e', he', rfl⟩ := List.mem_map.mp hr'
      exact hne (h.segments e (hperm.mem_iff.mp he) e' (hperm.mem_iff.mp he') ((harborTarget_inj (digests.get e.1) (digests.get e'.1)).mp heq))

end Agreement

/-! ## Two images of one name -/

def webService (image : Str) : ServiceMeta := ⟨true, some image, none⟩

def twoWebServices : Services :=
  (Dict.empty.set (lit "os") (webService (lit "ghcr.io/xenoisa/os/web"))).set (lit "console")
    (webService (lit "ghcr.io/xenoisa/console/web"))

def webRow (name : Str) : BundleRow :=
  rowOf (lit "1.2.3") Dict.empty (lit "core.harbor.domain") (name, webService (lit "ghcr.io/xenoisa/" ++ name ++ lit "/web"))

theorem web_image_overwritten :
    buildBundleRows (lit "1.2.3") Dict.empty twoWebServices (lit "core.harbor.domain") =
        .ok [webRow (lit "console"), webRow (lit "os")] ∧
      (webRow (lit "console")).harborTarget = lit "core.harbor.domain/isa/web:1.2.3" ∧
      (webRow (lit "os")).harborTarget = lit "core.harbor.domain/isa/web:1.2.3" ∧
      ¬ SameImages twoWebServices (lit "1.2.3") [] Dict.empty Dict.empty (lit "core.harbor.domain") := by
  have hrows : buildBundleRows (lit "1.2.3") Dict.empty twoWebServices (lit "core.harbor.domain") =
      .ok [webRow (lit "console"), webRow (lit "os")] := rfl
  have hdifferent : (webRow (lit "console")).sourceRef ≠ (webRow (lit "os")).sourceRef := by decide
  refine ⟨hrows, by decide, by decide, ?_⟩
  rintro ⟨manifest, rows, _, hok, hdelivers⟩
  obtain rfl := Except.ok.inj (hrows.symm.trans hok)
  apply hdelivers.targets (webRow (lit "console")) List.mem_cons_self (webRow (lit "os"))
    (List.mem_cons_of_mem _ List.mem_cons_self) hdifferent
  rfl

end IsaCloud.Release
