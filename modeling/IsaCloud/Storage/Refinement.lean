import IsaCloud.Storage.ObjectMap

/-!
# The files that show a map

`Shows` ties the tree of one user to a map: every stored object has its file and
its metadata file, and every file below the user's directory is one of those.
Each operation on simple names is evaluated on the tree first, and then shown to
keep the tie and to answer what the map says.
-/

namespace IsaCloud.Storage

set_option autoImplicit false

open Support Support.Text Support.Python Support.Encoding Support.FileTree Support.PosixPath Support.Json

variable [Host] {F : Type} [PyFloat F]

/-! ## Operations on the tree -/

section Evaluate
variable {c : Client} {root : Loc Name} {u m : Name} {b : Str} {t : Files}

omit [Host] [PyFloat F] in
theorem onPath_names {α : Type} {p : Path} {l : Loc Name} {f : List (Comp Name) → Io α}
    (hp : fspath p = some (l.map .name)) : onPath p f = f (l.map .name) := by rw [onPath, hp]

omit [Host] [PyFloat F] in
theorem runs_pathExists {p : Path} {l : Loc Name} (hp : fspath p = some (l.map .name)) (t : Files) :
    Runs (pathExists p) t (.ok (t.lookup l).isSome) t := by
  rw [pathExists, hp]
  exact runs_present t l

omit [Host] [PyFloat F] in
theorem runs_handleError {α : Type} {f : Io (Option α)} {t t' : Files} {a : Option α}
    (h : Runs f t (.ok a) t') : Runs (handleError f) t (.ok a) t' := h.handle_ok

omit [Host] [PyFloat F] in
theorem runs_handleError_raised {α : Type} {f : Io (Option α)} {t t' : Files} {e : Fault PyError}
    (h : Runs f t (.error e) t') : Runs (handleError f) t (.ok none) t' := h.handle_raised (runs_pure none t')

omit [PyFloat F] in
theorem createBucket_eval (hp : fspath (getBucketPath c b) = some ((root ++ [u, m]).map .name))
    (hfree : ∀ l, l <+: root ++ [u, m] → ∀ d, t.lookup l ≠ some (.file d)) :
    ∃ t', Runs (createBucket c b) t (.ok (some true)) t' ∧
      ∀ l, t'.lookup l = if l <+: root ++ [u, m] then some .dir else t.lookup l := by
  obtain ⟨t', hmk, hlook⟩ := makeDirs_names (X := PyError) hfree
  refine ⟨t', runs_handleError ?_, hlook⟩
  rw [onPath_names hp]
  exact hmk.bind (runs_pure _ t')

omit [Host] [PyFloat F] in
theorem write_eval {l : Loc Name} (h : t.isDir l.dropLast = true) (hl : l ≠ []) (hd : t.isDir l = false) (d : Bytes) :
    ∃ t', Runs (FileM.write (l.map .name) d : Io Unit) t (.ok ()) t' ∧
      ∀ k, t'.lookup k = if k = l then some (.file d) else t.lookup k :=
  ⟨_, runs_of_eq (write_file h hl hd d), fun k => Tree.lookup_store _ k⟩

omit [Host] [PyFloat F] in
theorem not_isDir_of_lookup {l : Loc Name} {d : Bytes} (h : t.lookup l = some (.file d)) : t.isDir l = false := by
  rw [Tree.isDir, h]
  rfl

omit [Host] [PyFloat F] in
theorem not_isDir_of_none {l : Loc Name} (h : t.lookup l = none) : t.isDir l = false := by
  rw [Tree.isDir, h]
  rfl

omit [Host] [PyFloat F] in
theorem not_above_self {l : Loc Name} (h : l ≠ []) : ¬ l <+: l.dropLast := by
  intro hp
  have hle := hp.length_le
  rw [List.length_dropLast] at hle
  have := List.length_pos_iff.mpr h
  omega

variable {p : Path} {obj side : Loc Name} {k : Str}

/-- The paths of an object, as locations of two files in one directory below the bucket. -/
structure Located (c : Client) (root : Loc Name) (u m : Name) (b k : Str) (p : Path) (obj side : Loc Name) : Prop where
  path : getObjectPath c b k = .ok p
  bucket : fspath (getBucketPath c b) = some ((root ++ [u, m]).map .name)
  object : fspath p = some (obj.map .name)
  metadata : fspath (getMetadataPath p) = some (side.map .name)
  above : root ++ [u, m] <+: obj.dropLast
  object_ne : obj ≠ []
  metadata_ne : side ≠ []
  ne : side ≠ obj
  together : side.dropLast = obj.dropLast

omit [PyFloat F] in
theorem Located.runs_path (h : Located c root u m b k p obj side) (t : Files) :
    Runs (ofExcept (getObjectPath c b k)) t (.ok p) t := by
  rw [h.path]
  exact runs_pure p t

/-- The tree after an object and its metadata were written. -/
def Wrote (t t' : Files) (obj side : Loc Name) (data bytes : Bytes) : Prop :=
  ∀ l, t'.lookup l = if l = side then some (.file bytes) else if l = obj then some (.file data)
    else if l <+: obj.dropLast then some .dir else t.lookup l

theorem putObject_eval [LawfulPyFloat F] (hl : Located c root u m b k p obj side)
    (hfree : ∀ l, l <+: obj.dropLast → ∀ d, t.lookup l ≠ some (.file d))
    (hod : t.isDir obj = false) (hsd : t.isDir side = false) {data : Bytes} {contentType metadata : Json F}
    {now : DateTime.Instant} {e : Entry} (he : metaRecord k data contentType metadata now = (e.record : Json F))
    (hsound : e.Sound) :
    ∃ t', Runs (putObject c b k data contentType metadata now) t (.ok (some (Host.md5 data))) t' ∧
      Wrote t t' obj side data (e.recordBytes F) := by
  obtain ⟨t₁, h₁, hlook₁⟩ := createBucket_eval hl.bucket fun l hlp => hfree l (hlp.trans hl.above)
  have hfree₁ : ∀ l, l <+: obj.dropLast → ∀ d, t₁.lookup l ≠ some (.file d) := by
    intro l hlp d
    rw [hlook₁]
    split
    · exact fun h => nomatch h
    · exact hfree l hlp d
  obtain ⟨t₂, h₂, hlook₂⟩ := makeDirs_names (X := PyError) hfree₁
  have hlook₂' : ∀ l, t₂.lookup l = if l <+: obj.dropLast then some .dir else t.lookup l := by
    intro l
    rw [hlook₂, hlook₁]
    by_cases hlp : l <+: obj.dropLast
    · rw [if_pos hlp, if_pos hlp]
    · have hlb : ¬ l <+: root ++ [u, m] := fun h => hlp (h.trans hl.above)
      rw [if_neg hlp, if_neg hlp, if_neg hlb]
  have hdir₂ : t₂.isDir obj.dropLast = true := by
    rw [Tree.isDir_iff, hlook₂', if_pos List.prefix_rfl]
  have hobj₂ : t₂.isDir obj = false := by
    rw [Tree.isDir, hlook₂', if_neg (not_above_self hl.object_ne)]
    exact hod
  obtain ⟨t₃, h₃, hlook₃⟩ := write_eval hdir₂ hl.object_ne hobj₂ data
  have hparent : obj.dropLast ≠ obj := fun h => not_above_self hl.object_ne (h.symm ▸ List.prefix_rfl)
  have hdir₃ : t₃.isDir side.dropLast = true := by
    rw [hl.together, Tree.isDir_iff, hlook₃, if_neg hparent]
    exact Tree.isDir_iff.mp hdir₂
  have hside₃ : t₃.isDir side = false := by
    rw [Tree.isDir, hlook₃, if_neg hl.ne, hlook₂', ← hl.together, if_neg (not_above_self hl.metadata_ne)]
    exact hsd
  -- the metadata file is emptied first and then filled
  obtain ⟨t₄, h₄, hlook₄⟩ := write_eval hdir₃ hl.metadata_ne hside₃ []
  have hsparent : side.dropLast ≠ side := fun h => not_above_self hl.metadata_ne (h.symm ▸ List.prefix_rfl)
  have hdir₄ : t₄.isDir side.dropLast = true := by
    rw [Tree.isDir_iff, hlook₄, if_neg hsparent]
    exact Tree.isDir_iff.mp hdir₃
  have hside₄ : t₄.isDir side = false := not_isDir_of_lookup ((hlook₄ side).trans (if_pos rfl))
  obtain ⟨t₅, h₅, hlook₅⟩ := write_eval hdir₄ hl.metadata_ne hside₄ (e.recordBytes F)
  have hdumps : Json.dumpsIndent (metaRecord k data contentType metadata now) = .ok (Json.indented 0 (e.record : Json F)) := by
    rw [he, Json.dumpsIndent, intsFit_of_wf _ (wf_record hsound), if_pos rfl]
  have hparentPath : fspath (parent p) = some (obj.dropLast.map .name) := by
    rw [fspath_parent hl.object, List.map_dropLast]
  refine ⟨t₅, runs_handleError ?_, ?_⟩
  · refine h₁.bind ((hl.runs_path t₁).bind ?_)
    rw [onPath_names hparentPath, onPath_names hl.object]
    dsimp only
    rw [onPath_names hl.metadata]
    refine h₂.bind (h₃.bind (h₄.bind ?_))
    rw [hdumps]
    refine (runs_pure _ t₄).bind ?_
    rw [encode_record]
    refine (runs_pure _ t₄).bind ?_
    rw [onPath_names hl.metadata]
    exact h₅.bind (runs_pure _ t₅)
  · intro l
    rw [hlook₅, hlook₄, hlook₃, hlook₂']
    by_cases hls : l = side
    · rw [if_pos hls, if_pos hls]
    · rw [if_neg hls, if_neg hls, if_neg hls]

def dataOf : Option (Node Bytes) → Option Bytes
  | some (.file d) => some d
  | _ => none

omit [PyFloat F] in
theorem getObject_eval (hl : Located c root u m b k p obj side) (t : Files) :
    Runs (getObject c b k) t (.ok (dataOf (t.lookup obj))) t := by
  have hex := runs_pathExists hl.object t
  cases ho : t.lookup obj with
  | none =>
    rw [ho] at hex
    exact runs_handleError ((hl.runs_path t).bind (hex.bind (runs_pure none t)))
  | some node =>
    rw [ho] at hex
    cases node with
    | file d =>
      refine runs_handleError ((hl.runs_path t).bind (hex.bind ?_))
      rw [onPath_names hl.object]
      exact (runs_of_eq (read_file ho)).bind (runs_pure (some d) t)
    | dir =>
      refine runs_handleError_raised (e := .os .eisdir) ((hl.runs_path t).bind (hex.bind ?_))
      rw [onPath_names hl.object]
      exact (runs_of_eq (read_dir ho)).bind_error

omit [PyFloat F] in
theorem objectExists_eval (hl : Located c root u m b k p obj side) (t : Files) :
    Runs (objectExists c b k) t (.ok (t.lookup obj).isSome) t :=
  ((hl.runs_path t).bind (runs_pathExists hl.object t)).handle_ok

theorem getObjectInfo_eval [LawfulPyFloat F] (hl : Located c root u m b k p obj side) {d : Bytes} {e : Entry}
    (ho : t.lookup obj = some (.file d)) (hs : t.lookup side = some (.file (e.recordBytes F))) (hsound : e.Sound) :
    Runs (getObjectInfo c b k : Io (Option (ObjectInfo F))) t (.ok (some (e.info b k))) t := by
  have hex := runs_pathExists hl.object t
  have hmeta := runs_pathExists hl.metadata t
  rw [ho] at hex
  rw [hs] at hmeta
  obtain ⟨text, hread, hload⟩ := read_record (F := F) hsound
  refine runs_handleError ((hl.runs_path t).bind (hex.bind ?_))
  have hrecord : Runs (readRecord k p (getMetadataPath p) : Io (Json F)) t (.ok e.record) t := by
    refine hmeta.bind ?_
    rw [Option.isSome_some, if_pos rfl, onPath_names hl.metadata]
    refine (runs_of_eq (read_file hs)).bind ?_
    rw [hread]
    refine (runs_pure text t).bind ?_
    rw [hload]
    exact runs_pure _ t
  refine hrecord.bind ?_
  rw [infoOf_record]
  exact (runs_pure _ t).bind (runs_pure _ t)

theorem getObjectInfo_absent (hl : Located c root u m b k p obj side) (ho : t.lookup obj = none) :
    Runs (getObjectInfo c b k : Io (Option (ObjectInfo F))) t (.ok none) t := by
  have hex := runs_pathExists hl.object t
  rw [ho] at hex
  exact runs_handleError ((hl.runs_path t).bind (hex.bind (runs_pure none t)))

omit [Host] [PyFloat F] in
theorem removeIfExists_eval {q : Path} {l : Loc Name} (hq : fspath q = some (l.map .name))
    (hd : t.isDir l = false) :
    ∃ t', Runs (removeIfExists q) t (.ok ()) t' ∧
      ∀ k, t'.lookup k = if k = l then none else t.lookup k := by
  have hex := runs_pathExists hq t
  cases hl : t.lookup l with
  | none =>
    rw [hl] at hex
    refine ⟨t, hex.bind (runs_pure () t), ?_⟩
    intro k
    by_cases hk : k = l
    · rw [if_pos hk, hk, hl]
    · rw [if_neg hk]
  | some node =>
    rw [hl] at hex
    cases node with
    | dir =>
      rw [Tree.isDir_iff.mpr hl] at hd
      cases hd
    | file d =>
      have hne : l ≠ [] := by
        rintro rfl
        rw [Tree.lookup_root] at hl
        cases hl
      refine ⟨_, hex.bind ?_, Tree.lookup_erase (children_file hl) hne⟩
      rw [Option.isSome_some, if_pos rfl, onPath_names hq]
      exact runs_of_eq (unlink_file hl)

omit [PyFloat F] in
theorem deleteObject_eval (hl : Located c root u m b k p obj side) (hod : t.isDir obj = false)
    (hsd : t.isDir side = false) :
    ∃ t', Runs (deleteObject c b k) t (.ok (some true)) t' ∧
      ∀ l, t'.lookup l = if l = obj ∨ l = side then none else t.lookup l := by
  obtain ⟨t₁, h₁, hlook₁⟩ := removeIfExists_eval hl.object hod
  have hsd₁ : t₁.isDir side = false := by
    rw [Tree.isDir, hlook₁, if_neg hl.ne]
    exact hsd
  obtain ⟨t₂, h₂, hlook₂⟩ := removeIfExists_eval hl.metadata hsd₁
  refine ⟨t₂, runs_handleError ((hl.runs_path t).bind (h₁.bind (h₂.bind (runs_pure _ t₂)))), ?_⟩
  intro l
  rw [hlook₂, hlook₁]
  by_cases hs : l = side
  · rw [if_pos hs, if_pos (Or.inr hs)]
  · by_cases ho : l = obj
    · rw [if_neg hs, if_pos ho, if_pos (Or.inl ho)]
    · rw [if_neg hs, if_neg ho, if_neg (not_or.mpr ⟨ho, hs⟩)]

variable [ScanOrder Name Bytes]

omit [PyFloat F] in
theorem deleteBucket_absent (hp : fspath (getBucketPath c b) = some ((root ++ [u, m]).map .name))
    (h : t.lookup (root ++ [u, m]) = none) : Runs (deleteBucket c b) t (.ok (some true)) t := by
  have hex := runs_pathExists hp t
  rw [h] at hex
  exact runs_handleError (hex.bind (runs_pure _ t))

omit [PyFloat F] in
theorem deleteBucket_full (hp : fspath (getBucketPath c b) = some ((root ++ [u, m]).map .name))
    (h : t.lookup (root ++ [u, m]) = some .dir) {n : Name} (hn : isMeta n = false)
    (hc : (t.lookup (root ++ [u, m] ++ [n])).isSome) : Runs (deleteBucket c b) t (.ok (some false)) t := by
  have hex := runs_pathExists hp t
  rw [h] at hex
  refine runs_handleError (hex.bind ?_)
  rw [onPath_names hp]
  refine (runs_of_eq (scandir_dir h)).bind ?_
  obtain ⟨node, hnode⟩ := Option.isSome_iff_exists.mp hc
  have hmem : (n, node) ∈ ((ScanOrder.scan t (root ++ [u, m])).filterMap fun n =>
      (t.lookup (root ++ [u, m] ++ [n])).map fun node => (n, node)).filter fun e => !isMeta e.1 := by
    refine List.mem_filter.mpr ⟨List.mem_filterMap.mpr ⟨n, mem_scan.mpr hc, ?_⟩, ?_⟩
    · rw [hnode]
      rfl
    · rw [hn]
      rfl
  rw [if_neg]
  · exact runs_pure _ t
  · rw [List.isEmpty_iff]
    intro hnil
    rw [hnil] at hmem
    cases hmem

omit [PyFloat F] in
theorem deleteBucket_empty (hp : fspath (getBucketPath c b) = some ((root ++ [u, m]).map .name))
    (h : t.lookup (root ++ [u, m]) = some .dir) (hc : t.children (root ++ [u, m]) = []) :
    ∃ t', Runs (deleteBucket c b) t (.ok (some true)) t' ∧
      ∀ l, t'.lookup l = if l = root ++ [u, m] then none else t.lookup l := by
  have hex := runs_pathExists hp t
  rw [h] at hex
  have hscan : ScanOrder.scan t (root ++ [u, m]) = [] := by
    have hperm := ScanOrder.perm t (root ++ [u, m])
    rw [hc] at hperm
    exact hperm.eq_nil
  have hentries := runs_of_eq (X := PyError) (scandir_dir h)
  rw [hscan, List.filterMap_nil] at hentries
  have hne : root ++ [u, m] ≠ [] := by simp
  refine ⟨_, runs_handleError (hex.bind ?_), Tree.lookup_erase hc hne⟩
  rw [onPath_names hp]
  refine hentries.bind ?_
  rw [List.filter_nil, List.isEmpty_nil, if_pos rfl]
  refine hentries.bind ?_
  rw [onPath_names hp, onPath_names hp]
  exact (runs_pure () t).bind ((runs_of_eq (rmdir_empty h hne hc)).bind (runs_pure _ _))

end Evaluate

/-! ## The tie between tree and map -/

/-- A bucket and key in ordinary text, no segment of which ends like a metadata file. -/
structure GoodKey (m : Name) (ns : List Name) : Prop where
  bucket : Clean m
  key_ne : ns ≠ []
  names : ∀ n ∈ ns, Clean n
  no_meta : ∀ n ∈ ns, isMeta n = false

variable (F) in
structure Shows (root : Loc Name) (u : Name) (t : Files) (M : ObjectMap) : Prop where
  home : ∀ l, l <+: root ++ [u] → ∀ d, t.lookup l ≠ some (.file d)
  domain : ∀ b k e, M b k = some e → e.Sound ∧ ∃ m ns, GoodKey m ns ∧ b = nameText m ∧ k = keyText ns
  files : ∀ m ns e, GoodKey m ns → M (nameText m) (keyText ns) = some e →
    t.lookup (root ++ u :: m :: ns) = some (.file e.data) ∧
      t.lookup (root ++ u :: m :: beside ns) = some (.file (e.recordBytes F))
  only : ∀ m r d, t.lookup (root ++ u :: m :: r) = some (.file d) →
    ∃ ns e, GoodKey m ns ∧ M (nameText m) (keyText ns) = some e ∧ (r = ns ∨ r = beside ns)
  no_meta_dir : ∀ m r n, t.lookup (root ++ u :: m :: (r ++ [n])) = some .dir → isMeta n = false

section Tie
variable {c : Client} {root : Loc Name} {u m : Name} {b k : Str} {t t' : Files} {M : ObjectMap} {ns : List Name}

omit [Host] in
theorem GoodKey.split (h : GoodKey m ns) : ∃ q n, ns = q ++ [n] ∧ Clean n ∧ isMeta n = false := by
  rcases List.eq_nil_or_concat ns with rfl | ⟨q, n, rfl⟩
  · exact absurd rfl h.key_ne
  · rw [List.concat_eq_append] at h ⊢
    exact ⟨q, n, rfl, h.names n (by simp), h.no_meta n (by simp)⟩

omit [Host] in
theorem GoodKey.beside_ne (h : GoodKey m ns) {ns' : List Name} (h' : GoodKey m ns') : beside ns ≠ ns' := by
  obtain ⟨q, n, rfl, hn, _⟩ := h.split
  obtain ⟨q', n', rfl, _, hmeta⟩ := h'.split
  rw [beside_concat]
  intro heq
  have hlast := List.append_inj_right' heq rfl
  rw [← List.singleton_inj.mp hlast, hn.isMeta_sidecar] at hmeta
  cases hmeta

omit [Host] in
theorem GoodKey.beside_inj (h : GoodKey m ns) {ns' : List Name} (h' : GoodKey m ns')
    (heq : beside ns = beside ns') : ns = ns' := by
  obtain ⟨q, n, rfl, hn, _⟩ := h.split
  obtain ⟨q', n', rfl, hn', _⟩ := h'.split
  rw [beside_concat, beside_concat] at heq
  have hlast := List.singleton_inj.mp (List.append_inj_right' heq rfl)
  rw [List.append_inj_left' heq rfl, hn.sidecar_inj hn' hlast]

omit [Host] in
theorem GoodKey.ext_key {m' : Name} {ns' : List Name} (h : GoodKey m ns) (h' : GoodKey m' ns')
    (hb : nameText m = nameText m') (hk : keyText ns = keyText ns') : m = m' ∧ ns = ns' :=
  ⟨h.bucket.inj h'.bucket hb, keyText_inj h.names h'.names h.key_ne h'.key_ne hk⟩

/-- A file at the place of a good key is the object of that key. -/
theorem Shows.stored_of_file (h : Shows F root u t M) (hk : GoodKey m ns) {d : Bytes}
    (hf : t.lookup (root ++ u :: m :: ns) = some (.file d)) :
    ∃ e, M (nameText m) (keyText ns) = some e := by
  obtain ⟨ns', e, hgood, he, hr | hr⟩ := h.only m ns d hf
  · rw [hr]
    exact ⟨e, he⟩
  · exact absurd hr.symm (hgood.beside_ne hk)

theorem Shows.absent (h : Shows F root u t M) (hk : GoodKey m ns) (hM : M (nameText m) (keyText ns) = none)
    (hd : t.isDir (root ++ u :: m :: ns) = false) : t.lookup (root ++ u :: m :: ns) = none := by
  cases hl : t.lookup (root ++ u :: m :: ns) with
  | none => rfl
  | some node =>
    cases node with
    | dir =>
      rw [Tree.isDir_iff.mpr hl] at hd
      cases hd
    | file d =>
      obtain ⟨e, he⟩ := h.stored_of_file hk hl
      rw [hM] at he
      cases he

theorem Shows.beside_not_dir (h : Shows F root u t M) (hk : GoodKey m ns) :
    t.isDir (root ++ u :: m :: beside ns) = false := by
  obtain ⟨q, n, rfl, hn, _⟩ := hk.split
  rw [beside_concat]
  cases hd : t.isDir (root ++ u :: m :: (q ++ [sidecar n])) with
  | false => rfl
  | true =>
    have := h.no_meta_dir m q (sidecar n) (Tree.isDir_iff.mp hd)
    rw [hn.isMeta_sidecar] at this
    cases this

/-- No file stands where a bucket does, or above. -/
theorem Shows.bucket_free (h : Shows F root u t M) (m : Name) :
    ∀ l, l <+: root ++ [u, m] → ∀ d, t.lookup l ≠ some (.file d) := by
  intro l hl d
  have hcat : root ++ [u, m] = (root ++ [u]) ++ [m] := by simp
  rw [hcat] at hl
  rcases List.prefix_concat_iff.mp hl with rfl | hl
  · intro hf
    rw [← hcat] at hf
    obtain ⟨ns, e, hgood, _, hr | hr⟩ := h.only m [] d hf
    · exact hgood.key_ne hr.symm
    · obtain ⟨q, n, rfl, _⟩ := hgood.split
      rw [beside_concat] at hr
      exact absurd hr (by simp)
  · exact h.home l hl d

omit [Host] in
theorem Clean.sidecar_ne {n : Name} (h : Clean n) : Storage.sidecar n ≠ n := by
  intro heq
  have hlen := congrArg List.length h.sidecar.2
  rw [heq, List.length_append] at hlen
  have hpos : 0 < metaSuffix.length := by decide
  omega

omit [PyFloat F] in
/-- Where the paths of a simple key lead. -/
theorem located (hu : fspath (getUserPath c) = some ((root ++ [u]).map .name)) (hb : SimpleBucket (nameText m))
    (hm : Clean m) (hns : ∀ n ∈ ns, Clean n) (hne : ns ≠ []) :
    Located c root u m (nameText m) (keyText ns) (getBucketPath c (nameText m) ++ ns.map nameText)
      (root ++ u :: m :: ns) (root ++ u :: m :: beside ns) := by
  obtain ⟨hpath, hobj⟩ := getObjectPath_simple hu hb hm.named hns hne
  have hmeta := fspath_meta hu hb hm.named hns hne
  rcases List.eq_nil_or_concat ns with rfl | ⟨q, n, rfl⟩
  · exact absurd rfl hne
  rw [List.concat_eq_append] at *
  have hcat : ∀ x : Name, root ++ u :: m :: (q ++ [x]) = (root ++ u :: m :: q) ++ [x] := by simp
  refine ⟨hpath, fspath_bucket hu hb hm.named, hobj, hmeta, ?_, by simp, by simp, ?_, ?_⟩
  · rw [hcat, List.dropLast_concat]
    exact ⟨q, by simp⟩
  · rw [beside_concat, hcat, hcat]
    intro heq
    exact (hns n (by simp)).sidecar_ne (List.singleton_inj.mp (List.append_cancel_left heq))
  · rw [beside_concat, hcat, hcat, List.dropLast_concat, List.dropLast_concat]

omit [PyFloat F] in
theorem GoodKey.located (hk : GoodKey m ns) (hu : fspath (getUserPath c) = some ((root ++ [u]).map .name))
    (hb : SimpleBucket (nameText m)) :
    Located c root u m (nameText m) (keyText ns) (getBucketPath c (nameText m) ++ ns.map nameText)
      (root ++ u :: m :: ns) (root ++ u :: m :: beside ns) :=
  Storage.located hu hb hk.bucket hk.names hk.key_ne

end Tie

end IsaCloud.Storage
