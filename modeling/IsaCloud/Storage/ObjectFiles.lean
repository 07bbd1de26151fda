import IsaCloud.Storage.ObjectRuns
import IsaCloud.Support.FileChanges

/-!
# What object operations do on any tree

The two files of an object, where nothing is assumed of its names. A read changes
nothing; a put that succeeds has written both files; a put that fails has written
the object or nothing, unless its record cannot be written as text; a deletion
takes away files only.
-/

namespace IsaCloud.Storage

set_option autoImplicit false

open Support Support.Text Support.Python Support.Encoding Support.FileTree Support.PosixPath

/-! ## The files of an object -/

section Names

theorem fsencode_append {s u : Str} {bs us : Bytes} (hs : fsencode s = some bs) (hu : fsencode u = some us) :
    fsencode (s ++ u) = some (bs ++ us) := by
  induction s generalizing bs with
  | nil =>
    cases hs
    exact hu
  | cons c s ih =>
    rw [fsencode] at hs
    obtain ⟨b, hb, hrest⟩ := Option.bind_eq_some_iff.mp hs
    obtain ⟨rest, hr, rfl⟩ := Option.map_eq_some_iff.mp hrest
    rw [List.cons_append, fsencode, hb, ih hr]
    simp only [Option.bind_some, Option.map_some, List.append_assoc]

def suffixBytes : Bytes := (fsencode metaSuffix).getD []

theorem fsencode_suffix : fsencode metaSuffix = some suffixBytes := by decide

theorem fsencode_of_component {seg : Str} {c : Comp Name} (h : component seg = some c) :
    ∃ bs, fsencode seg = some bs ∧ byte 0 ∉ bs ∧ byte 47 ∉ bs ∧ ∀ n, c = .name n → n.bytes = bs := by
  rw [component] at h
  split at h
  · rename_i hseg
    cases h
    rw [hseg]
    exact ⟨[byte 46, byte 46], by decide, by decide, by decide, fun n hn => by cases hn⟩
  · obtain ⟨bs, hbs, hc⟩ := Option.bind_eq_some_iff.mp h
    split at hc
    · rename_i hok
      cases hc
      obtain ⟨-, hnul, hslash, -⟩ := of_decide_eq_true hok
      refine ⟨bs, hbs, hnul, hslash, ?_⟩
      intro n hn
      cases hn
      rfl
    · cases hc

/-- The name of a metadata file can always be given to the system. -/
theorem component_metadata {seg : Str} {bs : Bytes} (hbs : fsencode seg = some bs) (hnul : byte 0 ∉ bs)
    (hslash : byte 47 ∉ bs) : ∃ n, component (seg ++ metaSuffix) = some (.name n) ∧ n.bytes = bs ++ suffixBytes := by
  have hlen : suffixBytes.length = 10 := by decide
  have hnul' : byte 0 ∉ suffixBytes := by decide
  have hslash' : byte 47 ∉ suffixBytes := by decide
  have hshort : ∀ w : Bytes, w.length < 10 → bs ++ suffixBytes ≠ w := by
    intro w hw heq
    have := congrArg List.length heq
    rw [List.length_append] at this
    omega
  have hok : nameOk (bs ++ suffixBytes) = true := by
    apply decide_eq_true
    refine ⟨hshort [] (by decide), ?_, ?_, hshort _ (by decide), hshort _ (by decide)⟩
    · rw [List.mem_append, not_or]
      exact ⟨hnul, hnul'⟩
    · rw [List.mem_append, not_or]
      exact ⟨hslash, hslash'⟩
  refine ⟨⟨bs ++ suffixBytes, hok⟩, ?_, rfl⟩
  rw [component, if_neg (metaSuffix_append_ne seg).2.2, fsencode_append hbs fsencode_suffix, Option.bind_some, dif_pos hok]

theorem enter_ne {l : Loc Name} {c : Comp Name} {n : Name} (h : c ≠ .name n) : enter l (.name n) ≠ enter l c := by
  intro heq
  cases c with
  | up =>
    have := congrArg List.length heq
    rw [enter, enter, List.length_append, List.length_dropLast, List.length_singleton] at this
    omega
  | name m =>
    rw [enter, enter, List.append_cancel_left_eq, List.cons.injEq] at heq
    exact h (by rw [heq.1])

/-- Every object that has a path has one for its metadata, and it is another file. -/
theorem fspath_metadata_some {p : Path} {cs : List (Comp Name)} (h : fspath p = some cs) :
    ∃ n, fspath (getMetadataPath p) = some (cs.dropLast ++ [.name n]) ∧
      FileTree.norm (cs.dropLast ++ [.name n]) ≠ norm cs := by
  rw [getMetadataPath_eq (slash_not_mem_name h), fspath_append, fspath_parent h]
  rcases List.eq_nil_or_concat p with rfl | ⟨q, seg, rfl⟩
  · cases h
    obtain ⟨n, hn, -⟩ := @component_metadata [] [] rfl (by decide) (by decide)
    refine ⟨n, ?_, fun heq => nomatch heq⟩
    rw [show name [] ++ metaSuffix = [] ++ metaSuffix from rfl, fspath, hn]
    rfl
  · rw [List.concat_eq_append] at h ⊢
    have hname : name (q ++ [seg]) = seg := by simp [name]
    obtain ⟨ds, d, -, hd, rfl⟩ := fspath_concat_some h
    obtain ⟨bs, hbs, hnul, hslash, hsame⟩ := fsencode_of_component hd
    obtain ⟨n, hn, hbytes⟩ := component_metadata hbs hnul hslash
    refine ⟨n, ?_, ?_⟩
    · rw [hname, fspath, hn]
      rfl
    · rw [List.dropLast_concat, norm_concat, norm_concat]
      apply enter_ne
      intro hdn
      have hlen := congrArg List.length ((hsame n hdn).symm.trans hbytes)
      have hten : suffixBytes.length = 10 := by decide
      rw [List.length_append] at hlen
      omega

end Names

variable [Host]

/-- The components of the two files of an object. -/
structure ObjectFiles (c : Client) (b k : Str) (p : Path) (cs ms : List (Comp Name)) : Prop where
  path : getObjectPath c b k = .ok p
  object : fspath p = some cs
  metadata : fspath (getMetadataPath p) = some ms
  beside : ∃ n, ms = cs.dropLast ++ [.name n]
  ne : norm ms ≠ norm cs

def metadataPlace (c : Client) (bucketName key : Str) : Loc Name :=
  placeOf (getMetadataPath (join (getBucketPath c bucketName) key))

section Files
variable {c : Client} {b k : Str} {p : Path} {cs ms : List (Comp Name)} {t t' : Files}

theorem objectFiles_of_ok (h : getObjectPath c b k = .ok p) : ∃ cs ms, ObjectFiles c b k p cs ms := by
  obtain ⟨-, -, cs, -, hcs, -⟩ := getObjectPath_ok h
  obtain ⟨n, hn, hne⟩ := fspath_metadata_some hcs
  exact ⟨cs, _, h, hcs, hn, ⟨n, rfl⟩, hne⟩

theorem ObjectFiles.objectPlace_eq (h : ObjectFiles c b k p cs ms) : objectPlace c b k = norm cs := by
  rw [objectPlace, placeOf, ← (getObjectPath_ok h.path).1, h.object]
  rfl

theorem ObjectFiles.metadataPlace_eq (h : ObjectFiles c b k p cs ms) : metadataPlace c b k = norm ms := by
  rw [metadataPlace, placeOf, ← (getObjectPath_ok h.path).1, h.metadata]
  rfl

/-- Where the object can be reached its metadata can. -/
theorem ObjectFiles.locate_metadata (h : ObjectFiles c b k p cs ms) (hl : locate t cs = .ok (norm cs)) :
    locate t ms = .ok (norm ms) := by
  obtain ⟨n, rfl⟩ := h.beside
  rcases List.eq_nil_or_concat cs with rfl | ⟨ds, d, rfl⟩
  · rw [List.dropLast_nil]
    exact locate_concat_ok rfl (Tree.isDir_iff.mpr (Tree.lookup_root t))
  · rw [List.concat_eq_append] at hl ⊢
    obtain ⟨h1, h2⟩ := locate_concat_inv hl
    rw [List.dropLast_concat]
    exact locate_concat_ok h1 h2

/-! ## Reading -/

omit [Host] in
theorem reads_onPath {α : Type} (q : Path) {f : List (Comp Name) → Io α} (h : ∀ es, Reads (f es)) :
    Reads (onPath q f) := by
  rw [onPath]
  cases fspath q with
  | none => exact reads_raise _
  | some es => exact h es

omit [Host] in
theorem reads_pathExists (q : Path) : Reads (pathExists q) := by
  rw [pathExists]
  cases fspath q with
  | none => exact reads_pure false
  | some es => exact reads_present es

omit [Host] in
theorem reads_ofExcept {α : Type} (x : Except PyError α) : Reads (ofExcept x) := by
  cases x with
  | ok a => exact reads_pure a
  | error e => exact reads_raise _

omit [Host] in
theorem reads_handleError {α : Type} {m : Io (Option α)} (h : Reads m) : Reads (handleError m) :=
  reads_handle h fun _ => reads_pure none

theorem reads_getObject (c : Client) (b k : Str) : Reads (getObject c b k) := by
  refine reads_handleError (reads_bind (reads_ofExcept _) ?_)
  intro q
  refine reads_bind (reads_pathExists q) ?_
  intro found
  cases found with
  | false => exact reads_pure none
  | true => exact reads_bind (reads_onPath q reads_read) fun _ => reads_pure _

theorem reads_getObjectInfo (c : Client) (b k : Str) {F : Type} [PyFloat F] :
    Reads (getObjectInfo c b k : Io (Option (ObjectInfo F))) := by
  have hstat : ∀ (key : Str) (es : List (Comp Name)), Reads (statRecord key es : Io (Json F)) := by
    intro key es t
    exact reads_bind (reads_stat es) (fun r => reads_pure (basicRecord key t r.1 r.2)) t
  refine reads_handleError (reads_bind (reads_ofExcept _) ?_)
  intro q
  refine reads_bind (reads_pathExists q) ?_
  intro found
  cases found with
  | false => exact reads_pure none
  | true =>
    refine reads_bind ?_ fun _ => reads_bind (reads_ofExcept _) fun _ => reads_pure _
    refine reads_bind (reads_pathExists _) ?_
    intro there
    cases there with
    | false => exact reads_onPath q (hstat k)
    | true =>
      exact reads_bind (reads_onPath _ reads_read) fun _ => reads_bind (reads_ofExcept _) fun _ => reads_ofExcept _

omit [Host] in
/-- An operation that handles its errors always answers. -/
theorem runs_answers {α : Type} (m : Io (Option α)) (t : Files) :
    ∃ a, Runs (handleError m) t (.ok a) (handleError m t).tree := by
  have hvalue : ∃ a, (handleError m t).value = .ok a := by
    rw [handleError, FileM.handle]
    cases (m t).value with
    | ok a => exact ⟨a, rfl⟩
    | error e => exact ⟨none, rfl⟩
  obtain ⟨a, ha⟩ := hvalue
  exact ⟨a, ha, rfl⟩

theorem runs_createBucket (c : Client) (b : Str) (t : Files) :
    ∃ a, Runs (createBucket c b) t (.ok a) (createBucket c b t).tree := runs_answers _ t

omit [Host] in
theorem reads_answers {α : Type} {m : Io (Option α)} (h : Reads (handleError m)) (t : Files) :
    ∃ a, Runs (handleError m) t (.ok a) t := by
  obtain ⟨a, ha⟩ := runs_answers m t
  rw [← h t] at ha
  exact ⟨a, ha⟩

omit [Host] in
theorem runs_handleError_of {α : Type} {m : Io (Option α)} {a : Option α} (h : Runs (handleError m) t (.ok a) t') :
    ∃ w, Runs m t w t' ∧ (w = .ok a ∨ a = none ∧ ∃ e, w = .error e) := by
  rcases h.of_handle with ⟨a', ha, hm⟩ | ⟨e, t₁, hm, hpure⟩
  · cases ha
    exact ⟨_, hm, Or.inl rfl⟩
  · obtain ⟨hvalue, htree⟩ := hpure
    cases hvalue
    cases htree
    exact ⟨_, hm, Or.inr ⟨rfl, e, rfl⟩⟩

omit [Host] in
theorem runs_ofExcept {α : Type} {x : Except PyError α} {a : α} (h : Runs (ofExcept x) t (.ok a) t') :
    x = .ok a ∧ t' = t := by
  cases x with
  | ok b =>
    obtain ⟨hvalue, htree⟩ := h
    cases hvalue
    cases htree
    exact ⟨rfl, rfl⟩
  | error e => exact nomatch h.1

omit [Host] in
theorem runs_onPath {α : Type} {q : Path} {f : List (Comp Name) → Io α} {a : α}
    (h : Runs (onPath q f) t (.ok a) t') : ∃ es, fspath q = some es ∧ Runs (f es) t (.ok a) t' := by
  rw [onPath] at h
  cases hq : fspath q with
  | none =>
    rw [hq] at h
    cases h.1
  | some es =>
    rw [hq] at h
    exact ⟨es, rfl, h⟩

theorem getObject_file (h : ObjectFiles c b k p cs ms) (hl : locate t cs = .ok (norm cs)) {data : Bytes}
    (hf : t.lookup (norm cs) = some (.file data)) : Runs (getObject c b k) t (.ok (some data)) t := by
  have hex := runs_of_eq (pathExists_reached h.object hl)
  rw [hf] at hex
  have hread : Runs (onPath p FileM.read : Io Bytes) t (.ok data) t := by
    rw [onPath, h.object]
    refine ⟨?_, ?_⟩
    · simp only [FileM.read, FileM.call, hl, hf]
    · simp only [FileM.read, FileM.call, hl, hf]
  refine runs_handleError ?_
  exact (runs_of_eq (ofExcept_objectPath h.path t)).bind (hex.bind (hread.bind (runs_pure _ t)))

/-- Data comes from a file at the place of the object only. -/
theorem getObject_some_iff {data : Bytes} : (getObject c b k t).value = .ok (some data) ↔
    ∃ p cs ms, ObjectFiles c b k p cs ms ∧ locate t cs = .ok (norm cs) ∧ t.lookup (norm cs) = some (.file data) := by
  constructor
  · intro hv
    have hrun : Runs (getObject c b k) t (.ok (some data)) t := ⟨hv, (reads_getObject c b k t).symm⟩
    obtain ⟨w, hbody, rfl | ⟨hnone, -⟩⟩ := runs_handleError_of hrun
    · obtain ⟨p, t₁, hpath, hfound⟩ := hbody.of_bind_ok
      obtain ⟨hp, rfl⟩ := runs_ofExcept hpath
      obtain ⟨cs, ms, h⟩ := objectFiles_of_ok hp
      obtain ⟨found, t₂, hexists, hrest⟩ := hfound.of_bind_ok
      obtain rfl : t₂ = t₁ := hexists.2.symm.trans (reads_pathExists p _).symm
      cases found with
      | false => exact nomatch hrest.1
      | true =>
        obtain ⟨d, t₃, hread, hpure⟩ := hrest.of_bind_ok
        obtain ⟨es, hes, hfile⟩ := runs_onPath hread
        rw [h.object] at hes
        cases hes
        cases hpure.1
        obtain ⟨hl, hf⟩ := runs_read hfile
        exact ⟨p, cs, ms, h, hl, hf⟩
    · cases hnone
  · rintro ⟨p, cs, ms, h, hl, hf⟩
    exact (getObject_file h hl hf).1

/-! ## Storing -/

/-- An object can be stored: its bucket made, no file stands where its path needs a directory, and neither
its place nor that of its metadata is a directory or becomes one. -/
def Accepts (c : Client) (t : Files) (b k : Str) : Prop :=
  ∃ p cs, getObjectPath c b k = .ok p ∧ fspath p = some cs ∧
    (∀ l, Passes cs.dropLast l → (∀ d, t.lookup l ≠ some (.file d)) ∧ l ≠ objectPlace c b k ∧ l ≠ metadataPlace c b k) ∧
    (createBucket c b t).tree.isDir (objectPlace c b k) = false ∧
    (createBucket c b t).tree.isDir (metadataPlace c b k) = false

/-- A put that has succeeded: directories were made and then the two files written. -/
def Stored (c : Client) (b k : Str) (data : Bytes) (t t' : Files) : Prop :=
  ∃ p cs ms t₁ t₂ bytes, ObjectFiles c b k p cs ms ∧ Grown t t₁ ∧ locate t₁ cs = .ok (norm cs) ∧
    Filled t₁ t₂ (norm cs) data ∧ Filled t₂ t' (norm ms) bytes

/-- A put that has failed. -/
def HalfStored (c : Client) (b k : Str) (data : Bytes) (t t' : Files) : Prop :=
  ∃ t₁, Grown t t₁ ∧ (t' = t₁ ∨ Filled t₁ t' (objectPlace c b k) data)

theorem grows_createBucket (c : Client) (b : Str) : Grows (createBucket c b) := by
  refine respects_handle Grown.trans ?_ fun _ => grows_of_reads (reads_pure none)
  refine respects_bind Grown.trans ?_ fun _ => grows_of_reads (reads_pure _)
  rw [onPath]
  cases fspath (getBucketPath c b) with
  | none => exact grows_of_reads (reads_raise _)
  | some es => exact grows_makeDirs es

section Put
variable {F : Type} [PyFloat F] [Json.LawfulPyFloat F]

omit [Host] in
theorem onPath_components {α : Type} {q : Path} {es : List (Comp Name)} {f : List (Comp Name) → Io α}
    (hq : fspath q = some es) : onPath q f = f es := by rw [onPath, hq]

/-- The end of a put, once the object is written. -/
def writeRecord (metadataPath : Path) (record : Json F) (etag : Str) : Io (Option Str) := do
  onPath metadataPath fun cs => FileM.write cs []
  let text ← ofExcept (Json.dumpsIndent record)
  let bytes ← ofExcept (utf8Encode text)
  onPath metadataPath fun cs => FileM.write cs bytes
  pure (some etag)

section Record
variable {q : Path} {es : List (Comp Name)} {record : Json F}

omit [Host] in
/-- The metadata file is emptied first, but what is then written to it cannot fail. -/
theorem writeRecord_ok (etag : Str) (hq : fspath q = some es) (hfit : Json.intsFit record = true)
    (hl : locate t es = .ok (norm es)) (hd : t.isDir (norm es) = false) :
    ∃ t' bytes, Runs (writeRecord q record etag) t (.ok (some etag)) t' ∧ Filled t t' (norm es) bytes := by
  obtain ⟨t₁, hempty, hfilled⟩ := write_ok (X := PyError) (d := []) hl hd
  have hfile : t₁.isDir (norm es) = false := by
    rw [Tree.isDir, hfilled.same]
    rfl
  obtain ⟨t₂, hwrite, hagain⟩ := write_ok (X := PyError) (hfilled.keepsDirs.locate hl) hfile
  refine ⟨t₂, (Json.indented 0 record).flatMap encodePoint, ?_, hfilled.again hagain⟩
  have hdumps : Json.dumpsIndent record = .ok (Json.indented 0 record) := by rw [Json.dumpsIndent, if_pos hfit]
  have hencode := utf8Encode_ascii (Json.ascii_indented record 0)
  rw [writeRecord, onPath_components hq, hdumps]
  refine hempty.bind ((runs_pure _ t₁).bind ?_)
  rw [hencode]
  refine (runs_pure _ t₁).bind ?_
  rw [onPath_components hq]
  exact hwrite.bind (runs_pure _ t₂)

omit [Host] in
theorem runs_writeRecord {etag : Str} (hq : fspath q = some es) (hfit : Json.intsFit record = true)
    {w : Except (Fault PyError) (Option Str)} (h : Runs (writeRecord q record etag) t w t') :
    (w = .ok (some etag) ∧ ∃ bytes, Filled t t' (norm es) bytes) ∨ (∃ e, w = .error e) ∧ t' = t := by
  have hrun := h
  rw [writeRecord, onPath_components hq] at hrun
  rcases hrun.of_bind with ⟨⟨⟩, t₁, hempty, -⟩ | ⟨e, rfl, hempty⟩
  · rcases runs_write hempty with ⟨-, hl, hfilled⟩ | ⟨⟨e, he⟩, -⟩
    · obtain ⟨t₂, bytes, hall, hwritten⟩ := writeRecord_ok etag hq hfit hl hfilled.free
      obtain ⟨rfl, rfl⟩ := h.unique hall
      exact Or.inl ⟨rfl, bytes, hwritten⟩
    · cases he
  · rcases runs_write hempty with ⟨he, -⟩ | ⟨-, rfl⟩
    · cases he
    · exact Or.inr ⟨⟨e, rfl⟩, rfl⟩

end Record

omit [PyFloat F] [Json.LawfulPyFloat F] in
theorem accepts_of_free (h : ObjectFiles c b k p cs ms) {t₁ : Files} (hg : Grown (createBucket c b t).tree t₁)
    (hl : locate t₁ cs = .ok (norm cs)) (hobject : t₁.isDir (norm cs) = false) (hmeta : t₁.isDir (norm ms) = false) :
    Accepts c t b k := by
  have hpass : ∀ l, Passes cs.dropLast l → t₁.isDir l = true := by
    rcases List.eq_nil_or_concat cs with rfl | ⟨ds, d, rfl⟩
    · rw [norm_nil, Tree.isDir, Tree.lookup_root] at hobject
      cases hobject
    · rw [List.concat_eq_append] at hl ⊢
      rw [List.dropLast_concat]
      exact dirs_of_locate hl
  have hnot : ∀ l, t₁.isDir l = false → (createBucket c b t).tree.isDir l = false := by
    intro l hfree
    rw [Bool.eq_false_iff]
    intro hdir
    rw [hg.keepsDirs l hdir] at hfree
    cases hfree
  refine ⟨p, cs, h.path, h.object, ?_, ?_, ?_⟩
  · intro l hpl
    have hdir := hpass l hpl
    refine ⟨?_, ?_, ?_⟩
    · intro d hd
      have hgrown := Grown.trans _ _ _ (grows_createBucket c b t) hg
      rw [Tree.isDir, hgrown.keeps hd] at hdir
      cases hdir
    · rw [h.objectPlace_eq]
      rintro rfl
      rw [hobject] at hdir
      cases hdir
    · rw [h.metadataPlace_eq]
      rintro rfl
      rw [hmeta] at hdir
      cases hdir
  · rw [h.objectPlace_eq]
    exact hnot _ hobject
  · rw [h.metadataPlace_eq]
    exact hnot _ hmeta

/-- A put that answers with an etag has written both files; one that does not has written the object or nothing. -/
theorem putObject_outcome {data : Bytes} {contentType metadata : Json F} {now : DateTime.Instant}
    (hfit : Json.intsFit (metaRecord k data contentType metadata now) = true) {v : Option Str}
    (h : Runs (putObject c b k data contentType metadata now) t (.ok v) t') :
    (v = some (Host.md5 data) ∧ Stored c b k data t t' ∧ Accepts c t b k) ∨ v = none ∧ HalfStored c b k data t t' := by
  obtain ⟨w, hbody, hw⟩ := runs_handleError_of h
  have hfailed : (∃ e, w = .error e) → v = none := by
    rintro ⟨e, rfl⟩
    rcases hw with hw | ⟨hv, -⟩
    · cases hw
    · exact hv
  rcases hbody.of_bind with ⟨made, tb, hbucket, hrest⟩ | ⟨e, -, hbucket⟩
  swap
  · obtain ⟨a, ha⟩ := runs_createBucket c b t
    exact nomatch (ha.unique hbucket).1
  obtain rfl := hbucket.2
  have hgb := grows_createBucket c b t
  rcases hrest.of_bind with ⟨p, tp, hpath, hrest⟩ | ⟨e, he, hpath⟩
  swap
  · obtain rfl := hpath.2.symm.trans (reads_ofExcept _ _).symm
    exact Or.inr ⟨hfailed ⟨e, he⟩, _, hgb, Or.inl rfl⟩
  obtain ⟨hp, rfl⟩ := runs_ofExcept hpath
  obtain ⟨cs, ms, hfiles⟩ := objectFiles_of_ok hp
  have hparent := fspath_parent hfiles.object
  simp only [onPath_components hparent, onPath_components hfiles.object] at hrest
  rcases hrest.of_bind with ⟨⟨⟩, t₁, hdirs, hrest⟩ | ⟨e, he, hdirs⟩
  swap
  · obtain rfl := hdirs.2
    exact Or.inr ⟨hfailed ⟨e, he⟩, _, Grown.trans _ _ _ hgb (grows_makeDirs _ _), Or.inl rfl⟩
  obtain rfl := hdirs.2
  have hg := grows_makeDirs (X := PyError) cs.dropLast (createBucket c b t).tree
  rcases hrest.of_bind with ⟨⟨⟩, t₂, hobject, hrest⟩ | ⟨e, he, hobject⟩
  swap
  · rcases runs_write hobject with ⟨hok, -⟩ | ⟨-, rfl⟩
    · cases hok
    · exact Or.inr ⟨hfailed ⟨e, he⟩, _, Grown.trans _ _ _ hgb hg, Or.inl rfl⟩
  rcases runs_write hobject with ⟨-, hl, hwritten⟩ | ⟨⟨e, he⟩, -⟩
  swap
  · cases he
  rcases runs_writeRecord hfiles.metadata hfit hrest with ⟨rfl, bytes, hrecord⟩ | ⟨hfail, rfl⟩
  · have hv : v = some (Host.md5 data) := by
      rcases hw with hw | ⟨-, e, he⟩
      · exact (Except.ok.inj hw).symm
      · cases he
    have hmeta : ((FileM.makeDirs cs.dropLast : Io Unit) (createBucket c b t).tree).tree.isDir (norm ms) = false := by
      rw [Tree.isDir, ← hwritten.other hfiles.ne]
      exact hrecord.free
    exact Or.inl ⟨hv, ⟨p, cs, ms, _, t₂, bytes, hfiles, Grown.trans _ _ _ hgb hg, hl, hwritten, hrecord⟩,
      accepts_of_free hfiles hg hl hwritten.free hmeta⟩
  · refine Or.inr ⟨hfailed hfail, _, Grown.trans _ _ _ hgb hg, Or.inr ?_⟩
    rw [hfiles.objectPlace_eq]
    exact hwritten

/-- Where an object can be stored, a put stores it. -/
theorem putObject_of_accepts {data : Bytes} {contentType metadata : Json F} {now : DateTime.Instant}
    (hfit : Json.intsFit (metaRecord k data contentType metadata now) = true) (ha : Accepts c t b k) :
    (putObject c b k data contentType metadata now t).value = .ok (some (Host.md5 data)) := by
  obtain ⟨p, cs, hp, hcs, hpass, hobject, hmeta⟩ := ha
  obtain ⟨es, ms, hfiles⟩ := objectFiles_of_ok hp
  obtain rfl : es = cs := Option.some.inj (hfiles.object.symm.trans hcs)
  rw [hfiles.objectPlace_eq] at hpass hobject
  rw [hfiles.metadataPlace_eq] at hpass hmeta
  rcases List.eq_nil_or_concat es with rfl | ⟨ds, d, rfl⟩
  · exact absurd rfl (hpass [] (passes_self [])).2.1
  rw [List.concat_eq_append] at hfiles hobject hpass
  rw [List.dropLast_concat] at hpass
  have hgb := grows_createBucket c b t
  have hspec := makeDirs_spec (X := PyError) (p := ds) (t := (createBucket c b t).tree) fun l hl d hd =>
    (hpass l hl).1 d (hgb.file_iff.mp hd)
  generalize htb : (createBucket c b t).tree = tb at *
  have hdirs : Runs (FileM.makeDirs ds : Io Unit) tb (.ok ()) ((FileM.makeDirs ds : Io Unit) tb).tree := ⟨hspec.1, rfl⟩
  generalize ((FileM.makeDirs ds : Io Unit) tb).tree = t₁ at *
  have hl : locate t₁ (ds ++ [d]) = .ok (norm (ds ++ [d])) :=
    locate_of_dirs fun l hpl => Tree.isDir_iff.mpr ((hspec.2 l).1 hpl)
  have hfree : ∀ l, (Passes ds l → False) → tb.isDir l = false → t₁.isDir l = false := by
    intro l hpl hdir
    rw [Tree.isDir, (hspec.2 l).2 hpl]
    exact hdir
  obtain ⟨t₂, hwrite, hfilled⟩ := write_ok (X := PyError) (d := data) hl
    (hfree _ (fun hpl => (hpass _ hpl).2.1 rfl) hobject)
  have hmeta₂ : t₂.isDir (norm ms) = false := by
    rw [Tree.isDir, hfilled.other hfiles.ne]
    exact hfree _ (fun hpl => (hpass _ hpl).2.2 rfl) hmeta
  obtain ⟨t₃, bytes, hrecord, -⟩ := writeRecord_ok (Host.md5 data) hfiles.metadata hfit
    (hfiles.locate_metadata (hfilled.keepsDirs.locate hl)) hmeta₂
  obtain ⟨a, hbucket⟩ := runs_createBucket c b t
  rw [htb] at hbucket
  have hparent : fspath (parent p) = some ds := by rw [fspath_parent hfiles.object, List.dropLast_concat]
  have hput : Runs (putObject c b k data contentType metadata now) t (.ok (some (Host.md5 data))) t₃ := by
    refine runs_handleError (hbucket.bind ((runs_of_eq (ofExcept_objectPath hp tb)).bind ?_))
    simp only [onPath_components hparent, onPath_components hfiles.object]
    exact hdirs.bind (hwrite.bind hrecord)
  exact hput.1

end Put

/-! ## Deleting -/

omit [Host] in
theorem removeIfExists_outcome {q : Path} {es : List (Comp Name)} (hq : fspath q = some es)
    (hl : locate t es = .ok (norm es)) :
    (∃ t', Runs (removeIfExists q) t (.ok ()) t' ∧ Erased t t' (norm es)) ∨
      (∀ d, t.lookup (norm es) ≠ some (.file d)) ∧ ∃ v, Runs (removeIfExists q) t v t := by
  have hex := runs_of_eq (pathExists_reached hq hl)
  cases hnode : t.lookup (norm es) with
  | none =>
    rw [hnode] at hex
    refine Or.inr ⟨?_, .ok (), hex.bind (runs_pure () t)⟩
    exact fun d hd => nomatch hd
  | some node =>
    cases node with
    | dir =>
      have hdir := runs_of_eq (removeIfExists_dir hq hl (Tree.isDir_iff.mpr hnode))
      refine Or.inr ⟨?_, _, hdir⟩
      exact fun d hd => nomatch hd
    | file d =>
      rw [hnode] at hex
      obtain ⟨t', hunlink, herased⟩ := unlink_ok (X := PyError) hl hnode
      refine Or.inl ⟨t', hex.bind ?_, herased⟩
      rw [Option.isSome_some, if_pos rfl, onPath_components hq]
      exact hunlink

/-- The object is taken away and then its metadata, unless that is no file. -/
theorem deleteObject_file (h : ObjectFiles c b k p cs ms) (hl : locate t cs = .ok (norm cs)) {data : Bytes}
    (hf : t.lookup (norm cs) = some (.file data)) :
    ∃ t₁ t₂ a, Runs (deleteObject c b k) t (.ok a) t₂ ∧ Erased t t₁ (norm cs) ∧
      (Erased t₁ t₂ (norm ms) ∨ (∀ d, t₁.lookup (norm ms) ≠ some (.file d)) ∧ t₂ = t₁) := by
  have hpath := runs_of_eq (ofExcept_objectPath h.path t)
  rcases removeIfExists_outcome h.object hl with ⟨t₁, hobject, herased⟩ | ⟨hno, -⟩
  · have hlm := h.locate_metadata (herased.keepsDirs.locate hl)
    rcases removeIfExists_outcome h.metadata hlm with ⟨t₂, hmeta, herased'⟩ | ⟨hno, v, hmeta⟩
    · refine ⟨t₁, t₂, some true, ?_, herased, Or.inl herased'⟩
      exact runs_handleError (hpath.bind (hobject.bind (hmeta.bind (runs_pure _ t₂))))
    · cases v with
      | ok u =>
        refine ⟨t₁, t₁, some true, ?_, herased, Or.inr ⟨hno, rfl⟩⟩
        exact runs_handleError (hpath.bind (hobject.bind (hmeta.bind (runs_pure _ t₁))))
      | error e =>
        refine ⟨t₁, t₁, none, ?_, herased, Or.inr ⟨hno, rfl⟩⟩
        exact runs_handleError_raised (hpath.bind (hobject.bind hmeta.bind_error))
  · exact absurd hf (hno data)

/-! ## What a copy writes as metadata -/

section Info
variable {F : Type} [PyFloat F]

omit [Host] [PyFloat F] in
theorem mem_of_get {m : Members F} {key : Str} {v : Json F} (h : Members.get m key = some v) : (key, v) ∈ m := by
  induction m with
  | nil => cases h
  | cons kv m ih =>
    obtain ⟨k', v'⟩ := kv
    rw [Members.get] at h
    split at h
    · rename_i hk
      cases h
      rw [hk]
      exact List.mem_cons_self
    · exact List.mem_cons_of_mem _ (ih h)

omit [Host] [PyFloat F] in
theorem intsFit_get {m : Members F} (h : Json.intsFit (.obj m) = true) {key : Str} {fallback : Json F}
    (hf : Json.intsFit fallback = true) : Json.intsFit ((Members.get m key).getD fallback) = true := by
  cases hg : Members.get m key with
  | none => exact hf
  | some v => exact Json.intsFitMembers_iff.mp h _ (mem_of_get hg)

theorem intsFit_metaRecord {key : Str} {data : Bytes} {contentType metadata : Json F} {now : DateTime.Instant}
    (hsize : data.length < 2 ^ 63) (ht : Json.intsFit contentType = true) (hm : Json.intsFit metadata = true) :
    Json.intsFit (metaRecord key data contentType metadata now) = true := by
  have hlen : (natText data.length).length ≤ Json.intMaxStrDigits := by
    have hlt : data.length < 10 ^ 20 := Nat.lt_of_lt_of_le hsize (by decide)
    exact (Json.natText_length_le hlt (by decide)).trans (by decide)
  have htype : Json.intsFit (storedType contentType key) = true := by
    rw [storedType]
    split
    · exact ht
    · rfl
  have hmeta : Json.intsFit (if metadata.truthy then metadata else .obj []) = true := by
    split
    · exact hm
    · rfl
  refine Json.intsFitMembers_iff.mpr ?_
  intro kv hkv
  simp only [List.mem_cons, List.not_mem_nil, or_false] at hkv
  rcases hkv with rfl | rfl | rfl | rfl | rfl
  · exact htype
  · exact decide_eq_true hlen
  · rfl
  · rfl
  · exact hmeta

/-- Whatever the metadata file holds, what was read from it can be written again. -/
theorem intsFit_readRecord {q q' : Path} {record : Json F} (h : Runs (readRecord k q q') t (.ok record) t') :
    Json.intsFit record = true ∨ ∃ t₁ l node, record = basicRecord k t₁ l node := by
  obtain ⟨found, t₁, -, hrest⟩ := h.of_bind_ok
  cases found with
  | true =>
    obtain ⟨content, t₂, -, hrest⟩ := hrest.of_bind_ok
    obtain ⟨s, t₃, htext, hload⟩ := hrest.of_bind_ok
    obtain ⟨hs, -⟩ := runs_ofExcept htext
    obtain ⟨hj, -⟩ := runs_ofExcept hload
    exact Or.inl (Json.intsFit_of_wf record (Json.loads_bounded hj (readText_plain hs)).1)
  | false =>
    obtain ⟨es, -, hstat⟩ := runs_onPath hrest
    have hbody : Runs ((FileM.stat es : Io _) >>= fun r => pure (basicRecord k t₁ r.1 r.2)) t₁ (.ok record) t' := hstat
    obtain ⟨r, t₂, -, hpure⟩ := hbody.of_bind_ok
    cases hpure.1
    exact Or.inr ⟨t₁, r.1, r.2, rfl⟩

theorem intsFit_info {info : ObjectInfo F} (h : Runs (getObjectInfo c b k) t (.ok (some info)) t') :
    Json.intsFit info.contentType = true ∧ Json.intsFit info.metadata = true := by
  obtain ⟨w, hbody, rfl | ⟨hnone, -⟩⟩ := runs_handleError_of h
  swap
  · cases hnone
  obtain ⟨q, t₁, -, hrest⟩ := hbody.of_bind_ok
  obtain ⟨found, t₂, -, hrest⟩ := hrest.of_bind_ok
  cases found with
  | false => exact nomatch hrest.1
  | true =>
    obtain ⟨record, t₃, hrecord, hrest⟩ := hrest.of_bind_ok
    obtain ⟨info', t₄, hinfo, hpure⟩ := hrest.of_bind_ok
    obtain ⟨hinfo, -⟩ := runs_ofExcept hinfo
    cases hpure.1
    rcases intsFit_readRecord hrecord with hfit | ⟨t₅, l, node, rfl⟩
    · cases record with
      | obj m =>
        cases hinfo
        exact ⟨intsFit_get hfit rfl, intsFit_get hfit rfl⟩
      | null | bool _ | int _ | float _ | str _ | arr _ => cases hinfo
    · cases hinfo
      exact ⟨rfl, rfl⟩

end Info

end Files

end IsaCloud.Storage
