import IsaCloud.Storage.Containment

/-!
# When no operation leaves the user's directory

For every set of bucket and object names: all operations that use only those
names stay inside the directory of the user exactly when each name is safe. An
unsafe name is seen to escape in a tree that holds little more than the base
path.
-/

namespace IsaCloud.Storage

set_option autoImplicit false

open Support Support.Text Support.Python Support.Encoding Support.FileTree Support.PosixPath

section Users
variable [Host] [ScanOrder Name Bytes] {F : Type} [PyFloat F]

inductive Op (F : Type) where
  | createBucket (bucketName : Str)
  | deleteBucket (bucketName : Str)
  | putObject (bucketName key : Str) (data : Bytes) (contentType metadata : Json F) (now : DateTime.Instant)
  | getObject (bucketName key : Str)
  | deleteObject (bucketName key : Str)
  | listObjects (bucketName keyPrefix : Str) (limit : Int)
  | copyObject (sourceBucket sourceKey destBucket destKey : Str) (now : DateTime.Instant)
  | moveObject (sourceBucket sourceKey destBucket destKey : Str) (now : DateTime.Instant)

/-- A bucket name, alone or with a key. -/
abbrev StorageName := Str × Option Str

def Op.names : Op F → List StorageName
  | .createBucket b | .deleteBucket b | .listObjects b _ _ => [(b, none)]
  | .putObject b k _ _ _ _ | .getObject b k | .deleteObject b k => [(b, some k)]
  | .copyObject sb sk db dk _ | .moveObject sb sk db dk _ => [(sb, some sk), (db, some dk)]

def Op.touched (c : Client) (op : Op F) (t : Files) : List (Loc Name) :=
  match op with
  | .createBucket b => (Storage.createBucket c b t).touched
  | .deleteBucket b => (Storage.deleteBucket c b t).touched
  | .putObject b k data ct md now => (Storage.putObject c b k data ct md now t).touched
  | .getObject b k => (Storage.getObject c b k t).touched
  | .deleteObject b k => (Storage.deleteObject c b k t).touched
  | .listObjects b pre limit => (Storage.listObjects (F := F) c b pre limit t).touched
  | .copyObject sb sk db dk now => (Storage.copyObject (F := F) c sb sk db dk now t).touched
  | .moveObject sb sk db dk now => (Storage.moveObject (F := F) c sb sk db dk now t).touched

def SafeName (c : Client) : StorageName → Prop
  | (b, none) => SafeBucket c b
  | (b, some k) => SafeObject c b k

theorem touched_inside {c : Client} (op : Op F) (h : ∀ x ∈ op.names, SafeName c x) {t : Files}
    (ht : t.isDir c.baseLoc = true) : ∀ l ∈ op.touched c t, Inside c l := by
  cases op with
  | createBucket b =>
    have hb : SafeBucket c b := h (b, none) (List.mem_singleton_self _)
    exact (stays_createBucket (fun cs hcs => (hb cs hcs).1) t ht).2
  | deleteBucket b => exact (stays_deleteBucket (h (b, none) (List.mem_singleton_self _)) t ht).2
  | putObject b k data ct md now =>
    exact (stays_putObject (h (b, some k) (List.mem_singleton_self _)) data ct md now t ht).2
  | getObject b k => exact (stays_getObject (h (b, some k) (List.mem_singleton_self _)) t ht).2
  | deleteObject b k => exact (stays_deleteObject (h (b, some k) (List.mem_singleton_self _)) t ht).2
  | listObjects b pre limit =>
    exact (stays_listObjects (h (b, none) (List.mem_singleton_self _)) pre limit t ht).2
  | copyObject sb sk db dk now =>
    have hs : SafeObject c sb sk := h (sb, some sk) (by simp [Op.names])
    have hd : SafeObject c db dk := h (db, some dk) (by simp [Op.names])
    exact (stays_copyObject hs hd now t ht).2
  | moveObject sb sk db dk now =>
    have hs : SafeObject c sb sk := h (sb, some sk) (by simp [Op.names])
    have hd : SafeObject c db dk := h (db, some dk) (by simp [Op.names])
    exact (stays_moveObject hs hd now t ht).2

/-! ## Unsafe names escape -/

section Escape
variable {c : Client} {b k : Str}

/-- The operation touches something outside in a tree with the base path. -/
def Escapes (c : Client) (op : Op F) : Prop :=
  ∃ t : Files, t.isDir c.baseLoc = true ∧ ∃ l ∈ op.touched c t, ¬ Inside c l

omit [ScanOrder Name Bytes] in
theorem not_made {cs : List (Comp Name)} (h : ¬ Made c cs) :
    ∃ l, Passes cs l ∧ ¬ Inside c l ∧ ¬ l <+: c.baseLoc := by
  rw [Made] at h
  push Not at h
  exact h

/-- The tree that only holds the base path. -/
def bare (c : Client) : Files := Tree.single c.baseLoc

omit [ScanOrder Name Bytes] in
theorem createBucket_escapes {cs : List (Comp Name)} (hcs : fspath (getBucketPath c b) = some cs)
    (h : ¬ Made c cs) : ∃ l ∈ (createBucket c b (bare c)).touched, ¬ Inside c l := by
  obtain ⟨l, hp, hin, hb⟩ := not_made h
  refine ⟨l, ?_, hin⟩
  refine touched_handle (touched_bind ?_)
  rw [onPath, hcs]
  exact touched_makeDirs (fun l _ d => Tree.single_no_file _ l d) hp ((Tree.lookup_single _ _).2 hb)

omit [ScanOrder Name Bytes] in
/-- After the bucket's directories were made in the bare tree. -/
theorem createBucket_bare {cs : List (Comp Name)} (hcs : fspath (getBucketPath c b) = some cs) :
    ∃ t ls, createBucket c b (bare c) = ⟨.ok (some true), t, ls⟩ ∧
      ∀ l, (Passes cs l → t.lookup l = some .dir) ∧ (¬ Passes cs l → t.lookup l = (bare c).lookup l) := by
  have hspec := makeDirs_spec (X := PyError) (p := cs) (t := bare c) fun l _ d => Tree.single_no_file _ l d
  have hon : onPath (getBucketPath c b) (FileM.makeDirs : _ → Io Unit) (bare c) =
      ⟨.ok (), ((FileM.makeDirs cs : Io Unit) (bare c)).tree, ((FileM.makeDirs cs : Io Unit) (bare c)).touched⟩ := by
    rw [onPath, hcs, ← hspec.1]
  have hrun := FileM.bind_ok (f := fun _ => (pure (some true) : Io (Option Bool))) hon
  exact ⟨_, _, handleError_ok hrun, hspec.2⟩

theorem bucket_escapes (h : ¬ SafeBucket c b) : ∃ op : Op F, (∀ x ∈ op.names, x = (b, none)) ∧ Escapes c op := by
  rw [SafeBucket] at h
  push Not at h
  obtain ⟨cs, hcs, h⟩ := h
  by_cases hmade : Made c cs
  · -- the bucket can be made, and lies outside: its entries are listed
    refine ⟨.deleteBucket b, fun x hx => List.mem_singleton.mp hx, ?_⟩
    obtain ⟨t, ls, hct, hlook⟩ := createBucket_bare hcs
    have hdirs : ∀ l, Passes cs l → t.isDir l = true := fun l hl => Tree.isDir_iff.mpr ((hlook l).1 hl)
    have hloc : locate t cs = .ok (norm cs) := by
      rcases List.eq_nil_or_concat cs with rfl | ⟨ds, d, rfl⟩
      · rfl
      · rw [List.concat_eq_append] at hdirs ⊢
        exact locate_of_dirs fun l hl => hdirs l (passes_concat.mpr (Or.inl hl))
    have hself := (hlook _).1 (passes_self cs)
    refine ⟨t, ?_, norm cs, ?_, h hmade⟩
    · by_cases hp : Passes cs c.baseLoc
      · exact hdirs _ hp
      · rw [Tree.isDir, (hlook _).2 hp]
        exact Tree.isDir_single c.baseLoc
    · have hex := pathExists_reached hcs hloc
      rw [hself] at hex
      show norm cs ∈ (deleteBucket c b t).touched
      refine touched_handle ?_
      rw [FileM.bind_ok hex]
      refine List.mem_append_right _ (touched_bind ?_)
      rw [onPath, hcs]
      simp only [FileM.scandir, FileM.call, hloc, hself, List.mem_singleton]
  · obtain ⟨l, hl, hin⟩ := createBucket_escapes hcs hmade
    exact ⟨.createBucket b, fun x hx => List.mem_singleton.mp hx, bare c, Tree.isDir_single _, l, hl, hin⟩

omit [Host] [ScanOrder Name Bytes] in
/-- The directories above a path, made in the bare tree. -/
theorem makeDirs_bare (c : Client) (cs : List (Comp Name)) :
    ∃ t : Files, t.isDir c.baseLoc = true ∧
      ∀ l, (Passes cs l → t.lookup l = some .dir) ∧ (¬ Passes cs l → t.lookup l = (bare c).lookup l) := by
  have hspec := makeDirs_spec (X := PyError) (p := cs) (t := bare c) fun l _ d => Tree.single_no_file _ l d
  refine ⟨_, ?_, hspec.2⟩
  by_cases hp : Passes cs c.baseLoc
  · exact Tree.isDir_iff.mpr ((hspec.2 _).1 hp)
  · rw [Tree.isDir, (hspec.2 _).2 hp]
    exact Tree.isDir_single c.baseLoc

omit [Host] [ScanOrder Name Bytes] in
/-- A file in a directory of the tree that was not there before. -/
theorem withFile {t : Files} {ds : List (Comp Name)} {d : Comp Name} (hdirs : ∀ l, Passes ds l → t.lookup l = some .dir)
    (hn : t.lookup (norm (ds ++ [d])) = none) :
    ∃ t' : Files, (∀ l, t'.lookup l = if l = norm (ds ++ [d]) then some (.file []) else t.lookup l) ∧
      ∀ e, locate t' (ds ++ [e]) = .ok (norm (ds ++ [e])) := by
  have hloc : locate t (ds ++ [d]) = .ok (norm (ds ++ [d])) :=
    locate_of_dirs fun l hl => Tree.isDir_iff.mpr (hdirs l hl)
  have hlook := Tree.lookup_store (storable_of_locate hloc hn (.file []))
  refine ⟨_, hlook, ?_⟩
  intro e
  refine locate_of_dirs fun l hl => ?_
  have hne : l ≠ norm (ds ++ [d]) := by
    intro heq
    rw [heq] at hl
    rw [hdirs _ hl] at hn
    cases hn
  rw [Tree.isDir_iff, hlook, if_neg hne]
  exact hdirs l hl

omit [Host] [ScanOrder Name Bytes] in
theorem removeIfExists_file {p : Path} {cs : List (Comp Name)} {t : Files} (hp : fspath p = some cs)
    (hl : locate t cs = .ok (norm cs)) {data : Bytes} (hf : t.lookup (norm cs) = some (.file data)) :
    norm cs ∈ (removeIfExists p t).touched := by
  have hex := pathExists_reached hp hl
  rw [hf] at hex
  rw [removeIfExists, FileM.bind_ok hex, onPath, hp]
  simp only [Option.isSome_some, FileM.unlink, FileM.call, hl, hf, dif_pos (children_file hf), if_true, List.nil_append,
    List.mem_singleton]

section Object
variable {p : Path} {cs : List (Comp Name)} {ds : List (Comp Name)} {d : Comp Name}

omit [ScanOrder Name Bytes] in
theorem ofExcept_objectPath (hp : getObjectPath c b k = .ok p) (t : Files) :
    ofExcept (getObjectPath c b k) t = ⟨.ok p, t, []⟩ := by
  rw [hp]
  rfl

/-- A directory made on the way to the object lies outside. -/
theorem putObject_escapes (hbucket : ∀ bs, fspath (getBucketPath c b) = some bs → Made c bs)
    (hp : getObjectPath c b k = .ok p) (hcs : fspath p = some cs) (hmade : ¬ Made c cs.dropLast) :
    Escapes c (.putObject b k [] .null .null 0 : Op F) := by
  obtain ⟨l, hpass, hin, hbase⟩ := not_made hmade
  obtain ⟨_, bs, _, hbs, _, _⟩ := getObjectPath_ok hp
  obtain ⟨t, ls, hct, hlook⟩ := createBucket_bare hbs
  have hnone : t.lookup l = none := by
    have hb : ¬ Passes bs l := by
      intro hbl
      rcases hbucket bs hbs l hbl with h | h
      · exact hin h
      · exact hbase h
    rw [(hlook l).2 hb]
    exact (Tree.lookup_single _ _).2 hbase
  have hfree : ∀ m, Passes cs.dropLast m → ∀ d, t.lookup m ≠ some (.file d) := by
    intro m _ d
    by_cases hb : Passes bs m
    · rw [(hlook m).1 hb]
      exact fun h => nomatch h
    · rw [(hlook m).2 hb]
      exact Tree.single_no_file _ m d
  refine ⟨bare c, Tree.isDir_single _, l, ?_, hin⟩
  refine touched_handle ?_
  rw [FileM.bind_ok hct]
  refine List.mem_append_right _ ?_
  rw [FileM.bind_ok (ofExcept_objectPath hp t)]
  refine List.mem_append_right _ (touched_bind ?_)
  rw [onPath, fspath_parent hcs]
  exact touched_makeDirs hfree hpass hnone

omit [Host] [ScanOrder Name Bytes] in
/-- A file put where nothing was leaves the base directory as it was. -/
theorem isDir_base_withFile {t t' : Files} {l : Loc Name} (hbase : t.isDir c.baseLoc = true)
    (hlook : ∀ m, t'.lookup m = if m = l then some (.file []) else t.lookup m) (hnone : t.lookup l = none) :
    t'.isDir c.baseLoc = true := by
  have hne : c.baseLoc ≠ l := by
    intro heq
    rw [← heq, Tree.isDir_iff.mp hbase] at hnone
    cases hnone
  rw [Tree.isDir, hlook, if_neg hne]
  exact hbase

/-- The object itself lies outside. -/
theorem deleteObject_escapes (hp : getObjectPath c b k = .ok p) (hcs : fspath p = some (ds ++ [d]))
    (hocc : ¬ Occupied c (ds ++ [d])) (hin : ¬ Inside c (norm (ds ++ [d]))) :
    Escapes c (.deleteObject b k : Op F) := by
  rw [Occupied, not_or, List.dropLast_concat] at hocc
  obtain ⟨t, hbase, hlook⟩ := makeDirs_bare c ds
  have hnone : t.lookup (norm (ds ++ [d])) = none :=
    ((hlook _).2 hocc.2).trans ((Tree.lookup_single _ _).2 hocc.1)
  obtain ⟨t', hlook', hloc'⟩ := withFile (fun l hl => (hlook l).1 hl) hnone
  refine ⟨t', isDir_base_withFile hbase hlook' hnone, norm (ds ++ [d]), ?_, hin⟩
  refine touched_handle ?_
  rw [FileM.bind_ok (ofExcept_objectPath hp t')]
  refine List.mem_append_right _ (touched_bind ?_)
  exact removeIfExists_file hcs (hloc' d) ((hlook' _).trans (if_pos rfl))

omit [ScanOrder Name Bytes] in
/-- A file beside one below the base directory is not above that directory. -/
theorem not_prefix_base_beside {n : Name} (hocc : ¬ Passes ds (norm (ds ++ [d])))
    (hin : Inside c (norm (ds ++ [d]))) :
    ¬ norm (ds ++ [.name n]) <+: c.baseLoc := by
  intro hle
  obtain ⟨u, _, hu⟩ := hin
  have h1 := hu.length_le
  have h2 := hle.length_le
  cases d with
  | up =>
    refine hocc (passes_above ?_)
    rw [norm_concat]
    exact List.dropLast_prefix _
  | name m =>
    rw [norm_concat, enter, List.length_append, List.length_singleton] at h1 h2
    rw [List.length_append, List.length_singleton] at h1
    omega

/-- The object lies inside, but its metadata file does not. -/
theorem deleteMetadata_escapes {n : Name} (hp : getObjectPath c b k = .ok p) (hcs : fspath p = some (ds ++ [d]))
    (hmade : Made c ds) (hocc : ¬ Occupied c (ds ++ [d])) (hin : Inside c (norm (ds ++ [d])))
    (hms : fspath (getMetadataPath p) = some (ds ++ [.name n])) (hmout : ¬ Inside c (norm (ds ++ [.name n]))) :
    Escapes c (.deleteObject b k : Op F) := by
  rw [Occupied, not_or, List.dropLast_concat] at hocc
  obtain ⟨t, hbase, hlook⟩ := makeDirs_bare c ds
  have hnone : t.lookup (norm (ds ++ [d])) = none :=
    ((hlook _).2 hocc.2).trans ((Tree.lookup_single _ _).2 hocc.1)
  have hmnone : t.lookup (norm (ds ++ [.name n])) = none := by
    have hmbase := not_prefix_base_beside (n := n) hocc.2 hin
    have hpass : ¬ Passes ds (norm (ds ++ [.name n])) := by
      intro hpass
      rcases hmade _ hpass with h | h
      · exact hmout h
      · exact hmbase h
    exact ((hlook _).2 hpass).trans ((Tree.lookup_single _ _).2 hmbase)
  obtain ⟨t', hlook', hloc'⟩ := withFile (fun l hl => (hlook l).1 hl) hmnone
  refine ⟨t', isDir_base_withFile hbase hlook' hmnone, norm (ds ++ [.name n]), ?_, hmout⟩
  have hne : FileTree.norm (ds ++ [d]) ≠ FileTree.norm (ds ++ [.name n]) := fun heq => hmout (heq ▸ hin)
  have habs : removeIfExists p t' = ⟨.ok (), t', []⟩ := by
    have hex := pathExists_reached hcs (hloc' d)
    rw [hlook', if_neg hne, hnone] at hex
    exact removeIfExists_missing hex
  refine touched_handle ?_
  rw [FileM.bind_ok (ofExcept_objectPath hp t'), FileM.bind_ok habs]
  refine List.mem_append_right _ (List.mem_append_right _ (touched_bind ?_))
  exact removeIfExists_file hms (hloc' _) ((hlook' _).trans (if_pos rfl))

theorem object_escapes (h : ¬ SafeObject c b k) :
    ∃ op : Op F, (∀ x ∈ op.names, x = (b, some k)) ∧ Escapes c op := by
  by_cases hbucket : ∀ cs, fspath (getBucketPath c b) = some cs → Made c cs
  swap
  · push Not at hbucket
    obtain ⟨cs, hcs, hmade⟩ := hbucket
    obtain ⟨l, hl, hin⟩ := createBucket_escapes hcs hmade
    refine ⟨.putObject b k [] .null .null 0, fun x hx => List.mem_singleton.mp hx, bare c,
      Tree.isDir_single _, l, ?_, hin⟩
    exact touched_handle (touched_bind hl)
  have hobj : ¬ ∀ objectPath cs, getObjectPath c b k = .ok objectPath → fspath objectPath = some cs →
      Made c cs.dropLast ∧ (Occupied c cs ∨ SafeFiles c objectPath cs) := fun hall => h ⟨hbucket, hall⟩
  push Not at hobj
  obtain ⟨p, cs, hp, hcs, hunsafe⟩ := hobj
  by_cases hmade : Made c cs.dropLast
  swap
  · exact ⟨.putObject b k [] .null .null 0, fun x hx => List.mem_singleton.mp hx,
      putObject_escapes hbucket hp hcs hmade⟩
  obtain ⟨hocc, hfiles⟩ := hunsafe hmade
  rcases List.eq_nil_or_concat cs with rfl | ⟨ds, d, rfl⟩
  · exact absurd (Or.inl List.nil_prefix) hocc
  rw [List.concat_eq_append] at hcs hmade hocc hfiles
  rw [List.dropLast_concat] at hmade
  refine ⟨.deleteObject b k, fun x hx => List.mem_singleton.mp hx, ?_⟩
  by_cases hin : Inside c (norm (ds ++ [d]))
  · rw [SafeFiles] at hfiles
    push Not at hfiles
    obtain ⟨ms, hms, hmout⟩ := hfiles hin
    obtain ⟨n, hn⟩ := fspath_metadata hcs hms
    rw [List.dropLast_concat] at hn
    subst hn
    exact deleteMetadata_escapes hp hcs hmade hocc hin hms hmout
  · exact deleteObject_escapes hp hcs hocc hin

end Object

end Escape

/-! ## The exact condition -/

/-- Every operation on names of the set stays inside if and only if every name of it is safe. -/
theorem contained_iff (c : Client) (S : StorageName → Prop) :
    (∀ op : Op F, (∀ x ∈ op.names, S x) → ∀ t : Files, t.isDir c.baseLoc = true →
      ∀ l ∈ op.touched c t, Inside c l) ↔ ∀ x, S x → SafeName c x := by
  constructor
  · intro h x hx
    by_contra hsafe
    have hesc : ∃ op : Op F, (∀ y ∈ op.names, y = x) ∧ Escapes c op := by
      obtain ⟨b, k⟩ := x
      cases k with
      | none => exact bucket_escapes hsafe
      | some k => exact object_escapes hsafe
    obtain ⟨op, hnames, t, ht, l, hl, hout⟩ := hesc
    exact hout (h op (fun y hy => hnames y hy ▸ hx) t ht l hl)
  · intro h op hop t ht
    exact touched_inside op (fun x hx => h x (hop x hx)) ht

omit [ScanOrder Name Bytes] in
/-- A bucket path that only goes down from the user's directory is safe. -/
theorem safeBucket_of_names {c : Client} {b : Str} {n : Name} {rest : List Name} (hn : ownName c = some n)
    (h : fspath (getBucketPath c b) = some ((c.baseLoc ++ n :: rest).map .name)) : SafeBucket c b := by
  intro cs hcs
  rw [h] at hcs
  cases hcs
  have hhome : c.baseLoc ++ [n] <+: c.baseLoc ++ n :: rest := ⟨rest, by simp⟩
  refine ⟨?_, ?_⟩
  · intro l hl
    rcases List.prefix_or_prefix_of_prefix (passes_names.mp hl) hhome with h | h
    · rcases List.prefix_concat_iff.mp h with rfl | h
      · exact Or.inl ⟨n, hn, List.prefix_rfl⟩
      · exact Or.inr h
    · exact Or.inl ⟨n, hn, h⟩
  · rw [norm_names]
    exact ⟨n, hn, hhome⟩

omit [ScanOrder Name Bytes] in
theorem disjoint_iff {c c' : Client} (hb : c'.baseLoc = c.baseLoc) :
    (∀ l, ¬ (Inside c l ∧ Inside c' l)) ↔ ¬ ∃ n, ownName c = some n ∧ ownName c' = some n := by
  constructor
  · rintro h ⟨n, hn, hn'⟩
    refine h (c.baseLoc ++ [n]) ⟨⟨n, hn, List.prefix_rfl⟩, ⟨n, hn', ?_⟩⟩
    rw [hb]
  · rintro h l ⟨⟨n, hn, hl⟩, ⟨n', hn', hl'⟩⟩
    rw [hb] at hl'
    have heq : c.baseLoc ++ [n] = c.baseLoc ++ [n'] :=
      (List.prefix_of_prefix_length_le hl hl' (by simp)).eq_of_length (by simp)
    have hnn : n = n' := List.singleton_inj.mp (List.append_cancel_left heq)
    exact h ⟨n, hn, hnn ▸ hn'⟩

/-- Two users of one base path: the first stays in a directory of its own, which is not the
second one's, exactly when the names used are safe and the two directories have different names. -/
theorem users_separated_iff {c c' : Client} (hb : c'.baseLoc = c.baseLoc) (S : StorageName → Prop) :
    ((∀ op : Op F, (∀ x ∈ op.names, S x) → ∀ t : Files, t.isDir c.baseLoc = true →
        ∀ l ∈ op.touched c t, Inside c l) ∧ ∀ l, ¬ (Inside c l ∧ Inside c' l)) ↔
      (∀ x, S x → SafeName c x) ∧ ¬ ∃ n, ownName c = some n ∧ ownName c' = some n := by
  rw [contained_iff, disjoint_iff hb]

end Users

/-! ## Two users -/

section Example

/-- ASCII case folding, no MIME type, and the MD5 of no data. -/
@[reducible] def plainHost : Host where
  lower := lower
  guessType _ := none
  guessType_ascii _ _ h := nomatch h
  md5 _ := lit "d41d8cd98f00b204e9800998ecf8427e"
  md5_ascii _ := by
    intro c hc
    have hall : (lit "d41d8cd98f00b204e9800998ecf8427e").all (fun c => decide (c.val < 0x80)) = true := by
      decide
    exact of_decide_eq_true (List.all_eq_true.mp hall c hc)
  directorySize _ _ := 4096
  mtime _ _ := 0
  nesting := 2
  nesting_pos := Nat.le_refl 2

@[reducible] def listedOrder : ScanOrder Name Bytes where
  scan t l := t.children l
  perm _ _ := List.Perm.refl _

attribute [local instance] plainHost listedOrder

def storageDir : Name := ⟨[byte 115], by decide⟩

/-- A client of the base path `/s`. -/
def clientOf (userId : Str) (h : userId ≠ []) : Client where
  base := [lit "s"]
  baseLoc := [storageDir]
  base_names := by decide
  userId := userId
  userId_nonempty := h

theorem alice_nonempty : lit "alice" ≠ [] := by decide

theorem bob_nonempty : lit "bob" ≠ [] := by decide

def alice : Client := clientOf (lit "alice") alice_nonempty

def bob : Client := clientOf (lit "bob") bob_nonempty

def dirName (s : Str) (h : (component s).isSome = true) : Name :=
  match (component s).get h with
  | .name n => n
  | .up => storageDir

def aliceDir : Name := dirName (lit "user-alice") (by decide +kernel)

def bobDir : Name := dirName (lit "user-bob") (by decide +kernel)

def docsDir : Name := dirName (lit "docs") (by decide +kernel)

theorem alice_and_bob_separated :
    (∀ op : Op Unit, (∀ x ∈ op.names, x = (lit "docs", none)) → ∀ t : Files, t.isDir alice.baseLoc = true →
        ∀ l ∈ op.touched alice t, Inside alice l) ∧ ∀ l, ¬ (Inside alice l ∧ Inside bob l) := by
  have hb : bob.baseLoc = alice.baseLoc := rfl
  refine (users_separated_iff hb fun x => x = (lit "docs", none)).mpr ⟨?_, ?_⟩
  · rintro x rfl
    exact safeBucket_of_names (n := aliceDir) (b := lit "docs") (by decide +kernel)
      (show fspath (getBucketPath alice (lit "docs")) = some (([storageDir] ++ [aliceDir, docsDir]).map .name) by
        decide +kernel)
  · rintro ⟨n, hn, hn'⟩
    have halice : ownName alice = some aliceDir := by decide +kernel
    have hbob : ownName bob = some bobDir := by decide +kernel
    rw [halice] at hn
    rw [hbob, ← Option.some.inj hn] at hn'
    exact absurd hn' (by decide)

/-- A bucket name with `..` reads what another user has stored. -/
theorem bucket_name_reads_other_user :
    ¬ ∀ c c' : Client, c'.baseLoc = c.baseLoc → c.userId ≠ c'.userId →
      (∀ (op : Op Unit) (t : Files), t.isDir c.baseLoc = true → ∀ l ∈ op.touched c t, Inside c l) ∧
        ∀ l, ¬ (Inside c l ∧ Inside c' l) := by
  intro h
  let t : Files := (createBucket alice (lit "docs") (createBucket bob (lit "docs") (bare bob)).tree).tree
  have hread : [storageDir, bobDir, docsDir] ∈
      (Op.listObjects (lit "../user-bob/docs") [] 1000 : Op Unit).touched alice t := by decide +kernel
  obtain ⟨n, hn, hl⟩ := (h alice bob rfl (by decide)).1 _ t (by decide) _ hread
  have halice : ownName alice = some aliceDir := by decide
  rw [halice] at hn
  rw [← Option.some.inj hn] at hl
  exact absurd hl (by decide)

end Example

end IsaCloud.Storage
