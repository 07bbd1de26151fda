import IsaCloud.Storage.LocalClient
import IsaCloud.Support.FileSpecs

/-!
# What the operations of one user touch

The directory a client may touch is `user-<id>` in the base path, as one name.
The key of an object is checked against the bucket only, and the bucket against
nothing, so whether an operation stays inside is decided by where its paths lead
and which directories are made on the way.
-/

namespace IsaCloud.Storage

set_option autoImplicit false

open Support Support.Text Support.Python Support.Encoding Support.FileTree Support.PosixPath

/-! ## Paths and calls -/

theorem metaSuffix_append_ne (s : Str) : s ++ metaSuffix ≠ [] ∧ s ++ metaSuffix ≠ dot ∧ s ++ metaSuffix ≠ dotdot := by
  have hlen : ∀ w : Str, w.length < 10 → s ++ metaSuffix ≠ w := by
    intro w hw heq
    have := congrArg List.length heq
    have hm : metaSuffix.length = 10 := by decide
    rw [List.length_append, hm] at this
    omega
  exact ⟨hlen [] (by decide), hlen dot (by decide), hlen dotdot (by decide)⟩

theorem getMetadataPath_eq {p : Path} (h : slash ∉ name p) :
    getMetadataPath p = parent p ++ [name p ++ metaSuffix] := by
  have hslash : slash ∉ name p ++ metaSuffix := by
    rw [List.mem_append, not_or]
    exact ⟨h, by decide⟩
  obtain ⟨hne, hdot, -⟩ := metaSuffix_append_ne (name p)
  have habs : isAbsolute (name p ++ metaSuffix) = false := by
    cases hs : name p ++ metaSuffix with
    | nil => rfl
    | cons x xs =>
      rw [hs] at hslash
      have hx : x ≠ slash := fun hx => hslash (hx ▸ List.mem_cons_self ..)
      simp [isAbsolute, hx]
  rw [getMetadataPath, join, habs, if_neg Bool.false_ne_true, segments_singleton ⟨hne, hdot, hslash⟩]

theorem slash_not_mem_name {p : Path} {cs : List (Comp Name)} (h : fspath p = some cs) : slash ∉ name p := by
  rcases List.eq_nil_or_concat p with rfl | ⟨q, seg, rfl⟩
  · simp [name]
  · rw [List.concat_eq_append] at h ⊢
    have hname : name (q ++ [seg]) = seg := by simp [name]
    rw [hname]
    exact slash_not_mem_of_fspath h (by simp)

/-- The metadata file lies beside the object. -/
theorem fspath_metadata {p : Path} {cs ms : List (Comp Name)} (h : fspath p = some cs)
    (hm : fspath (getMetadataPath p) = some ms) : ∃ n, ms = cs.dropLast ++ [.name n] := by
  rw [getMetadataPath_eq (slash_not_mem_name h)] at hm
  obtain ⟨ds, c, hp, hc, rfl⟩ := fspath_concat_some hm
  rw [fspath_parent h] at hp
  cases hp
  cases c with
  | up => exact absurd (component_up.mp hc) (metaSuffix_append_ne (name p)).2.2
  | name n => exact ⟨n, rfl⟩

section Calls
variable {α : Type} {base : Loc Name} {P : Loc Name → Prop}

theorem stays_onPath {p : Path} {f : List (Comp Name) → Io α}
    (h : ∀ cs, fspath p = some cs → Stays base P (f cs)) : Stays base P (onPath p f) := by
  rw [onPath]
  cases hp : fspath p with
  | none => exact stays_raise _
  | some cs => exact h cs hp

theorem stays_pathExists (p : Path) : Stays base P (pathExists p) := by
  rw [pathExists]
  cases fspath p with
  | none => exact stays_pure false
  | some cs => exact stays_present cs

theorem pathExists_reached {p : Path} {cs : List (Comp Name)} {t : Files} {l : Loc Name}
    (hp : fspath p = some cs) (hl : locate t cs = .ok l) :
    pathExists p t = ⟨.ok (t.lookup l).isSome, t, []⟩ := by
  rw [pathExists, hp]
  simp only [FileM.present, hl]

theorem pathExists_unreached {p : Path} {cs : List (Comp Name)} {t : Files} {e : Errno}
    (hp : fspath p = some cs) (hl : locate t cs = .error e) : pathExists p t = ⟨.ok false, t, []⟩ := by
  rw [pathExists, hp]
  simp only [FileM.present, hl]

theorem stays_ofExcept (x : Except PyError α) :
    Stays base P (ofExcept x) := by
  cases x with
  | ok a => exact stays_pure a
  | error e => exact stays_raise _

/-- What follows a computed value only has to stay for that value. -/
theorem stays_ofExcept_bind {β : Type} {x : Except PyError α}
    {f : α → Io β} (h : ∀ a, x = .ok a → Stays base P (f a)) : Stays base P (ofExcept x >>= f) := by
  refine stays_bind_of (stays_ofExcept x) ?_
  intro t a _ hv
  refine h a ?_
  cases x with
  | ok b =>
    cases hv
    rfl
  | error e => cases hv

theorem stays_handleError {m : Io (Option α)} (h : Stays base P m) :
    Stays base P (handleError m) := stays_handle h fun _ => stays_pure none

end Calls

variable [Host]

/-! ## The user's own directory -/

/-- The name of the user's directory, if a directory can be called so. -/
def ownName (c : Client) : Option Name :=
  match component (lit "user-" ++ safeUserId c.userId) with
  | some (.name n) => some n
  | _ => none

def Inside (c : Client) (l : Loc Name) : Prop := ∃ n, ownName c = some n ∧ c.baseLoc ++ [n] <+: l

theorem Inside.below {c : Client} {l m : Loc Name} (h : Inside c l) (hm : l <+: m) : Inside c m := by
  obtain ⟨n, hn, hl⟩ := h
  exact ⟨n, hn, hl.trans hm⟩

theorem Inside.ne_base {c : Client} {l : Loc Name} (h : Inside c l) : c.baseLoc ≠ l := by
  obtain ⟨n, _, hl⟩ := h
  intro heq
  have := hl.length_le
  rw [← heq, List.length_append, List.length_singleton] at this
  omega

/-- Every directory a path passes is the user's, or is there already. -/
def Made (c : Client) (cs : List (Comp Name)) : Prop := ∀ l, Passes cs l → Inside c l ∨ l <+: c.baseLoc

/-- The bucket's path stays in the user's directory. -/
def SafeBucket (c : Client) (bucketName : Str) : Prop :=
  ∀ cs, fspath (getBucketPath c bucketName) = some cs → Made c cs ∧ Inside c (norm cs)

/-- The path can only name a directory: the base path, one above it, or one it passes. -/
def Occupied (c : Client) (cs : List (Comp Name)) : Prop :=
  norm cs <+: c.baseLoc ∨ Passes cs.dropLast (norm cs)

/-- The files of an object whose key passed the check lie in the user's directory. -/
def SafeFiles (c : Client) (objectPath : Path) (cs : List (Comp Name)) : Prop :=
  Inside c (norm cs) ∧ ∀ ms, fspath (getMetadataPath objectPath) = some ms → Inside c (norm ms)

def SafeObject (c : Client) (bucketName key : Str) : Prop :=
  (∀ cs, fspath (getBucketPath c bucketName) = some cs → Made c cs) ∧
    ∀ objectPath cs, getObjectPath c bucketName key = .ok objectPath → fspath objectPath = some cs →
      Made c cs.dropLast ∧ (Occupied c cs ∨ SafeFiles c objectPath cs)

/-! ## Paths of objects -/

theorem getObjectPath_ok {c : Client} {bucketName key : Str} {p : Path}
    (h : getObjectPath c bucketName key = .ok p) :
    p = join (getBucketPath c bucketName) key ∧ ∃ cs ds, fspath (getBucketPath c bucketName) = some cs ∧
      fspath p = some ds ∧ norm cs <+: norm ds := by
  unfold getObjectPath at h
  dsimp only at h
  split at h
  · rename_i hcond
    obtain ⟨hb, ho, hr⟩ := hcond
    cases h
    obtain ⟨cs, hcs⟩ := Option.isSome_iff_exists.mp hb
    obtain ⟨ds, hds⟩ := Option.isSome_iff_exists.mp ho
    exact ⟨rfl, cs, ds, hcs, hds, norm_above hcs hds hr⟩
  · cases h

/-! ## Operations that stay inside -/

section Stay
variable {c : Client}

theorem stays_createBucket {bucketName : Str}
    (h : ∀ cs, fspath (getBucketPath c bucketName) = some cs → Made c cs) :
    Stays c.baseLoc (Inside c) (createBucket c bucketName) := by
  refine stays_handleError (stays_bind (stays_onPath ?_) fun _ => stays_pure _)
  intro cs hcs
  exact stays_makeDirs fun q hq => h cs hcs (norm q) ⟨q, hq, rfl⟩

theorem stays_removeAll {dir : List (Comp Name)} (h : Inside c (norm dir)) (ns : List Name) :
    Stays c.baseLoc (Inside c) (removeAll dir ns) := by
  induction ns with
  | nil => exact stays_pure ()
  | cons n ns ih =>
    refine stays_bind (stays_unlink ?_) fun _ => ih
    rw [norm_concat]
    exact h.below (List.prefix_append _ _)

theorem stays_deleteBucket [ScanOrder Name Bytes] {bucketName : Str} (h : SafeBucket c bucketName) :
    Stays c.baseLoc (Inside c) (deleteBucket c bucketName) := by
  have hin : ∀ cs, fspath (getBucketPath c bucketName) = some cs → Inside c (norm cs) :=
    fun cs hcs => (h cs hcs).2
  have hscan : Stays c.baseLoc (Inside c) (onPath (getBucketPath c bucketName) (FileM.scandir : _ → Io _)) :=
    stays_onPath fun cs hcs => stays_scandir (hin cs hcs)
  refine stays_handleError (stays_bind (stays_pathExists _) ?_)
  intro found
  cases found with
  | false => exact stays_pure _
  | true =>
    refine stays_bind hscan ?_
    intro contents
    split
    · refine stays_bind hscan fun entries => stays_bind (stays_onPath fun cs hcs => ?_) fun _ =>
        stays_bind (stays_onPath fun cs hcs => ?_) fun _ => stays_pure _
      · exact stays_removeAll (hin cs hcs) _
      · exact stays_rmdir (hin cs hcs) (hin cs hcs).ne_base
    · exact stays_pure _

omit [Host] in
/-- An occupied path leads to a directory whenever it can be followed. -/
theorem Occupied.bound {cs : List (Comp Name)} (h : Occupied c cs) : Bound Bytes c.baseLoc cs := by
  intro t ht hl
  rcases h with h | h
  · exact isDir_above h ht
  · rcases List.eq_nil_or_concat cs with rfl | ⟨ds, d, rfl⟩
    · rfl
    · rw [List.concat_eq_append] at hl h ⊢
      rw [List.dropLast_concat] at h
      exact dirs_of_locate hl _ h

variable {F : Type} [PyFloat F]

theorem stays_putObject {bucketName key : Str} (h : SafeObject c bucketName key) (data : Bytes)
    (contentType metadata : Json F) (now : DateTime.Instant) :
    Stays c.baseLoc (Inside c) (putObject c bucketName key data contentType metadata now) := by
  refine stays_handleError (stays_bind (stays_createBucket h.1) fun _ => stays_ofExcept_bind ?_)
  intro p hp
  obtain ⟨_, _, cs, _, hcs, _⟩ := getObjectPath_ok hp
  obtain ⟨hmade, hsafe⟩ := h.2 p cs hp hcs
  refine stays_bind (stays_onPath fun ds hds => ?_) fun _ => ?_
  · rw [fspath_parent hcs] at hds
    cases hds
    exact stays_makeDirs fun q hq => hmade (norm q) ⟨q, hq, rfl⟩
  rcases hsafe with hocc | ⟨hin, hmeta⟩
  · -- nothing is written to a directory, and what follows is not reached
    refine stays_bind_of (stays_onPath fun ds hds => ?_) ?_
    · rw [hcs] at hds
      cases hds
      exact stays_write_bound hocc.bound data
    · intro t a ht hv
      rw [onPath, hcs] at hv
      exact absurd hv (write_bound_error hocc.bound ht)
  · refine stays_bind (stays_onPath fun ds hds => ?_) fun _ =>
      stays_bind (stays_onPath fun ms hms => stays_write (hmeta ms hms)) fun _ =>
      stays_bind (stays_ofExcept _) fun _ => stays_bind (stays_ofExcept _) fun _ =>
      stays_bind (stays_onPath fun ms hms => stays_write (hmeta ms hms)) fun _ => stays_pure _
    rw [hcs] at hds
    cases hds
    exact stays_write hin

theorem stays_getObject {bucketName key : Str} (h : SafeObject c bucketName key) :
    Stays c.baseLoc (Inside c) (getObject c bucketName key) := by
  refine stays_handleError (stays_ofExcept_bind ?_)
  intro p hp
  obtain ⟨_, _, cs, _, hcs, _⟩ := getObjectPath_ok hp
  refine stays_bind (stays_pathExists p) ?_
  intro found
  cases found with
  | false => exact stays_pure none
  | true =>
    refine stays_bind (stays_onPath fun ds hds => ?_) fun data => stays_pure (some data)
    rw [hcs] at hds
    cases hds
    rcases (h.2 p cs hp hcs).2 with hocc | hsafe
    · exact stays_read_bound hocc.bound
    · exact stays_read hsafe.1

/-- No data comes from a path that can only name a directory. -/
theorem getObject_occupied {bucketName key : Str} {p : Path} {cs : List (Comp Name)}
    (hp : getObjectPath c bucketName key = .ok p) (hcs : fspath p = some cs) (hocc : Occupied c cs) {t : Files}
    (ht : t.isDir c.baseLoc = true) : getObject c bucketName key t = ⟨.ok none, t, []⟩ := by
  have hpath : (ofExcept (getObjectPath c bucketName key)) t = ⟨.ok p, t, []⟩ := by
    rw [hp]
    rfl
  rw [getObject]
  cases hl : locate t cs with
  | error e =>
    refine handleError_ok ?_
    rw [FileM.bind_ok hpath, FileM.bind_ok (pathExists_unreached hcs hl)]
    rfl
  | ok l =>
    have hn := locate_eq_norm hl
    subst hn
    have hd := hocc.bound t ht hl
    have hex := pathExists_reached hcs hl
    rw [Tree.isDir_iff.mp hd] at hex
    have hread : (onPath p FileM.read : Io Bytes) t = ⟨.error (.os .eisdir), t, []⟩ := by
      rw [onPath, hcs]
      simp only [FileM.read, FileM.call, hl, Tree.isDir_iff.mp hd]
    refine handleError_raised (e := .os .eisdir) ?_
    rw [FileM.bind_ok hpath, FileM.bind_ok hex]
    simp only [Option.isSome_some, Bool.not_true, Bool.false_eq_true, if_false, List.nil_append]
    rw [FileM.bind_error hread]

omit [Host] in
theorem removeIfExists_missing {p : Path} {t : Files} (h : pathExists p t = ⟨.ok false, t, []⟩) :
    removeIfExists p t = ⟨.ok (), t, []⟩ := by
  rw [removeIfExists, FileM.bind_ok h]
  rfl

omit [Host] in
/-- A file beside one that cannot be reached cannot be reached either. -/
theorem locate_beside {t : Files} {cs ds : List (Comp Name)} {e : Errno} (hl : locate t cs = .error e)
    (hbeside : ds.dropLast = cs.dropLast) (hne : ds ≠ []) : ∃ e, locate t ds = .error e := by
  cases hd : locate t ds with
  | error e => exact ⟨e, rfl⟩
  | ok l =>
    exfalso
    have hds := List.dropLast_append_getLast hne
    rw [hbeside] at hds
    rw [← hds] at hd
    obtain ⟨h1, h2⟩ := locate_concat_inv hd
    have hcne : cs ≠ [] := by
      rintro rfl
      cases hl
    rw [← List.dropLast_append_getLast hcne, locate_concat_ok h1 h2] at hl
    cases hl

omit [Host] in
/-- An object that cannot be reached is not deleted, and its metadata file neither. -/
theorem removeIfExists_unreached {p : Path} {cs : List (Comp Name)} {t : Files} {e : Errno}
    (hcs : fspath p = some cs) (hl : locate t cs = .error e) :
    removeIfExists p t = ⟨.ok (), t, []⟩ ∧ removeIfExists (getMetadataPath p) t = ⟨.ok (), t, []⟩ := by
  refine ⟨removeIfExists_missing (pathExists_unreached hcs hl), ?_⟩
  cases hm : fspath (getMetadataPath p) with
  | none =>
    apply removeIfExists_missing
    rw [pathExists, hm]
    rfl
  | some ms =>
    obtain ⟨n, rfl⟩ := fspath_metadata hcs hm
    obtain ⟨e', he'⟩ := locate_beside hl List.dropLast_concat (by simp)
    exact removeIfExists_missing (pathExists_unreached hm he')

omit [Host] in
theorem removeIfExists_dir {p : Path} {cs : List (Comp Name)} {t : Files} (hcs : fspath p = some cs)
    (hl : locate t cs = .ok (norm cs)) (hd : t.isDir (norm cs) = true) :
    removeIfExists p t = ⟨.error (.os .eisdir), t, []⟩ := by
  have hex := pathExists_reached hcs hl
  rw [Tree.isDir_iff.mp hd] at hex
  rw [removeIfExists, FileM.bind_ok hex, onPath, hcs]
  simp only [Option.isSome_some, FileM.unlink, FileM.call, hl, Tree.isDir_iff.mp hd, if_true, List.nil_append]

theorem stays_removeIfExists {p : Path} (h : ∀ cs, fspath p = some cs → Inside c (norm cs)) :
    Stays c.baseLoc (Inside c) (removeIfExists p) := by
  refine stays_bind (stays_pathExists p) ?_
  intro found
  cases found with
  | false => exact stays_pure ()
  | true => exact stays_onPath fun cs hcs => stays_unlink (h cs hcs)

theorem stays_deleteObject {bucketName key : Str} (h : SafeObject c bucketName key) :
    Stays c.baseLoc (Inside c) (deleteObject c bucketName key) := by
  refine stays_handleError (stays_ofExcept_bind ?_)
  intro p hp
  obtain ⟨_, _, cs, _, hcs, _⟩ := getObjectPath_ok hp
  rcases (h.2 p cs hp hcs).2 with hocc | hsafe
  · intro t ht
    cases hl : locate t cs with
    | ok l =>
      have hn := locate_eq_norm hl
      subst hn
      rw [FileM.bind_error (removeIfExists_dir hcs hl (hocc.bound t ht hl))]
      exact ⟨ht, fun l hl => nomatch hl⟩
    | error e =>
      obtain ⟨hobject, hmeta⟩ := removeIfExists_unreached hcs hl
      rw [FileM.bind_ok hobject, FileM.bind_ok hmeta]
      exact ⟨ht, fun l hl => nomatch hl⟩
  · refine stays_bind (stays_removeIfExists ?_) fun _ =>
      stays_bind (stays_removeIfExists hsafe.2) fun _ => stays_pure _
    intro ds hds
    rw [hcs] at hds
    cases hds
    exact hsafe.1

theorem stays_readRecord {key : Str} {p : Path} {cs : List (Comp Name)} (hcs : fspath p = some cs)
    (hsafe : SafeFiles c p cs) : Stays c.baseLoc (Inside c) (readRecord key p (getMetadataPath p) : Io (Json F)) := by
  refine stays_bind (stays_pathExists _) ?_
  intro found
  cases found with
  | true =>
    exact stays_bind (stays_onPath fun ms hms => stays_read (hsafe.2 ms hms)) fun _ =>
      stays_bind (stays_ofExcept _) fun _ => stays_ofExcept _
  | false =>
    refine stays_onPath fun ds hds => ?_
    rw [hcs] at hds
    cases hds
    intro t ht
    exact stays_bind (stays_stat hsafe.1) (fun r => stays_pure _) t ht

theorem stays_getObjectInfo {bucketName key : Str}
    (h : ∀ p cs, getObjectPath c bucketName key = .ok p → fspath p = some cs → SafeFiles c p cs) :
    Stays c.baseLoc (Inside c) (getObjectInfo c bucketName key : Io (Option (ObjectInfo F))) := by
  refine stays_handleError (stays_ofExcept_bind ?_)
  intro p hp
  obtain ⟨_, _, cs, _, hcs, _⟩ := getObjectPath_ok hp
  refine stays_bind (stays_pathExists p) ?_
  intro found
  cases found with
  | false => exact stays_pure none
  | true =>
    exact stays_bind (stays_readRecord hcs (h p cs hp hcs)) fun _ =>
      stays_bind (stays_ofExcept _) fun _ => stays_pure _

/-! ### Listing -/

/-- The files found below a safe bucket are safe. -/
theorem safeFiles_listed {bucketName : Str} (h : SafeBucket c bucketName) (dir : List Name) (file : Name)
    {p : Path} {cs : List (Comp Name)}
    (hp : getObjectPath c bucketName (text (dir.map (fun n => fsdecode n.bytes) ++ [fsdecode file.bytes])) = .ok p)
    (hcs : fspath p = some cs) : SafeFiles c p cs := by
  have hsegs : dir.map (fun n => fsdecode n.bytes) ++ [fsdecode file.bytes] =
      (dir ++ [file]).map fun n => fsdecode n.bytes := by rw [List.map_append, List.map_singleton]
  obtain ⟨rfl, bs, _, hbs, _, _⟩ := getObjectPath_ok hp
  rw [hsegs, join_text ?_ (by simp)] at hcs
  · obtain ⟨bs', ns, hb, hns, hcat⟩ := fspath_append_some hcs
    rw [hbs] at hb
    cases hb
    obtain ⟨ms, rfl⟩ := fspath_decoded hns
    have hin := (h bs hbs).2
    have hlast : ms ≠ [] := by
      rintro rfl
      rw [List.map_append, List.map_singleton] at hns
      obtain ⟨_, _, _, _, hnil⟩ := fspath_concat_some hns
      exact absurd hnil (by simp)
    refine ⟨?_, ?_⟩
    · rw [hcat, norm_append, normFrom_names]
      exact hin.below (List.prefix_append _ _)
    · intro ds hds
      rw [hsegs, join_text ?_ (by simp)] at hds
      · obtain ⟨m, rfl⟩ := fspath_metadata hcs hds
        have hdrop : cs.dropLast = bs ++ (ms.dropLast).map .name := by
          rw [hcat, List.dropLast_append_of_ne_nil (by simpa using hlast), List.map_dropLast]
        rw [norm_concat, hdrop, norm_append, normFrom_names, enter, List.append_assoc]
        exact hin.below (List.prefix_append _ _)
      · intro seg hseg
        obtain ⟨n, _, rfl⟩ := List.mem_map.mp hseg
        exact (fsdecode_segment n).1
  · intro seg hseg
    obtain ⟨n, _, rfl⟩ := List.mem_map.mp hseg
    exact (fsdecode_segment n).1

theorem stays_listFiles {bucketName : Str} (h : SafeBucket c bucketName) (keyPrefix : Str) (limit : Int)
    (dir files : List Name) (objects : List (ObjectInfo F)) :
    Stays c.baseLoc (Inside c)
      (listFiles c bucketName keyPrefix limit (dir.map fun n => fsdecode n.bytes) files objects) := by
  induction files generalizing objects with
  | nil => exact stays_pure objects
  | cons file files ih =>
    rw [listFiles]
    split
    · exact ih objects
    · dsimp only
      split
      · exact ih objects
      · refine stays_bind (stays_getObjectInfo fun p cs hp hcs => safeFiles_listed h dir file hp hcs) ?_
        intro info
        split
        · exact stays_pure _
        · exact ih _

theorem stays_listObjects [ScanOrder Name Bytes] {bucketName : Str} (h : SafeBucket c bucketName)
    (keyPrefix : Str) (limit : Int) :
    Stays c.baseLoc (Inside c) (listObjects c bucketName keyPrefix limit : Io (List (ObjectInfo F))) := by
  refine stays_handle (stays_bind (stays_pathExists _) ?_) fun _ => stays_pure []
  intro found
  cases found with
  | false => exact stays_pure []
  | true =>
    refine stays_onPath fun cs hcs => ?_
    intro t ht
    refine stays_walk (Q := fun top => ∃ dir : List Name, top = cs ++ dir.map .name) ?_ ?_ ?_ _ ?_ [] t ht
    · rintro _ ⟨dir, rfl⟩
      rw [norm_append, normFrom_names]
      exact (h cs hcs).2.below (List.prefix_append _ _)
    · rintro _ n ⟨dir, rfl⟩
      exact ⟨dir ++ [n], by simp⟩
    · rintro _ files objects ⟨dir, rfl⟩
      have hdir : ((cs ++ dir.map Comp.name).drop cs.length).map segmentText = dir.map fun n => fsdecode n.bytes := by
        rw [List.drop_left, List.map_map]
        rfl
      rw [listBody, hdir]
      exact stays_bind (stays_listFiles h keyPrefix limit dir files objects) fun _ => stays_pure _
    · intro top htop
      exact ⟨[], by simpa using htop⟩

/-! ### Copying -/

theorem stays_copyObject {sourceBucket sourceKey destBucket destKey : Str}
    (hs : SafeObject c sourceBucket sourceKey) (hd : SafeObject c destBucket destKey) (now : DateTime.Instant) :
    Stays c.baseLoc (Inside c) (copyObject (F := F) c sourceBucket sourceKey destBucket destKey now) := by
  refine stays_handleError (stays_bind_of (stays_getObject hs) ?_)
  intro t data ht hv
  cases data with
  | none => exact stays_pure none
  | some data =>
    refine stays_bind (stays_getObjectInfo fun p cs hp hcs => ?_) ?_
    · rcases (hs.2 p cs hp hcs).2 with hocc | hsafe
      · rw [getObject_occupied hp hcs hocc ht] at hv
        cases hv
      · exact hsafe
    · intro info
      cases info with
      | none => exact stays_putObject hd data _ _ now
      | some info => exact stays_putObject hd data _ _ now

theorem stays_moveObject {sourceBucket sourceKey destBucket destKey : Str}
    (hs : SafeObject c sourceBucket sourceKey) (hd : SafeObject c destBucket destKey) (now : DateTime.Instant) :
    Stays c.baseLoc (Inside c) (moveObject (F := F) c sourceBucket sourceKey destBucket destKey now) := by
  refine stays_handleError (stays_bind (stays_copyObject hs hd now) ?_)
  intro etag
  split
  · exact stays_bind (stays_deleteObject hs) fun _ => stays_pure _
  · exact stays_pure _

end Stay

end IsaCloud.Storage
