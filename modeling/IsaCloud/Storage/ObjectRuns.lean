import IsaCloud.Storage.Listing
import IsaCloud.Storage.UserDirectories
import IsaCloud.Support.Runs

/-!
# Runs of the storage client

In a run whose steps all fit, the client is the map: each operation answers what
the map says and leaves a tree that shows the next map. A step does not fit when
its key has a segment that ends like a metadata file, when a directory stands
where its object would, when a text does not survive JSON, when the limit of a
listing that finds something is not positive, or when a bucket without files
still has directories.
-/

namespace IsaCloud.Storage

set_option autoImplicit false

open Support Support.Text Support.Python Support.Encoding Support.FileTree Support.PosixPath Support.Json

section Conditions
variable [Host]

/-- Where a path leads. -/
def placeOf (p : Path) : Loc Name := norm ((fspath p).getD [])

def bucketPlace (c : Client) (bucketName : Str) : Loc Name := placeOf (getBucketPath c bucketName)

def objectPlace (c : Client) (bucketName key : Str) : Loc Name := placeOf (join (getBucketPath c bucketName) key)

/-- Simple names; a put for which a file stands where a directory is needed is left out, and a
`bytes` object is shorter than `2^63`. -/
def Act.Admitted (c : Client) (t : Files) : Act → Prop
  | .createBucket b => SimpleBucket b
  | .putObject b k data _ _ _ => SimpleBucket b ∧ SimpleKey k ∧ data.length < 2 ^ 63 ∧
      ∀ l, l <+: (objectPlace c b k).dropLast → ∀ d, t.lookup l ≠ some (.file d)
  | .getObject b k => SimpleBucket b ∧ SimpleKey k
  | .getObjectInfo b k => SimpleBucket b ∧ SimpleKey k
  | .objectExists b k => SimpleBucket b ∧ SimpleKey k
  | .deleteObject b k => SimpleBucket b ∧ SimpleKey k
  | .listObjects b _ _ => SimpleBucket b
  | .deleteBucket b => SimpleBucket b

/-- No segment of the key ends like a metadata file. -/
def MetaFree (key : Str) : Prop := ∀ seg ∈ key.splitOn slash, ¬ metaSuffix <:+ seg

instance (key : Str) : Decidable (MetaFree key) :=
  inferInstanceAs (Decidable (∀ seg ∈ key.splitOn slash, ¬ metaSuffix <:+ seg))

/-- The texts of a put survive JSON. -/
def TextsSurvive (contentType : Option Str) (metadata : Option (Dict Str Str)) : Prop :=
  (∀ s, contentType = some s → splitFree s = true) ∧
    ∀ d, metadata = some d → ∀ kv ∈ d.entries, splitFree kv.1 = true ∧ splitFree kv.2 = true

def Act.Fits (c : Client) (t : Files) : Act → Prop
  | .createBucket _ => True
  | .putObject b k _ contentType metadata _ =>
      MetaFree k ∧ t.isDir (objectPlace c b k) = false ∧ TextsSurvive contentType metadata
  | .getObject b k => t.lookup (objectPlace c b k) = none ∨ MetaFree k
  | .getObjectInfo b k => t.lookup (objectPlace c b k) = none ∨ MetaFree k ∧ t.isDir (objectPlace c b k) = false
  | .objectExists b k => t.lookup (objectPlace c b k) = none ∨ MetaFree k ∧ t.isDir (objectPlace c b k) = false
  | .deleteObject b k => t.lookup (objectPlace c b k) = none ∨ MetaFree k ∧ t.isDir (objectPlace c b k) = false
  | .listObjects b pre limit => 0 < limit ∨ ∀ r n d,
      t.lookup (bucketPlace c b ++ r ++ [n]) = some (.file d) → isMeta n = false → ¬ pre <+: keyText (r ++ [n])
  | .deleteBucket b => t.children (bucketPlace c b) = [] ∨ ∃ r d, t.lookup (bucketPlace c b ++ r) = some (.file d)

end Conditions

section Client
variable [Host] {F : Type} [PyFloat F]
variable {c : Client} {root : Loc Name} {u m : Name} {ns : List Name} {t t' : Files} {M : ObjectMap}

/-! ## Keeping the tie -/

/-- Only the files matter, and directories named like a metadata file. -/
theorem Shows.of_same_files (h : Shows F root u t M)
    (hfile : ∀ l d, t'.lookup l = some (.file d) ↔ t.lookup l = some (.file d))
    (hdir : ∀ m r n, t'.lookup (root ++ u :: m :: (r ++ [n])) = some .dir →
      t.lookup (root ++ u :: m :: (r ++ [n])) = some .dir) : Shows F root u t' M where
  home := fun l hl d hf => h.home l hl d ((hfile l d).mp hf)
  domain := h.domain
  files := by
    intro m ns e hk he
    obtain ⟨hobj, hside⟩ := h.files m ns e hk he
    exact ⟨(hfile _ _).mpr hobj, (hfile _ _).mpr hside⟩
  only := fun m r d hf => h.only m r d ((hfile _ d).mp hf)
  no_meta_dir := fun m r n hd => h.no_meta_dir m r n (hdir m r n hd)

theorem Shows.of_same (h : Shows F root u t M) (hsame : ∀ l, t'.lookup l = t.lookup l) : Shows F root u t' M := by
  refine h.of_same_files ?_ ?_
  · intro l d
    rw [hsame]
  · intro m r n hd
    rw [← hsame]
    exact hd

theorem Shows.made_bucket (h : Shows F root u t M)
    (hlook : ∀ l, t'.lookup l = if l <+: root ++ [u, m] then some .dir else t.lookup l) : Shows F root u t' M := by
  refine h.of_same_files ?_ ?_
  · intro l d
    rw [hlook]
    split
    · rename_i hl
      exact ⟨fun hf => (nomatch hf), fun hf => absurd hf (h.bucket_free m l hl d)⟩
    · exact Iff.rfl
  · intro m' r n hd
    rw [hlook, if_neg] at hd
    · exact hd
    · intro hp
      have hlen := hp.length_le
      simp only [List.length_append, List.length_cons, List.length_nil] at hlen
      omega

theorem Shows.removed_bucket (h : Shows F root u t M) (hd : t.lookup (root ++ [u, m]) = some .dir)
    (hlook : ∀ l, t'.lookup l = if l = root ++ [u, m] then none else t.lookup l) : Shows F root u t' M := by
  refine h.of_same_files ?_ ?_
  · intro l d
    rw [hlook]
    split
    · rename_i hl
      rw [hl, hd]
      exact ⟨fun hf => (nomatch hf), fun hf => (nomatch hf)⟩
    · exact Iff.rfl
  · intro m' r n hd'
    rw [hlook] at hd'
    split at hd'
    · cases hd'
    · exact hd'

omit [Host] in
theorem place_inj {m' : Name} {r r' : List Name} : root ++ u :: m :: r = root ++ u :: m' :: r' ↔ m = m' ∧ r = r' := by
  constructor
  · intro heq
    have h2 := List.append_cancel_left heq
    rw [List.cons.injEq, List.cons.injEq] at h2
    exact h2.2
  · rintro ⟨rfl, rfl⟩
    rfl

omit [Host] in
theorem below_home_ne {l : Loc Name} (hl : l <+: root ++ [u]) (r : List Name) : l ≠ root ++ u :: m :: r := by
  rintro rfl
  have hlen := hl.length_le
  simp only [List.length_append, List.length_cons, List.length_nil] at hlen
  omega

omit [Host] in
/-- The two files of another key are not the two files of this one. -/
theorem GoodKey.apart (hk : GoodKey m ns) {m' : Name} {ns' : List Name} (hk' : GoodKey m' ns')
    (hne : ¬ (m' = m ∧ ns' = ns)) (root : Loc Name) (u : Name) : ∀ l, l = root ++ u :: m' :: ns' ∨ l = root ++ u :: m' :: beside ns' →
      l ≠ root ++ u :: m :: ns ∧ l ≠ root ++ u :: m :: beside ns := by
  rintro l (rfl | rfl)
  · refine ⟨fun heq => hne (place_inj.mp heq), ?_⟩
    intro heq
    obtain ⟨rfl, hr⟩ := place_inj.mp heq
    exact hk.beside_ne hk' hr.symm
  · refine ⟨?_, ?_⟩
    · intro heq
      obtain ⟨rfl, hr⟩ := place_inj.mp heq
      exact hk'.beside_ne hk hr
    · intro heq
      obtain ⟨rfl, hr⟩ := place_inj.mp heq
      exact hne ⟨rfl, hk'.beside_inj hk hr⟩

omit [Host] in
theorem GoodKey.same_key (hk : GoodKey m ns) {m' : Name} {ns' : List Name} (hk' : GoodKey m' ns') :
    (nameText m' = nameText m ∧ keyText ns' = keyText ns) ↔ m' = m ∧ ns' = ns := by
  constructor
  · rintro ⟨hb, hkey⟩
    exact hk'.ext_key hk hb hkey
  · rintro ⟨rfl, rfl⟩
    exact ⟨rfl, rfl⟩

/-- After a put the tree shows the map with the new entry. -/
theorem Shows.wrote (h : Shows F root u t M) (hk : GoodKey m ns)
    (hfree : ∀ l, l <+: (root ++ u :: m :: ns).dropLast → ∀ d, t.lookup l ≠ some (.file d)) {e : Entry}
    (hsound : e.Sound)
    (hw : Wrote t t' (root ++ u :: m :: ns) (root ++ u :: m :: beside ns) e.data (e.recordBytes F)) :
    Shows F root u t' (M.put (nameText m) (keyText ns) e) := by
  have hself : root ++ u :: m :: ns ≠ root ++ u :: m :: beside ns := by
    intro heq
    exact hk.beside_ne hk (place_inj.mp heq).2.symm
  refine ⟨?_, ?_, ?_, ?_, ?_⟩
  · intro l hl d
    rw [hw l, if_neg (below_home_ne hl _), if_neg (below_home_ne hl _)]
    split
    · exact fun hf => nomatch hf
    · exact h.home l hl d
  · intro b k e' he'
    rw [ObjectMap.put] at he'
    split at he'
    · rename_i hbk
      cases he'
      exact ⟨hsound, m, ns, hk, hbk.1, hbk.2⟩
    · exact h.domain b k e' he'
  · intro m' ns' e' hk' he'
    rw [ObjectMap.put] at he'
    simp only [hk.same_key hk'] at he'
    split at he'
    · rename_i heq
      obtain ⟨rfl, rfl⟩ := heq
      cases he'
      refine ⟨?_, ?_⟩
      · rw [hw, if_neg hself, if_pos rfl]
      · rw [hw, if_pos rfl]
    · rename_i hne
      obtain ⟨hobj, hside⟩ := h.files m' ns' e' hk' he'
      have hapart := hk.apart hk' hne root u
      have hkeep : ∀ l d, l = root ++ u :: m' :: ns' ∨ l = root ++ u :: m' :: beside ns' →
          t.lookup l = some (.file d) → t'.lookup l = some (.file d) := by
        intro l d hl hf
        obtain ⟨h1, h2⟩ := hapart l hl
        rw [hw, if_neg h2, if_neg h1, if_neg fun hp => hfree l hp d hf]
        exact hf
      exact ⟨hkeep _ _ (Or.inl rfl) hobj, hkeep _ _ (Or.inr rfl) hside⟩
  · intro m' r d hf
    have hnew : M.put (nameText m) (keyText ns) e (nameText m) (keyText ns) = some e := if_pos ⟨rfl, rfl⟩
    rw [hw] at hf
    split at hf
    · rename_i heq
      obtain ⟨rfl, rfl⟩ := place_inj.mp heq
      exact ⟨ns, e, hk, hnew, Or.inr rfl⟩
    · split at hf
      · rename_i heq
        obtain ⟨rfl, rfl⟩ := place_inj.mp heq
        exact ⟨r, e, hk, hnew, Or.inl rfl⟩
      · split at hf
        · cases hf
        · obtain ⟨ns', e', hk', he', hr⟩ := h.only m' r d hf
          by_cases hsame : nameText m' = nameText m ∧ keyText ns' = keyText ns
          · exact ⟨ns', e, hk', if_pos hsame, hr⟩
          · exact ⟨ns', e', hk', (if_neg hsame).trans he', hr⟩
  · intro m' r n hd
    rw [hw] at hd
    split at hd
    · cases hd
    · split at hd
      · cases hd
      · split at hd
        · rename_i hp
          have hmem : root ++ u :: m' :: (r ++ [n]) <+: root ++ u :: m :: ns := hp.trans (List.dropLast_prefix _)
          have hin : (u :: m' :: (r ++ [n])) <+: u :: m :: ns := List.prefix_append_right_inj root |>.mp hmem
          rw [List.cons_prefix_cons, List.cons_prefix_cons] at hin
          exact hk.no_meta n (hin.2.2.subset (by simp))
        · exact h.no_meta_dir m' r n hd

/-- After a delete the tree shows the map without the entry. -/
theorem Shows.removed (h : Shows F root u t M) (hk : GoodKey m ns)
    (hlook : ∀ l, t'.lookup l =
      if l = root ++ u :: m :: ns ∨ l = root ++ u :: m :: beside ns then none else t.lookup l) :
    Shows F root u t' (M.remove (nameText m) (keyText ns)) := by
  have hstep : ∀ {l : Loc Name} {node : Node Bytes}, t'.lookup l = some node →
      ¬ (l = root ++ u :: m :: ns ∨ l = root ++ u :: m :: beside ns) ∧ t.lookup l = some node := by
    intro l node hl
    rw [hlook] at hl
    split at hl
    · cases hl
    · exact ⟨‹_›, hl⟩
  refine ⟨?_, ?_, ?_, ?_, ?_⟩
  · intro l hl d hf
    exact h.home l hl d (hstep hf).2
  · intro b k e he
    rw [ObjectMap.remove] at he
    split at he
    · cases he
    · exact h.domain b k e he
  · intro m' ns' e hk' he
    rw [ObjectMap.remove] at he
    simp only [hk.same_key hk'] at he
    split at he
    · cases he
    · rename_i hne
      obtain ⟨hobj, hside⟩ := h.files m' ns' e hk' he
      have hapart := hk.apart hk' hne root u
      rw [hlook, hlook, if_neg (not_or.mpr (hapart _ (Or.inl rfl))), if_neg (not_or.mpr (hapart _ (Or.inr rfl)))]
      exact ⟨hobj, hside⟩
  · intro m' r d hf
    obtain ⟨hl, hf⟩ := hstep hf
    obtain ⟨ns', e, hk', he, hr⟩ := h.only m' r d hf
    refine ⟨ns', e, hk', ?_, hr⟩
    rw [ObjectMap.remove, if_neg]
    · exact he
    · intro hsame
      obtain ⟨rfl, rfl⟩ := (hk.same_key hk').mp hsame
      rcases hr with rfl | rfl
      · exact hl (Or.inl rfl)
      · exact hl (Or.inr rfl)
  · intro m' r n hd
    exact h.no_meta_dir m' r n (hstep hd).2

/-! ## Simple names and where they lead -/

omit [Host] in
theorem splitOn_keyText (h : ∀ n ∈ ns, Clean n) (hne : ns ≠ []) : (keyText ns).splitOn slash = ns.map nameText := by
  refine List.splitOn_intercalate slash ?_ (by simpa using hne)
  intro seg hs
  obtain ⟨n, hn, rfl⟩ := List.mem_map.mp hs
  exact (h n hn).ordinary.segment.2.2

omit [Host] in
theorem metaFree_keyText (h : ∀ n ∈ ns, Clean n) (hne : ns ≠ []) :
    MetaFree (keyText ns) ↔ ∀ n ∈ ns, isMeta n = false := by
  rw [MetaFree, splitOn_keyText h hne, List.forall_mem_map]
  refine forall₂_congr fun n _ => ?_
  rw [← isMeta_iff, Bool.not_eq_true]

theorem SimpleBucket.name {b : Str} (h : SimpleBucket b) : ∃ m, Clean m ∧ b = nameText m := by
  obtain ⟨m, hm, ht⟩ := clean_of_ordinary h.2
  exact ⟨m, hm, ht.symm⟩

theorem bucketPlace_simple (hu : fspath (getUserPath c) = some ((root ++ [u]).map .name))
    (hb : SimpleBucket (nameText m)) (hm : Clean m) : bucketPlace c (nameText m) = root ++ [u, m] := by
  rw [bucketPlace, placeOf, fspath_bucket hu hb hm.named, Option.getD_some, norm_names]

theorem objectPlace_simple (hu : fspath (getUserPath c) = some ((root ++ [u]).map .name))
    (hb : SimpleBucket (nameText m)) (hm : Clean m) (hns : ∀ n ∈ ns, Clean n) (hne : ns ≠ []) :
    objectPlace c (nameText m) (keyText ns) = root ++ u :: m :: ns := by
  obtain ⟨_, hobj⟩ := getObjectPath_simple hu hb hm.named hns hne
  rw [objectPlace, placeOf, join_keyText _ hns hne, hobj, Option.getD_some, norm_names]

omit [Host] in
theorem goodKey_of_metaFree (hm : Clean m) (hns : ∀ n ∈ ns, Clean n) (hne : ns ≠ [])
    (hfree : MetaFree (keyText ns)) : GoodKey m ns :=
  ⟨hm, hne, hns, (metaFree_keyText hns hne).mp hfree⟩

/-! ## Keys at which there is nothing -/

theorem Shows.none_of_absent (h : Shows F root u t M) (hm : Clean m) (hns : ∀ n ∈ ns, Clean n) (hne : ns ≠ [])
    (ho : t.lookup (root ++ u :: m :: ns) = none) : M (nameText m) (keyText ns) = none := by
  cases he : M (nameText m) (keyText ns) with
  | none => rfl
  | some e =>
    obtain ⟨ns', hk', hkey, hf⟩ := h.stored_file hm he
    rw [← keyText_inj hns hk'.names hne hk'.key_ne hkey, ho] at hf
    cases hf

/-- A metadata file belongs to an object. -/
theorem Shows.beside_absent (h : Shows F root u t M) (hns : ∀ n ∈ ns, Clean n) (hne : ns ≠ [])
    (ho : t.lookup (root ++ u :: m :: ns) = none) : t.lookup (root ++ u :: m :: beside ns) = none := by
  rcases List.eq_nil_or_concat ns with rfl | ⟨q, n, rfl⟩
  · exact absurd rfl hne
  rw [List.concat_eq_append] at *
  have hn : Clean n := hns n (by simp)
  rw [beside_concat]
  cases hl : t.lookup (root ++ u :: m :: (q ++ [sidecar n])) with
  | none => rfl
  | some node =>
    cases node with
    | dir =>
      have hmeta := h.no_meta_dir m q (sidecar n) hl
      rw [hn.isMeta_sidecar] at hmeta
      cases hmeta
    | file d =>
      obtain ⟨ns', e, hk', he, hr | hr⟩ := h.only m _ d hl
      · have hmeta := hk'.no_meta (sidecar n) (hr ▸ by simp)
        rw [hn.isMeta_sidecar] at hmeta
        cases hmeta
      · obtain ⟨q', n', rfl, hn', _⟩ := hk'.split
        rw [beside_concat] at hr
        have hq := List.append_inj_left' hr rfl
        have hs := List.singleton_inj.mp (List.append_inj_right' hr rfl)
        rw [hq, hn.sidecar_inj hn' hs] at ho
        rw [(h.files m _ e hk' he).1] at ho
        cases ho

/-! ## One step -/

variable [ScanOrder Name Bytes]

variable (F) in
/-- The client answers as the map does, the tree it leaves shows the next map, and a bucket
reported deleted is gone. -/
def Act.Tracks (c : Client) (root : Loc Name) (u : Name) (t : Files) (M : ObjectMap) (a : Act) : Prop :=
  ∃ (reply : Reply F) (t' : Files), Runs (a.run c) t (.ok reply) t' ∧ M.Answers a reply ∧
    Shows F root u t' (M.next a) ∧
      ∀ b, a = .deleteBucket b → reply = .done (some true) → t'.lookup (bucketPlace c b) = none

section Steps
variable (hu : fspath (getUserPath c) = some ((root ++ [u]).map .name)) (h : Shows F root u t M)
include hu h

theorem tracks_createBucket {b : Str} (ha : Act.Admitted c t (.createBucket b)) :
    Act.Tracks F c root u t M (.createBucket b) := by
  obtain ⟨m, hm, rfl⟩ := SimpleBucket.name ha
  obtain ⟨t', hrun, hlook⟩ := createBucket_eval (fspath_bucket hu ha hm.named) (h.bucket_free m)
  exact ⟨_, t', hrun.bind (runs_pure _ t'), rfl, h.made_bucket hlook, fun _ heq => nomatch heq⟩

theorem tracks_putObject [LawfulPyFloat F] {b k : Str} {data : Bytes} {contentType : Option Str}
    {metadata : Option (Dict Str Str)} {now : DateTime.Instant}
    (ha : Act.Admitted c t (.putObject b k data contentType metadata now))
    (hf : Act.Fits c t (.putObject b k data contentType metadata now)) :
    Act.Tracks F c root u t M (.putObject b k data contentType metadata now) := by
  obtain ⟨hb, hkey, hsize, hfree⟩ := ha
  obtain ⟨hmf, hnd, htype, hmeta⟩ := hf
  obtain ⟨m, hm, rfl⟩ := hb.name
  obtain ⟨ns, rfl, hne, hns⟩ := hkey.names
  rw [objectPlace_simple hu hb hm hns hne] at hfree hnd
  have hk := goodKey_of_metaFree hm hns hne hmf
  have hsound : (Entry.of (keyText ns) data contentType metadata now).Sound := by
    refine ⟨hsize, ?_, ?_⟩
    · have hguess : splitFree (guessedType (keyText ns)) = true := by
        rw [guessedType]
        split
        · decide +kernel
        · decide +kernel
        · rename_i s _ hs
          exact splitFree_ascii (Host.guessType_ascii _ _ hs)
      show splitFree (resolvedType contentType (keyText ns)) = true
      cases contentType with
      | none => exact hguess
      | some s =>
        cases s with
        | nil => exact hguess
        | cons x xs => exact htype _ rfl
    · cases metadata with
      | none => exact fun kv hkv => nomatch hkv
      | some d => exact hmeta d rfl
  obtain ⟨t', hrun, hw⟩ := putObject_eval (hk.located hu hb) hfree hnd (h.beside_not_dir hk)
    (metaRecord_eq (F := F) (keyText ns) data contentType metadata now) hsound
  exact ⟨_, t', hrun.bind (runs_pure _ t'), rfl, h.wrote hk hfree hsound hw, fun _ heq => nomatch heq⟩

theorem tracks_getObject {b k : Str} (ha : Act.Admitted c t (.getObject b k)) (hf : Act.Fits c t (.getObject b k)) :
    Act.Tracks F c root u t M (.getObject b k) := by
  obtain ⟨hb, hkey⟩ := ha
  obtain ⟨m, hm, rfl⟩ := hb.name
  obtain ⟨ns, rfl, hne, hns⟩ := hkey.names
  have hrun := getObject_eval (located hu hb hm hns hne) t
  rw [Act.Fits, objectPlace_simple hu hb hm hns hne] at hf
  have hdata : dataOf (t.lookup (root ++ u :: m :: ns)) = (M (nameText m) (keyText ns)).map Entry.data := by
    rcases hf with ho | hmf
    · rw [h.none_of_absent hm hns hne ho, ho]
      rfl
    · have hk := goodKey_of_metaFree hm hns hne hmf
      cases hM : M (nameText m) (keyText ns) with
      | some e =>
        rw [(h.files m ns e hk hM).1]
        rfl
      | none =>
        cases hl : t.lookup (root ++ u :: m :: ns) with
        | none => rfl
        | some node =>
          cases node with
          | dir => rfl
          | file d =>
            obtain ⟨e, he⟩ := h.stored_of_file hk hl
            rw [hM] at he
            cases he
  rw [hdata] at hrun
  exact ⟨_, t, hrun.bind (runs_pure _ t), rfl, h, fun _ heq => nomatch heq⟩

theorem tracks_getObjectInfo [LawfulPyFloat F] {b k : Str} (ha : Act.Admitted c t (.getObjectInfo b k))
    (hf : Act.Fits c t (.getObjectInfo b k)) : Act.Tracks F c root u t M (.getObjectInfo b k) := by
  obtain ⟨hb, hkey⟩ := ha
  obtain ⟨m, hm, rfl⟩ := hb.name
  obtain ⟨ns, rfl, hne, hns⟩ := hkey.names
  have hl := located hu hb hm hns hne
  rw [Act.Fits, objectPlace_simple hu hb hm hns hne] at hf
  have hrun : Runs (getObjectInfo c (nameText m) (keyText ns)) t
      (.ok ((M (nameText m) (keyText ns)).map (Entry.info (F := F) (nameText m) (keyText ns)))) t := by
    rcases hf with ho | ⟨hmf, hnd⟩
    · rw [h.none_of_absent hm hns hne ho]
      exact getObjectInfo_absent hl ho
    · have hk := goodKey_of_metaFree hm hns hne hmf
      cases hM : M (nameText m) (keyText ns) with
      | some e => exact h.runs_info hu hb hk hM
      | none => exact getObjectInfo_absent hl (h.absent hk hM hnd)
  exact ⟨_, t, hrun.bind (runs_pure _ t), rfl, h, fun _ heq => nomatch heq⟩

theorem tracks_objectExists {b k : Str} (ha : Act.Admitted c t (.objectExists b k))
    (hf : Act.Fits c t (.objectExists b k)) : Act.Tracks F c root u t M (.objectExists b k) := by
  obtain ⟨hb, hkey⟩ := ha
  obtain ⟨m, hm, rfl⟩ := hb.name
  obtain ⟨ns, rfl, hne, hns⟩ := hkey.names
  have hrun := objectExists_eval (located hu hb hm hns hne) t
  rw [Act.Fits, objectPlace_simple hu hb hm hns hne] at hf
  have hsome : (t.lookup (root ++ u :: m :: ns)).isSome = (M (nameText m) (keyText ns)).isSome := by
    rcases hf with ho | ⟨hmf, hnd⟩
    · rw [h.none_of_absent hm hns hne ho, ho]
      rfl
    · have hk := goodKey_of_metaFree hm hns hne hmf
      cases hM : M (nameText m) (keyText ns) with
      | some e =>
        rw [(h.files m ns e hk hM).1]
        rfl
      | none =>
        rw [h.absent hk hM hnd]
        rfl
  rw [hsome] at hrun
  exact ⟨_, t, hrun.bind (runs_pure _ t), rfl, h, fun _ heq => nomatch heq⟩

theorem tracks_deleteObject {b k : Str} (ha : Act.Admitted c t (.deleteObject b k))
    (hf : Act.Fits c t (.deleteObject b k)) : Act.Tracks F c root u t M (.deleteObject b k) := by
  obtain ⟨hb, hkey⟩ := ha
  obtain ⟨m, hm, rfl⟩ := hb.name
  obtain ⟨ns, rfl, hne, hns⟩ := hkey.names
  have hl := located hu hb hm hns hne
  rw [Act.Fits, objectPlace_simple hu hb hm hns hne] at hf
  rcases hf with ho | ⟨hmf, hnd⟩
  · have hs := h.beside_absent hns hne ho
    obtain ⟨t', hrun, hlook⟩ := deleteObject_eval hl (not_isDir_of_none ho) (not_isDir_of_none hs)
    have hM : M.remove (nameText m) (keyText ns) = M := by
      funext b k
      rw [ObjectMap.remove]
      split
      · rename_i heq
        rw [heq.1, heq.2, h.none_of_absent hm hns hne ho]
      · rfl
    have hsame : ∀ l, t'.lookup l = t.lookup l := by
      intro l
      rw [hlook]
      split
      · rename_i heq
        rcases heq with rfl | rfl
        · exact ho.symm
        · exact hs.symm
      · rfl
    refine ⟨_, t', hrun.bind (runs_pure _ t'), rfl, ?_, fun _ heq => nomatch heq⟩
    rw [ObjectMap.next, hM]
    exact h.of_same hsame
  · have hk := goodKey_of_metaFree hm hns hne hmf
    obtain ⟨t', hrun, hlook⟩ := deleteObject_eval hl hnd (h.beside_not_dir hk)
    exact ⟨_, t', hrun.bind (runs_pure _ t'), rfl, h.removed hk hlook, fun _ heq => nomatch heq⟩

theorem tracks_listObjects [LawfulPyFloat F] {b pre : Str} {limit : Int}
    (ha : Act.Admitted c t (.listObjects b pre limit)) (hf : Act.Fits c t (.listObjects b pre limit)) :
    Act.Tracks F c root u t M (.listObjects b pre limit) := by
  have hb : SimpleBucket b := ha
  obtain ⟨m, hm, rfl⟩ := hb.name
  rw [Act.Fits, bucketPlace_simple hu hb hm] at hf
  have hlimit : 0 < limit ∨ ∀ k e, M (nameText m) k = some e → ¬ pre <+: k := by
    refine hf.imp_right ?_
    intro hnone k e he
    obtain ⟨ns, hk, rfl, hfile⟩ := h.stored_file hm he
    obtain ⟨q, n, rfl, _, hmeta⟩ := hk.split
    refine hnone q n e.data ?_ hmeta
    rw [← hfile]
    simp
  obtain ⟨infos, hrun, hlists⟩ := h.runs_list hu hb hm hlimit
  exact ⟨_, t, hrun.bind (runs_pure _ t), ⟨infos, rfl, hlists⟩, h, fun _ heq => nomatch heq⟩

omit hu [ScanOrder Name Bytes] in
/-- An object shows in its bucket, by its file or by the first directory above it. -/
theorem Shows.child_of_stored {k : Str} {e : Entry} (hm : Clean m) (he : M (nameText m) k = some e) :
    ∃ n, isMeta n = false ∧ (t.lookup (root ++ [u, m] ++ [n])).isSome := by
  obtain ⟨ns, hk, rfl, hfile⟩ := h.stored_file hm he
  have hne := hk.key_ne
  cases ns with
  | nil => exact absurd rfl hne
  | cons n ns =>
    refine ⟨n, hk.no_meta n (List.mem_cons_self ..), ?_⟩
    have hcat : root ++ u :: m :: n :: ns = (root ++ [u, m] ++ [n]) ++ ns := by simp
    rw [hcat] at hfile
    cases ns with
    | nil =>
      rw [List.append_nil] at hfile
      rw [hfile]
      rfl
    | cons n' ns =>
      have hsome : (t.lookup (root ++ [u, m] ++ [n] ++ n' :: ns)).isSome := by
        rw [hfile]
        rfl
      rw [Tree.isDir_iff.mp (Tree.isDir_of_below (by simp) hsome)]
      rfl

theorem tracks_deleteBucket {b : Str} (ha : Act.Admitted c t (.deleteBucket b)) (hf : Act.Fits c t (.deleteBucket b)) :
    Act.Tracks F c root u t M (.deleteBucket b) := by
  have hb : SimpleBucket b := ha
  obtain ⟨m, hm, rfl⟩ := hb.name
  have hp := fspath_bucket hu hb hm.named
  have hplace := bucketPlace_simple hu hb hm
  rw [Act.Fits, hplace] at hf
  cases hl : t.lookup (root ++ [u, m]) with
  | none =>
    have hempty : ∀ k, M (nameText m) k = none := by
      intro k
      cases hM : M (nameText m) k with
      | none => rfl
      | some e =>
        have hdir := h.bucket_of_stored hm hM
        rw [Tree.isDir_iff, hl] at hdir
        cases hdir
    refine ⟨_, t, (deleteBucket_absent hp hl).bind (runs_pure _ t), ⟨true, rfl, ⟨fun _ => hempty, fun _ => rfl⟩⟩, h, ?_⟩
    rintro b heq _
    cases heq
    rw [hplace]
    exact hl
  | some node =>
    cases node with
    | file d => exact absurd hl (h.bucket_free m _ List.prefix_rfl d)
    | dir =>
      rcases hf with hc | ⟨r, d, hfile⟩
      · have hempty : ∀ k, M (nameText m) k = none := by
          intro k
          cases hM : M (nameText m) k with
          | none => rfl
          | some e =>
            obtain ⟨n, _, hn⟩ := h.child_of_stored hm hM
            rw [← Tree.mem_children, hc] at hn
            cases hn
        obtain ⟨t', hrun, hlook⟩ := deleteBucket_empty hp hl hc
        refine ⟨_, t', hrun.bind (runs_pure _ t'), ⟨true, rfl, ⟨fun _ => hempty, fun _ => rfl⟩⟩,
          h.removed_bucket hl hlook, ?_⟩
        rintro b heq _
        cases heq
        rw [hplace, hlook, if_pos rfl]
      · have hcat : root ++ [u, m] ++ r = root ++ u :: m :: r := by simp
        rw [hcat] at hfile
        obtain ⟨ns, e, _, he, _⟩ := h.only m r d hfile
        obtain ⟨n, hn, hchild⟩ := h.child_of_stored hm he
        refine ⟨_, t, (deleteBucket_full hp hl hn hchild).bind (runs_pure _ t), ⟨false, rfl, ?_⟩, h, fun _ _ heq => nomatch heq⟩
        refine ⟨fun hfalse => (nomatch hfalse), ?_⟩
        intro hnone
        rw [hnone] at he
        cases he

end Steps

theorem Act.tracks [LawfulPyFloat F] (hu : fspath (getUserPath c) = some ((root ++ [u]).map .name))
    (h : Shows F root u t M) (a : Act) (ha : a.Admitted c t) (hf : a.Fits c t) : a.Tracks F c root u t M := by
  cases a with
  | createBucket b => exact tracks_createBucket hu h ha
  | putObject b k data contentType metadata now => exact tracks_putObject hu h ha hf
  | getObject b k => exact tracks_getObject hu h ha hf
  | getObjectInfo b k => exact tracks_getObjectInfo hu h ha hf
  | objectExists b k => exact tracks_objectExists hu h ha hf
  | deleteObject b k => exact tracks_deleteObject hu h ha hf
  | listObjects b pre limit => exact tracks_listObjects hu h ha hf
  | deleteBucket b => exact tracks_deleteBucket hu h ha hf

/-! ## Runs -/

/-- Nothing is stored for the user yet. -/
structure Fresh (root : Loc Name) (u : Name) (t : Files) : Prop where
  home : ∀ l, l <+: root ++ [u] → ∀ d, t.lookup l ≠ some (.file d)
  bare : ∀ m r, t.lookup (root ++ u :: m :: r) = none

omit [ScanOrder Name Bytes] in
theorem Fresh.shows (h : Fresh root u t) : Shows F root u t ObjectMap.empty where
  home := h.home
  domain := fun _ _ _ he => nomatch he
  files := fun _ _ _ _ he => nomatch he
  only := by
    intro m r d hf
    rw [h.bare] at hf
    cases hf
  no_meta_dir := by
    intro m r n hd
    rw [h.bare] at hd
    cases hd

/-- What one operation answers and leaves, against the map. -/
def Act.Conforms (F : Type) [PyFloat F] (c : Client) (t : Files) (M : ObjectMap) (a : Act) : Prop :=
  ∃ reply : Reply F, (a.run c t).value = .ok reply ∧ M.Answers a reply ∧
    ∀ b, a = .deleteBucket b → reply = .done (some true) → (a.step F c t).lookup (bucketPlace c b) = none

theorem Act.Tracks.conforms {a : Act} (h : a.Tracks F c root u t M) : a.Conforms F c t M := by
  obtain ⟨reply, t', hrun, hans, _, hgone⟩ := h
  refine ⟨reply, hrun.1, hans, ?_⟩
  rw [Act.step, hrun.2]
  exact hgone

theorem Act.Tracks.shows {a : Act} (h : a.Tracks F c root u t M) : Shows F root u (a.step F c t) (M.next a) := by
  obtain ⟨reply, t', hrun, _, hshows, _⟩ := h
  rw [Act.step, hrun.2]
  exact hshows

theorem shows_run [LawfulPyFloat F] (hu : fspath (getUserPath c) = some ((root ++ [u]).map .name)) {acts : List Act}
    (hg : Guarded (Act.step F c) (fun t a => a.Admitted c t ∧ a.Fits c t) t acts) (h : Shows F root u t M) :
    Shows F root u (run (Act.step F c) t acts) (run ObjectMap.next M acts) := by
  induction acts generalizing t M with
  | nil => exact h
  | cons a acts ih => exact ih hg.2 (Act.tracks hu h a hg.1.1 hg.1.2).shows

/-- In a run of simple names whose steps all fit, every operation conforms to the map that the
operations before it have made. -/
theorem client_is_map [LawfulPyFloat F] (hu : fspath (getUserPath c) = some ((root ++ [u]).map .name))
    (h₀ : Fresh root u t) {acts : List Act}
    (hg : Guarded (Act.step F c) (fun t a => a.Admitted c t ∧ a.Fits c t) t acts) :
    ∀ pre a post, acts = pre ++ a :: post →
      a.Conforms F c (run (Act.step F c) t pre) (run ObjectMap.next ObjectMap.empty pre) := by
  rintro pre a post rfl
  obtain ⟨hpre, hrest⟩ := guarded_append.mp hg
  exact (Act.tracks hu (shows_run hu hpre h₀.shows) a hrest.1.1 hrest.1.2).conforms

end Client

/-! ## One user -/

section Example

attribute [local instance] plainHost listedOrder

theorem alice_home : fspath (getUserPath alice) = some (([storageDir] ++ [aliceDir]).map .name) := by decide +kernel

theorem alice_fresh : Fresh [storageDir] aliceDir (bare alice) where
  home := fun l _ d => Tree.single_no_file _ l d
  bare := by
    intro m r
    refine (Tree.lookup_single _ _).2 ?_
    intro hp
    have hlen := hp.length_le
    simp only [List.length_append, List.length_cons] at hlen
    have hbase : alice.baseLoc.length = 1 := rfl
    omega

theorem docs_simple : SimpleBucket (lit "docs") := by decide

def putDocs (key : String) : Act := .putObject (lit "docs") (lit key) [byte 7] none none 0

theorem put_first {key : String} (hk : SimpleKey (lit key)) : (putDocs key).Admitted alice (bare alice) :=
  ⟨docs_simple, hk, by decide, fun l _ d => Tree.single_no_file _ l d⟩

def aliceActs : List Act :=
  [putDocs "a", .getObjectInfo (lit "docs") (lit "a"), .listObjects (lit "docs") [] 10,
    .deleteObject (lit "docs") (lit "a"), .deleteBucket (lit "docs")]

theorem alice_is_map :
    Guarded (Act.step Unit alice) (fun t a => a.Admitted alice t ∧ a.Fits alice t) (bare alice) aliceActs ∧
      ∀ pre a post, aliceActs = pre ++ a :: post →
        a.Conforms Unit alice (run (Act.step Unit alice) (bare alice) pre) (run ObjectMap.next ObjectMap.empty pre) := by
  have ha : SimpleKey (lit "a") := by decide
  have hg : Guarded (Act.step Unit alice) (fun t a => a.Admitted alice t ∧ a.Fits alice t) (bare alice) aliceActs := by
    refine ⟨⟨put_first ha, by decide, by decide, ?_⟩, ⟨⟨docs_simple, ha⟩, Or.inr (by decide +kernel)⟩,
      ⟨docs_simple, Or.inl (by decide)⟩, ⟨⟨docs_simple, ha⟩, Or.inr (by decide +kernel)⟩,
      ⟨docs_simple, Or.inl (by decide +kernel)⟩, trivial⟩
    exact ⟨fun _ h => (by cases h), fun _ h => (by cases h)⟩
  exact ⟨hg, client_is_map alice_home alice_fresh hg⟩

def deletedBucket {F : Type} : Except (Fault PyError) (Reply F) → Option Bool
  | .ok (.done r) => r
  | _ => none

/-- Deleting a nested object leaves its directory, and the empty bucket is not deleted. -/
theorem nested_delete_keeps_bucket :
    ¬ ∀ (c : Client) (root : Loc Name) (u : Name) (t : Files),
      fspath (getUserPath c) = some ((root ++ [u]).map .name) → Fresh root u t → ∀ acts : List Act,
        Guarded (Act.step Unit c) (fun t a => a.Admitted c t) t acts → ∀ pre a post, acts = pre ++ a :: post →
          a.Conforms Unit c (run (Act.step Unit c) t pre) (run ObjectMap.next ObjectMap.empty pre) := by
  intro h
  have hab : SimpleKey (lit "a/b") := by decide
  have hg : Guarded (Act.step Unit alice) (fun t a => a.Admitted alice t) (bare alice)
      [putDocs "a/b", .deleteObject (lit "docs") (lit "a/b"), .deleteBucket (lit "docs")] :=
    ⟨put_first hab, ⟨docs_simple, hab⟩, docs_simple, trivial⟩
  obtain ⟨reply, hrun, ⟨empty, hr, hiff⟩, _⟩ := h alice _ _ _ alice_home alice_fresh _ hg
    [putDocs "a/b", .deleteObject (lit "docs") (lit "a/b")] (.deleteBucket (lit "docs")) [] rfl
  have hfalse : deletedBucket ((Act.deleteBucket (lit "docs")).run (F := Unit) alice
      (run (Act.step Unit alice) (bare alice) [putDocs "a/b", .deleteObject (lit "docs") (lit "a/b")])).value =
        some false := by decide +kernel
  rw [hrun, hr] at hfalse
  have hempty : empty = false := Option.some.inj hfalse
  rw [hempty] at hiff
  refine absurd (hiff.mpr ?_) Bool.false_ne_true
  intro k
  show (ObjectMap.remove (ObjectMap.put ObjectMap.empty _ _ _) _ _) _ k = none
  rw [ObjectMap.remove]
  split
  · rfl
  · rename_i hne
    exact if_neg hne

end Example

end IsaCloud.Storage
