import IsaCloud.Storage.Refinement

/-!
# Listing a bucket

`list_objects` walks the bucket and asks for the info of every file that is not
a metadata file. On a tree that shows a map this yields the stored keys with the
prefix, each once, up to the limit.
-/

namespace IsaCloud.Storage

set_option autoImplicit false

open Support Support.Text Support.Python Support.Encoding Support.FileTree Support.PosixPath Support.Json

variable [Host] {F : Type} [PyFloat F]

section Pure
variable {t : Files} {M : ObjectMap} {b : Str}

/-- The entry of a stored key. -/
def entryAt (M : ObjectMap) (b k : Str) : Entry := (M b k).getD ⟨[], [], Dict.empty, 0⟩

def infoAt (M : ObjectMap) (b : Str) (ns : List Name) : ObjectInfo F :=
  (entryAt M b (keyText ns)).info b (keyText ns)

/-- A file of the directory that the loop does not skip. -/
def wanted (keyPrefix : Str) (dir : List Name) (file : Name) : Bool :=
  !isMeta file && decide (keyPrefix <+: keyText (dir ++ [file]))

def wantedKeys [ScanOrder Name Bytes] (t : Files) (keyPrefix : Str) (bucket l : Loc Name) : List (List Name) :=
  ((filesIn t l).filter (wanted keyPrefix (l.drop bucket.length))).map fun f => l.drop bucket.length ++ [f]

omit [PyFloat F] [Host] in
theorem take_full {α : Type} {xs : List α} {n : Nat} (ys : List α) (h : xs.length = n) : (xs ++ ys).take n = xs := by
  rw [List.take_append_of_le_length (Nat.le_of_eq h.symm), List.take_of_length_le (Nat.le_of_eq h)]

end Pure

section Loop
variable {c : Client} {b keyPrefix : Str} {limit : Int} {t : Files} {M : ObjectMap}

/-- One step of the loop per file: skipped, or its info appended. -/
theorem listFiles_cons (dir : List Name) (file : Name) (files : List Name) (objects : List (ObjectInfo F)) :
    listFiles c b keyPrefix limit (dir.map nameText) (file :: files) objects =
      if wanted keyPrefix dir file then do
        let info ← getObjectInfo c b (keyText (dir ++ [file]))
        if limit ≤ (objects ++ info.toList).length then pure (objects ++ info.toList)
        else listFiles c b keyPrefix limit (dir.map nameText) files (objects ++ info.toList)
      else listFiles c b keyPrefix limit (dir.map nameText) files objects := by
  have hkey : text (dir.map nameText ++ [fsdecode file.bytes]) = keyText (dir ++ [file]) := by
    rw [keyText, List.map_append, List.map_singleton]
    rfl
  rw [listFiles]
  dsimp only
  rw [hkey]
  cases hm : isMeta file with
  | true => simp [wanted, hm]
  | false =>
    by_cases hp : keyPrefix <+: keyText (dir ++ [file])
    · simp [wanted, hm, hp]
    · have hne : keyPrefix ≠ [] := by
        rintro rfl
        exact hp List.nil_prefix
      simp [wanted, hm, hp, hne]

theorem listFiles_none {dir files : List Name} (h : ∀ f ∈ files, wanted keyPrefix dir f = false)
    (objects : List (ObjectInfo F)) :
    listFiles c b keyPrefix limit (dir.map nameText) files objects = pure objects := by
  induction files with
  | nil => rfl
  | cons f files ih =>
    rw [listFiles_cons, h f (List.mem_cons_self ..), if_neg Bool.false_ne_true]
    exact ih fun g hg => h g (List.mem_cons_of_mem f hg)

theorem listFiles_eval {dir files : List Name} (hlimit : 0 < limit)
    (hinfo : ∀ f ∈ files, wanted keyPrefix dir f = true →
      Runs (getObjectInfo c b (keyText (dir ++ [f]))) t (.ok (some (infoAt M b (dir ++ [f]) : ObjectInfo F))) t)
    {objects : List (ObjectInfo F)} (hlen : objects.length < limit) :
    Runs (listFiles c b keyPrefix limit (dir.map nameText) files objects) t
      (.ok ((objects ++ (files.filter (wanted keyPrefix dir)).map fun f => infoAt M b (dir ++ [f])).take limit.toNat)) t := by
  induction files generalizing objects with
  | nil =>
    rw [List.filter_nil, List.map_nil, List.append_nil, List.take_of_length_le (by omega)]
    exact runs_pure objects t
  | cons f files ih =>
    have hrest := fun g hg => hinfo g (List.mem_cons_of_mem f hg)
    rw [listFiles_cons, List.filter_cons]
    cases hw : wanted keyPrefix dir f with
    | false =>
      rw [if_neg Bool.false_ne_true, if_neg Bool.false_ne_true]
      exact ih hrest hlen
    | true =>
      rw [if_pos rfl, if_pos rfl, List.map_cons]
      refine (hinfo f (List.mem_cons_self ..) hw).bind ?_
      rw [Option.toList_some]
      rw [List.append_cons objects _ ((files.filter (wanted keyPrefix dir)).map _)]
      have hgrow : (objects ++ [infoAt M b (dir ++ [f])]).length = objects.length + 1 := by simp
      split
      · rw [take_full _ (by omega)]
        exact runs_pure _ t
      · exact ih hrest (by omega)

variable [ScanOrder Name Bytes]

/-- What the walk collects, when nothing limits it. -/
def collected (M : ObjectMap) (b keyPrefix : Str) (t : Files) (bucket : Loc Name) (ls : List (Loc Name)) :
    List (ObjectInfo F) :=
  (ls.flatMap (wantedKeys t keyPrefix bucket)).map (infoAt M b)

/-- One directory of the walk, and whether the limit is reached there. -/
def grow (M : ObjectMap) (b keyPrefix : Str) (limit : Int) (t : Files) (bucket l : Loc Name)
    (objects : List (ObjectInfo F)) : List (ObjectInfo F) × Bool :=
  ((objects ++ collected M b keyPrefix t bucket [l]).take limit.toNat,
    decide (limit ≤ ((objects ++ collected (F := F) M b keyPrefix t bucket [l]).take limit.toNat).length))

omit [PyFloat F] in
theorem foldStop_grow {bucket : Loc Name} (hlimit : 0 < limit) (ls : List (Loc Name))
    {objects : List (ObjectInfo F)} (hlen : objects.length < limit) :
    foldStop (grow M b keyPrefix limit t bucket) ls objects =
      (objects ++ collected M b keyPrefix t bucket ls).take limit.toNat := by
  induction ls generalizing objects with
  | nil =>
    rw [foldStop, collected, List.flatMap_nil, List.map_nil, List.append_nil, List.take_of_length_le (by omega)]
  | cons l ls ih =>
    have hcat : collected (F := F) M b keyPrefix t bucket (l :: ls) =
        collected M b keyPrefix t bucket [l] ++ collected M b keyPrefix t bucket ls := by
      simp [collected]
    rw [foldStop, grow, hcat, ← List.append_assoc]
    dsimp only
    split
    · rename_i hstop
      have hle := of_decide_eq_true hstop
      rw [List.length_take] at hle
      exact (List.take_append_of_le_length (by omega)).symm
    · rename_i hstop
      have hlt : ¬ limit ≤ ((objects ++ collected (F := F) M b keyPrefix t bucket [l]).take limit.toNat).length :=
        fun h => hstop (decide_eq_true h)
      rw [List.length_take] at hlt
      have hfull : (objects ++ collected (F := F) M b keyPrefix t bucket [l]).take limit.toNat =
          objects ++ collected M b keyPrefix t bucket [l] := List.take_of_length_le (by omega)
      rw [hfull]
      exact ih (by omega)

end Loop

/-! ## The walk of a bucket -/

section Bucket
variable {c : Client} {root : Loc Name} {u m : Name} {keyPrefix : Str} {limit : Int} {t : Files} {M : ObjectMap}

/-- A file below the bucket that is not a metadata file is the object of its key. -/
theorem Shows.object_of_file (h : Shows F root u t M) {dir : List Name} {f : Name} {d : Bytes}
    (hf : t.lookup (root ++ u :: m :: (dir ++ [f])) = some (.file d)) (hm : isMeta f = false) :
    GoodKey m (dir ++ [f]) ∧ ∃ e, M (nameText m) (keyText (dir ++ [f])) = some e := by
  obtain ⟨ns, e, hgood, he, hr | hr⟩ := h.only m (dir ++ [f]) d hf
  · rw [← hr] at hgood he
    exact ⟨hgood, e, he⟩
  · obtain ⟨q, n, rfl, hn, _⟩ := hgood.split
    rw [beside_concat] at hr
    have hlast := List.singleton_inj.mp (List.append_inj_right' hr rfl)
    rw [hlast, hn.isMeta_sidecar] at hm
    cases hm

/-- Everything stored in a bucket is below its directory. -/
theorem Shows.stored_file (h : Shows F root u t M) (hm : Clean m) {k : Str} {e : Entry}
    (he : M (nameText m) k = some e) :
    ∃ ns, GoodKey m ns ∧ k = keyText ns ∧ t.lookup (root ++ u :: m :: ns) = some (.file e.data) := by
  obtain ⟨_, m', ns, hgood, hb, rfl⟩ := h.domain _ _ _ he
  have hmm : m = m' := hm.inj hgood.bucket hb
  subst hmm
  exact ⟨ns, hgood, rfl, (h.files m ns e hgood he).1⟩

theorem Shows.bucket_of_stored (h : Shows F root u t M) (hm : Clean m) {k : Str} {e : Entry}
    (he : M (nameText m) k = some e) : t.isDir (root ++ [u, m]) = true := by
  obtain ⟨ns, hgood, _, hf⟩ := h.stored_file hm he
  have hcat : root ++ u :: m :: ns = (root ++ [u, m]) ++ ns := by simp
  rw [hcat] at hf
  refine Tree.isDir_of_below hgood.key_ne ?_
  rw [hf]
  rfl

theorem Shows.runs_info [LawfulPyFloat F] (h : Shows F root u t M) (hu : fspath (getUserPath c) = some ((root ++ [u]).map .name))
    (hb : SimpleBucket (nameText m)) {ns : List Name} (hk : GoodKey m ns) {e : Entry}
    (he : M (nameText m) (keyText ns) = some e) :
    Runs (getObjectInfo c (nameText m) (keyText ns) : Io (Option (ObjectInfo F))) t
      (.ok (some (e.info (nameText m) (keyText ns)))) t := by
  obtain ⟨hobj, hside⟩ := h.files m ns e hk he
  exact getObjectInfo_eval (hk.located hu hb) hobj hside (h.domain _ _ _ he).1

variable [ScanOrder Name Bytes]

omit [Host] in
theorem mem_wantedKeys {dir : List Name} {r : List Name} :
    r ∈ wantedKeys t keyPrefix (root ++ [u, m]) (root ++ [u, m] ++ dir) ↔
      ∃ f, r = dir ++ [f] ∧ (∃ d, t.lookup (root ++ u :: m :: (dir ++ [f])) = some (.file d)) ∧
        isMeta f = false ∧ keyPrefix <+: keyText r := by
  have hcat : ∀ f, root ++ [u, m] ++ dir ++ [f] = root ++ u :: m :: (dir ++ [f]) := by simp
  rw [wantedKeys, List.drop_left, List.mem_map]
  constructor
  · rintro ⟨f, hf, rfl⟩
    obtain ⟨hmem, hw⟩ := List.mem_filter.mp hf
    rw [wanted, Bool.and_eq_true, Bool.not_eq_true', decide_eq_true_eq] at hw
    rw [mem_filesIn, hcat] at hmem
    exact ⟨f, rfl, hmem, hw.1, hw.2⟩
  · rintro ⟨f, rfl, hfile, hmeta, hp⟩
    refine ⟨f, List.mem_filter.mpr ⟨?_, ?_⟩, rfl⟩
    · rw [mem_filesIn, hcat]
      exact hfile
    · rw [wanted, hmeta, decide_eq_true hp]
      rfl

/-- The keys the walk comes to, in its order. -/
def walkedKeys (t : Files) (keyPrefix : Str) (bucket : Loc Name) : List (List Name) :=
  (visit t (t.nodes.size + 1) [bucket]).flatMap (wantedKeys t keyPrefix bucket)

omit [Host] [ScanOrder Name Bytes] in
theorem ready_bucket (hd : t.isDir (root ++ [u, m]) = true) : Ready t [root ++ [u, m]] := by
  intro l hl
  rw [List.mem_singleton.mp hl]
  exact ⟨by simp, hd⟩

omit [Host] [ScanOrder Name Bytes] in
theorem bucket_fuel (l : Loc Name) : (([l] : List (Loc Name)).map (weight t)).sum ≤ t.nodes.size + 1 := by
  rw [List.map_singleton, List.sum_singleton]
  have hle := List.countP_le_length (p := fun k => decide (l <+: k)) (l := t.nodes.keys)
  rw [Dict.keys, List.length_map] at hle
  exact Nat.le_succ_of_le hle

theorem mem_walkedKeys (h : Shows F root u t M) (hd : t.isDir (root ++ [u, m]) = true) {r : List Name} :
    r ∈ walkedKeys t keyPrefix (root ++ [u, m]) ↔
      GoodKey m r ∧ (∃ e, M (nameText m) (keyText r) = some e) ∧ keyPrefix <+: keyText r := by
  rw [walkedKeys, List.mem_flatMap]
  constructor
  · rintro ⟨l, hl, hr⟩
    obtain ⟨_, l', hl', hp⟩ := (mem_visit (ready_bucket hd) (bucket_fuel _)).mp hl
    rw [List.mem_singleton.mp hl'] at hp
    obtain ⟨dir, rfl⟩ := hp
    obtain ⟨f, rfl, ⟨d, hf⟩, hmeta, hp⟩ := mem_wantedKeys.mp hr
    obtain ⟨hgood, hstored⟩ := h.object_of_file hf hmeta
    exact ⟨hgood, hstored, hp⟩
  · rintro ⟨hgood, ⟨e, he⟩, hp⟩
    have hfile := (h.files m r e hgood he).1
    obtain ⟨dir, f, rfl, _, hmeta⟩ := hgood.split
    refine ⟨root ++ [u, m] ++ dir, ?_, mem_wantedKeys.mpr ⟨f, rfl, ⟨e.data, hfile⟩, hmeta, hp⟩⟩
    refine (mem_visit (ready_bucket hd) (bucket_fuel _)).mpr ⟨?_, _, List.mem_singleton_self _, List.prefix_append _ _⟩
    have hcat : root ++ u :: m :: (dir ++ [f]) = root ++ [u, m] ++ dir ++ [f] := by simp
    rw [hcat] at hfile
    refine Tree.isDir_parent (n := f) ?_
    rw [hfile]
    rfl

omit [Host] in
theorem walkedKeys_nodup (hd : t.isDir (root ++ [u, m]) = true) :
    (walkedKeys t keyPrefix (root ++ [u, m])).Nodup := by
  have hready := ready_bucket hd
  have hvisit : (visit t (t.nodes.size + 1) [root ++ [u, m]]).Nodup :=
    visit_nodup hready (bucket_fuel _) (List.pairwise_singleton _ _)
  have hbelow : ∀ l ∈ visit t (t.nodes.size + 1) [root ++ [u, m]], ∃ dir, l = root ++ [u, m] ++ dir := by
    intro l hl
    obtain ⟨_, l', hl', hp⟩ := (mem_visit hready (bucket_fuel _)).mp hl
    rw [List.mem_singleton.mp hl'] at hp
    obtain ⟨dir, hdir⟩ := hp
    exact ⟨dir, hdir.symm⟩
  refine List.nodup_flatMap.mpr ⟨?_, ?_⟩
  · intro l _
    have hfiles : (filesIn t l).Nodup := (scan_nodup t l).filter _
    refine (hfiles.filter _).map ?_
    intro a b hab
    exact List.singleton_inj.mp (List.append_cancel_left hab)
  · refine (hvisit.imp_of_mem ?_)
    intro l l' hl hl' hne r hr hr'
    obtain ⟨dir, rfl⟩ := hbelow l hl
    obtain ⟨dir', rfl⟩ := hbelow l' hl'
    obtain ⟨f, rfl, _⟩ := mem_wantedKeys.mp hr
    obtain ⟨f', heq, _⟩ := mem_wantedKeys.mp hr'
    exact hne (by rw [List.append_inj_left' heq rfl])

omit [ScanOrder Name Bytes] in
theorem listBody_eq (l : Loc Name) (objects : List (ObjectInfo F)) (files : List Name) :
    listBody c (nameText m) keyPrefix limit ((root ++ [u, m]).map .name) (l.map .name) files objects =
      listFiles c (nameText m) keyPrefix limit ((l.drop (root ++ [u, m]).length).map nameText) files objects >>=
        fun objects => pure (objects, decide (limit ≤ objects.length)) := by
  have hdir : ((l.map Comp.name).drop ((root ++ [u, m]).map Comp.name).length).map segmentText =
      (l.drop (root ++ [u, m]).length).map nameText := by
    rw [List.length_map, ← List.map_drop, List.map_map]
    rfl
  rw [listBody, hdir]

theorem Shows.runs_wanted [LawfulPyFloat F] (h : Shows F root u t M) (hu : fspath (getUserPath c) = some ((root ++ [u]).map .name))
    (hb : SimpleBucket (nameText m)) {dir : List Name} {f : Name}
    (hf : f ∈ filesIn t (root ++ [u, m] ++ dir)) (hw : wanted keyPrefix dir f = true) :
    Runs (getObjectInfo c (nameText m) (keyText (dir ++ [f]))) t
      (.ok (some (infoAt M (nameText m) (dir ++ [f]) : ObjectInfo F))) t := by
  have hcat : root ++ [u, m] ++ dir ++ [f] = root ++ u :: m :: (dir ++ [f]) := by simp
  rw [mem_filesIn, hcat] at hf
  rw [wanted, Bool.and_eq_true, Bool.not_eq_true'] at hw
  obtain ⟨d, hd⟩ := hf
  obtain ⟨hgood, e, he⟩ := h.object_of_file hd hw.1
  have hrun := h.runs_info hu hb hgood he
  have hentry : entryAt M (nameText m) (keyText (dir ++ [f])) = e := by rw [entryAt, he, Option.getD_some]
  rw [infoAt, hentry]
  exact hrun

/-- With a positive limit the walk collects the keys it comes to, up to the limit. -/
theorem Shows.runs_walk [LawfulPyFloat F] (h : Shows F root u t M) (hu : fspath (getUserPath c) = some ((root ++ [u]).map .name))
    (hb : SimpleBucket (nameText m)) (hd : t.isDir (root ++ [u, m]) = true) (hlimit : 0 < limit) :
    Runs (walkBucket c (nameText m) keyPrefix limit ((root ++ [u, m]).map .name)) t
      (.ok (((walkedKeys t keyPrefix (root ++ [u, m])).map
        (infoAt M (nameText m) : List Name → ObjectInfo F)).take limit.toNat)) t := by
  have hbody : ∀ (dir : List Name) (objects : List (ObjectInfo F)), (objects.length : Int) < limit →
      Runs (listBody c (nameText m) keyPrefix limit ((root ++ [u, m]).map .name) ((root ++ [u, m] ++ dir).map .name)
          (filesIn t (root ++ [u, m] ++ dir)) objects) t
        (.ok (grow M (nameText m) keyPrefix limit t (root ++ [u, m]) (root ++ [u, m] ++ dir) objects)) t := by
    intro dir objects hlen
    have hinfo : ∀ f ∈ filesIn t (root ++ [u, m] ++ dir), wanted keyPrefix dir f = true →
        Runs (getObjectInfo c (nameText m) (keyText (dir ++ [f]))) t
          (.ok (some (infoAt M (nameText m) (dir ++ [f]) : ObjectInfo F))) t :=
      fun f hf hw => h.runs_wanted hu hb hf hw
    have hrun := listFiles_eval hlimit hinfo hlen
    have hgrow : ((objects ++ collected M (nameText m) keyPrefix t (root ++ [u, m])
          [root ++ [u, m] ++ dir]).take limit.toNat : List (ObjectInfo F)) =
        (objects ++ ((filesIn t (root ++ [u, m] ++ dir)).filter (wanted keyPrefix dir)).map fun f =>
          infoAt M (nameText m) (dir ++ [f])).take limit.toNat := by
      simp only [collected, List.flatMap_cons, List.flatMap_nil, List.append_nil, wantedKeys, List.drop_left,
        List.map_map]
      rfl
    rw [listBody_eq, List.drop_left, grow, hgrow]
    exact hrun.bind (runs_pure _ t)
  have hnext : ∀ (l : Loc Name) (objects : List (ObjectInfo F)), (objects.length : Int) < limit →
      (grow M (nameText m) keyPrefix limit t (root ++ [u, m]) l objects).2 = false →
      ((grow M (nameText m) keyPrefix limit t (root ++ [u, m]) l objects).1.length : Int) < limit := by
    intro l objects _ hstop
    exact Int.not_le.mp (of_decide_eq_false hstop)
  have hnil : (([] : List (ObjectInfo F)).length : Int) < limit := hlimit
  have hwalk := walk_below_eq (X := PyError) hbody hnext (t.nodes.size + 1) (ready_bucket hd) hnil
  rw [foldStop_grow hlimit _ hnil, List.nil_append] at hwalk
  exact hwalk

theorem Shows.runs_walk_none (h : Shows F root u t M) (hd : t.isDir (root ++ [u, m]) = true)
    (hnone : ∀ k e, M (nameText m) k = some e → ¬ keyPrefix <+: k) :
    Runs (walkBucket c (nameText m) keyPrefix limit ((root ++ [u, m]).map .name)) t
      (.ok ([] : List (ObjectInfo F))) t := by
  have hbody : ∀ (dir : List Name) (objects : List (ObjectInfo F)), objects = [] →
      Runs (listBody c (nameText m) keyPrefix limit ((root ++ [u, m]).map .name) ((root ++ [u, m] ++ dir).map .name)
          (filesIn t (root ++ [u, m] ++ dir)) objects) t
        (.ok (([], decide (limit ≤ 0)) : List (ObjectInfo F) × Bool)) t := by
    rintro dir objects rfl
    have hskip : ∀ f ∈ filesIn t (root ++ [u, m] ++ dir), wanted keyPrefix dir f = false := by
      intro f hf
      have hcat : root ++ [u, m] ++ dir ++ [f] = root ++ u :: m :: (dir ++ [f]) := by simp
      rw [mem_filesIn, hcat] at hf
      obtain ⟨d, hf⟩ := hf
      cases hm : isMeta f with
      | true => rw [wanted, hm, Bool.not_true, Bool.false_and]
      | false =>
        obtain ⟨_, e, he⟩ := h.object_of_file hf hm
        rw [wanted, decide_eq_false (hnone _ e he), Bool.and_false]
    rw [listBody_eq, List.drop_left, listFiles_none hskip]
    exact (runs_pure [] t).bind (runs_pure _ t)
  have hwalk := walk_below_eq (X := PyError) (S := List (ObjectInfo F)) (R := fun objects => objects = [])
    (g := fun _ _ => ([], decide (limit ≤ 0))) hbody (fun _ _ _ _ => rfl) (t.nodes.size + 1) (ready_bucket hd) rfl
  have hfold : ∀ ls : List (Loc Name), foldStop (fun (_ : Loc Name) (_ : List (ObjectInfo F)) =>
      (([] : List (ObjectInfo F)), decide (limit ≤ 0))) ls [] = [] := by
    intro ls
    induction ls with
    | nil => rfl
    | cons l ls ih =>
      rw [foldStop]
      split
      · rfl
      · exact ih
  rw [hfold] at hwalk
  exact hwalk

omit [PyFloat F] [ScanOrder Name Bytes] in
theorem lists_nil {b : Str} (hnone : ∀ k e, M b k = some e → ¬ keyPrefix <+: k) :
    Lists M b keyPrefix limit ([] : List (ObjectInfo F)) where
  nodup := List.nodup_nil
  stored := fun _ hi => nomatch hi
  bounded := Nat.zero_le _
  complete := Or.inl fun k e he hp => absurd hp (hnone k e he)

theorem Shows.lists_walked (h : Shows F root u t M) (hd : t.isDir (root ++ [u, m]) = true) (hm : Clean m) :
    Lists M (nameText m) keyPrefix limit (((walkedKeys t keyPrefix (root ++ [u, m])).map
      (infoAt M (nameText m) : List Name → ObjectInfo F)).take limit.toNat) := by
  have hkeys : ((walkedKeys t keyPrefix (root ++ [u, m])).map
      (infoAt M (nameText m) : List Name → ObjectInfo F)).map ObjectInfo.key =
        (walkedKeys t keyPrefix (root ++ [u, m])).map keyText := by
    rw [List.map_map]
    rfl
  refine ⟨?_, ?_, List.length_take_le _ _, ?_⟩
  · rw [List.map_take, hkeys]
    refine ((walkedKeys_nodup hd).map_on ?_).sublist (List.take_sublist _ _)
    intro r hr r' hr' heq
    obtain ⟨hgood, _⟩ := (mem_walkedKeys h hd).mp hr
    obtain ⟨hgood', _⟩ := (mem_walkedKeys h hd).mp hr'
    exact keyText_inj hgood.names hgood'.names hgood.key_ne hgood'.key_ne heq
  · intro i hi
    obtain ⟨r, hr, rfl⟩ := List.mem_map.mp (List.mem_of_mem_take hi)
    obtain ⟨_, ⟨e, he⟩, hp⟩ := (mem_walkedKeys h hd).mp hr
    refine ⟨e, he, hp, ?_⟩
    show infoAt M (nameText m) r = e.info (nameText m) (keyText r)
    rw [infoAt, entryAt, he, Option.getD_some]
  · by_cases hlen : (walkedKeys t keyPrefix (root ++ [u, m])).length ≤ limit.toNat
    · rw [List.take_of_length_le (by rw [List.length_map]; exact hlen), hkeys]
      refine Or.inl ?_
      intro k e he hp
      obtain ⟨ns, hgood, rfl, _⟩ := h.stored_file hm he
      exact List.mem_map_of_mem ((mem_walkedKeys h hd).mpr ⟨hgood, ⟨e, he⟩, hp⟩)
    · refine Or.inr ?_
      rw [List.length_take, List.length_map]
      omega

/-- On a tree that shows a map, `list_objects` lists the map. -/
theorem Shows.runs_list [LawfulPyFloat F] (h : Shows F root u t M) (hu : fspath (getUserPath c) = some ((root ++ [u]).map .name))
    (hb : SimpleBucket (nameText m)) (hm : Clean m)
    (hlimit : 0 < limit ∨ ∀ k e, M (nameText m) k = some e → ¬ keyPrefix <+: k) :
    ∃ infos : List (ObjectInfo F), Runs (listObjects c (nameText m) keyPrefix limit) t (.ok infos) t ∧
      Lists M (nameText m) keyPrefix limit infos := by
  have hp := fspath_bucket hu hb hm.named
  have hex := runs_pathExists hp t
  cases hl : t.lookup (root ++ [u, m]) with
  | none =>
    rw [hl] at hex
    refine ⟨[], (hex.bind (runs_pure [] t)).handle_ok, lists_nil ?_⟩
    intro k e he
    have hdir := h.bucket_of_stored hm he
    rw [Tree.isDir_iff, hl] at hdir
    cases hdir
  | some node =>
    cases node with
    | file d => exact absurd hl (h.bucket_free m _ List.prefix_rfl d)
    | dir =>
      rw [hl] at hex
      have hd := Tree.isDir_iff.mpr hl
      rcases hlimit with hlimit | hnone
      · refine ⟨_, (hex.bind ?_).handle_ok, h.lists_walked hd hm⟩
        rw [onPath_names hp]
        exact h.runs_walk hu hb hd hlimit
      · refine ⟨[], (hex.bind ?_).handle_ok, lists_nil hnone⟩
        rw [onPath_names hp]
        exact h.runs_walk_none hd hnone

end Bucket

end IsaCloud.Storage
