import IsaCloud.Support.FileTree

/-!
# What file system programs leave behind

A program changes nothing it has not touched. `makeDirs` succeeds unless a file
is in the way, and then exactly the places its path passes are new directories.
-/

namespace Support.FileTree

set_option autoImplicit false

variable {N D X : Type} [DecidableEq N] {α β : Type}

/-! ## The frame -/

def Framed (m : FileM N D X α) : Prop := ∀ t l, l ∉ (m t).touched → (m t).tree.lookup l = t.lookup l

theorem framed_pure (a : α) : Framed (pure a : FileM N D X α) := fun _ _ _ => rfl

theorem framed_raise (e : Fault X) : Framed (FileM.raise e : FileM N D X α) := fun _ _ _ => rfl

theorem framed_bind {m : FileM N D X α} {f : α → FileM N D X β} (hm : Framed m) (hf : ∀ a, Framed (f a)) :
    Framed (m >>= f) := by
  intro t l hl
  change l ∉ (FileM.bind m f t).touched at hl
  show (FileM.bind m f t).tree.lookup l = t.lookup l
  rw [FileM.bind] at hl ⊢
  cases hv : (m t).value with
  | error e =>
    simp only [hv] at hl ⊢
    exact hm t l hl
  | ok a =>
    simp only [hv, List.mem_append, not_or] at hl ⊢
    rw [hf a (m t).tree l hl.2, hm t l hl.1]

theorem framed_handle {m : FileM N D X α} {h : Fault X → FileM N D X α} (hm : Framed m)
    (hh : ∀ e, Framed (h e)) : Framed (FileM.handle m h) := by
  intro t l hl
  rw [FileM.handle] at hl ⊢
  cases hv : (m t).value with
  | ok a =>
    simp only [hv] at hl ⊢
    exact hm t l hl
  | error e =>
    simp only [hv, List.mem_append, not_or] at hl ⊢
    rw [hh e (m t).tree l hl.2, hm t l hl.1]

theorem framed_isDirectory (p : List (Comp N)) : Framed (FileM.isDirectory p : FileM N D X Bool) := by
  intro t l _
  rw [FileM.isDirectory]
  cases locate t p <;> rfl

theorem framed_call {p : List (Comp N)} {act : Loc N → Tree N D → Except Errno (α × Tree N D)}
    (hact : ∀ t l a t', act l t = .ok (a, t') → ∀ m, m ≠ l → t'.lookup m = t.lookup m) :
    Framed (FileM.call p act : FileM N D X α) := by
  intro t m hm
  rw [FileM.call] at hm ⊢
  cases hl : locate t p with
  | error e => rfl
  | ok l =>
    simp only [hl] at hm ⊢
    cases ha : act l t with
    | error e => rfl
    | ok r =>
      simp only [ha, List.mem_singleton] at hm ⊢
      exact hact t l r.1 r.2 ha m hm

theorem framed_mkdir (p : List (Comp N)) : Framed (FileM.mkdir p : FileM N D X Unit) := by
  refine framed_call ?_
  intro t l a t' h m hm
  split at h
  · cases h
  · split at h
    · cases h
      rename_i hs
      rw [Tree.lookup_store hs, if_neg hm]
    · cases h

theorem framed_ensureDir (p : List (Comp N)) : Framed (FileM.ensureDir p : FileM N D X Unit) := by
  refine framed_handle (framed_mkdir p) ?_
  intro e
  split
  · exact framed_raise _
  · refine framed_bind (framed_isDirectory p) ?_
    intro b
    cases b with
    | true => exact framed_pure ()
    | false => exact framed_raise _
  · exact framed_raise _

theorem framed_makeDirs (p : List (Comp N)) : Framed (FileM.makeDirs p : FileM N D X Unit) := by
  rw [FileM.makeDirs]
  induction p.reverse with
  | nil => exact framed_ensureDir []
  | cons c rest ih =>
    rw [FileM.makeDirsRev]
    refine framed_handle (framed_mkdir _) ?_
    intro e
    split
    · exact framed_bind ih fun _ => framed_ensureDir _
    · refine framed_bind (framed_isDirectory _) ?_
      intro b
      cases b with
      | true => exact framed_pure ()
      | false => exact framed_raise _
    · exact framed_raise _

theorem touched_bind {m : FileM N D X α} {f : α → FileM N D X β} {t : Tree N D} {l : Loc N}
    (h : l ∈ (m t).touched) : l ∈ ((m >>= f) t).touched := by
  show l ∈ (FileM.bind m f t).touched
  rw [FileM.bind]
  split
  · exact List.mem_append_left _ h
  · exact h

theorem touched_handle {m : FileM N D X α} {f : Fault X → FileM N D X α} {t : Tree N D} {l : Loc N}
    (h : l ∈ (m t).touched) : l ∈ (FileM.handle m f t).touched := by
  rw [FileM.handle]
  split
  · exact h
  · exact List.mem_append_left _ h

/-! ## Value and tree of a run -/

/-- The program returns this and leaves that tree. -/
def Runs (m : FileM N D X α) (t : Tree N D) (v : Except (Fault X) α) (t' : Tree N D) : Prop :=
  (m t).value = v ∧ (m t).tree = t'

theorem runs_of_eq {m : FileM N D X α} {t t' : Tree N D} {v : Except (Fault X) α} {ls : List (Loc N)}
    (h : m t = ⟨v, t', ls⟩) : Runs m t v t' := by
  rw [Runs, h]
  exact ⟨rfl, rfl⟩

theorem runs_pure (a : α) (t : Tree N D) : Runs (pure a : FileM N D X α) t (.ok a) t := ⟨rfl, rfl⟩

theorem Runs.bind {m : FileM N D X α} {f : α → FileM N D X β} {t t' t'' : Tree N D} {a : α}
    {v : Except (Fault X) β} (h : Runs m t (.ok a) t') (hf : Runs (f a) t' v t'') : Runs (m >>= f) t v t'' := by
  obtain ⟨hv, rfl⟩ := h
  show (FileM.bind m f t).value = v ∧ (FileM.bind m f t).tree = t''
  rw [FileM.bind, hv]
  exact hf

theorem Runs.bind_error {m : FileM N D X α} {f : α → FileM N D X β} {t t' : Tree N D} {e : Fault X}
    (h : Runs m t (.error e) t') : Runs (m >>= f) t (.error e) t' := by
  obtain ⟨hv, rfl⟩ := h
  show (FileM.bind m f t).value = .error e ∧ (FileM.bind m f t).tree = (m t).tree
  rw [FileM.bind, hv]
  exact ⟨rfl, rfl⟩

theorem Runs.handle_ok {m : FileM N D X α} {h : Fault X → FileM N D X α} {t t' : Tree N D} {a : α}
    (hm : Runs m t (.ok a) t') : Runs (FileM.handle m h) t (.ok a) t' := by
  obtain ⟨hv, rfl⟩ := hm
  rw [Runs, FileM.handle, hv]
  exact ⟨rfl, rfl⟩

theorem Runs.handle_raised {m : FileM N D X α} {h : Fault X → FileM N D X α} {t t' t'' : Tree N D} {e : Fault X}
    {v : Except (Fault X) α} (hm : Runs m t (.error e) t') (hh : Runs (h e) t' v t'') :
    Runs (FileM.handle m h) t v t'' := by
  obtain ⟨hv, rfl⟩ := hm
  rw [Runs, FileM.handle, hv]
  exact hh

/-! ## The places a path passes -/

def Passes (p : List (Comp N)) (l : Loc N) : Prop := ∃ q, q <+: p ∧ norm q = l

omit [DecidableEq N] in
theorem passes_self (p : List (Comp N)) : Passes p (norm p) := ⟨p, List.prefix_rfl, rfl⟩

omit [DecidableEq N] in
theorem passes_concat {p : List (Comp N)} {c : Comp N} {l : Loc N} :
    Passes (p ++ [c]) l ↔ Passes p l ∨ l = norm (p ++ [c]) := by
  constructor
  · rintro ⟨q, hq, rfl⟩
    rcases List.prefix_concat_iff.mp hq with rfl | hq
    · exact Or.inr rfl
    · exact Or.inl ⟨q, hq, rfl⟩
  · rintro (⟨q, hq, rfl⟩ | rfl)
    · exact ⟨q, hq.trans (List.prefix_append _ _), rfl⟩
    · exact passes_self _

omit [DecidableEq N] in
/-- A path passes everything above the place it leads to. -/
theorem passes_above {p : List (Comp N)} {l : Loc N} (h : l <+: norm p) : Passes p l := by
  induction p using List.reverseRecOn with
  | nil =>
    rw [norm_nil, List.prefix_nil] at h
    exact ⟨[], List.prefix_rfl, h.symm⟩
  | append_singleton p c ih =>
    rw [passes_concat]
    rw [norm_concat] at h
    cases c with
    | up => exact Or.inl (ih (h.trans (List.dropLast_prefix _)))
    | name n =>
      rcases List.prefix_concat_iff.mp h with h | h
      · refine Or.inr ?_
        rw [norm_concat]
        exact h
      · exact Or.inl (ih h)

omit [DecidableEq N] in
theorem passes_names {m l : Loc N} : Passes (m.map .name) l ↔ l <+: m := by
  constructor
  · rintro ⟨q, hq, rfl⟩
    obtain ⟨r, hr, rfl⟩ := List.prefix_map_iff.mp hq
    rwa [norm_names]
  · intro h
    exact passes_above (by rwa [norm_names])

/-! ## Following a path through directories -/

theorem locate_of_dirs {t : Tree N D} {p : List (Comp N)} {c : Comp N}
    (h : ∀ l, Passes p l → t.isDir l = true) : locate t (p ++ [c]) = .ok (norm (p ++ [c])) := by
  induction p using List.reverseRecOn generalizing c with
  | nil =>
    refine locate_concat_ok rfl ?_
    exact h [] (passes_self [])
  | append_singleton p d ih =>
    have hp : ∀ l, Passes p l → t.isDir l = true := fun l hl => h l (passes_concat.mpr (Or.inl hl))
    exact locate_concat_ok (ih hp) (h _ (passes_self _))

/-- Every place passed before the last one is a directory if the path can be followed. -/
theorem dirs_of_locate {t : Tree N D} {p : List (Comp N)} {c : Comp N} {l : Loc N}
    (h : locate t (p ++ [c]) = .ok l) : ∀ m, Passes p m → t.isDir m = true := by
  induction p using List.reverseRecOn generalizing c l with
  | nil =>
    rintro m ⟨q, hq, rfl⟩
    rw [List.prefix_nil.mp hq]
    rfl
  | append_singleton p d ih =>
    obtain ⟨hp, hd⟩ := locate_concat_inv h
    intro m hm
    rcases passes_concat.mp hm with hm | rfl
    · exact ih hp m hm
    · exact hd

/-- Without a file in the way a path fails only because something is missing. -/
theorem locate_error {t : Tree N D} {p : List (Comp N)} {e : Errno} (h : locate t p = .error e)
    (hfree : ∀ l, Passes p l → ∀ d, t.lookup l ≠ some (.file d)) : e = .enoent := by
  induction p using List.reverseRecOn with
  | nil => cases h
  | append_singleton p c ih =>
    rw [locate_concat] at h
    cases hp : locate t p with
    | error e' =>
      rw [hp] at h
      cases h
      exact ih hp fun l hl => hfree l (passes_concat.mpr (Or.inl hl))
    | ok l =>
      rw [hp] at h
      have hl := locate_eq_norm hp
      change follow t l c = .error e at h
      rw [follow] at h
      cases hn : t.lookup l with
      | none =>
        rw [hn] at h
        cases h
        rfl
      | some node =>
        rw [hn] at h
        cases node with
        | dir => cases h
        | file d =>
          rw [hl] at hn
          exact absurd hn (hfree (norm p) (passes_concat.mpr (Or.inl (passes_self p))) d)

theorem storable_of_locate {t : Tree N D} {p : List (Comp N)} {l : Loc N} (h : locate t p = .ok l)
    (hn : t.lookup l = none) (node : Node D) : t.Storable l node := by
  have hl := locate_eq_norm h
  subst hl
  have hroot : norm p ≠ [] := by
    intro hr
    rw [hr, Tree.lookup_root] at hn
    cases hn
  refine ⟨hroot, ?_, Or.inr ?_⟩
  · rcases List.eq_nil_or_concat p with rfl | ⟨q, c, rfl⟩
    · exact absurd rfl hroot
    · rw [List.concat_eq_append] at h hn hroot ⊢
      obtain ⟨hq, hd⟩ := locate_concat_inv h
      cases c with
      | up =>
        rw [norm_concat, enter] at hn
        have := Tree.isDir_iff.mp (isDir_above (List.dropLast_prefix (norm q)) hd)
        rw [hn] at this
        cases this
      | name n =>
        rw [norm_concat, enter, List.dropLast_concat]
        exact hd
  · rw [List.eq_nil_iff_forall_not_mem]
    intro n hmem
    have hd := Tree.isDir_iff.mp (Tree.isDir_parent (Tree.mem_children.mp hmem))
    rw [hn] at hd
    cases hd

/-! ## Making directories -/

section Make
variable {t : Tree N D} {p : List (Comp N)}

theorem mkdir_error {e : Errno} (h : locate t p = .error e) :
    (FileM.mkdir p : FileM N D X Unit) t = ⟨.error (.os e), t, []⟩ := by
  rw [FileM.mkdir, FileM.call, h]

theorem mkdir_exists (h : locate t p = .ok (norm p)) (hs : (t.lookup (norm p)).isSome) :
    (FileM.mkdir p : FileM N D X Unit) t = ⟨.error (.os .eexist), t, []⟩ := by
  rw [FileM.mkdir, FileM.call, h]
  simp only [hs, if_true]

theorem mkdir_new (h : locate t p = .ok (norm p)) (hn : t.lookup (norm p) = none) :
    (FileM.mkdir p : FileM N D X Unit) t =
      ⟨.ok (), t.store (norm p) .dir (storable_of_locate h hn .dir), [norm p]⟩ := by
  rw [FileM.mkdir, FileM.call, h]
  simp only [hn, Option.isSome_none, Bool.false_eq_true, if_false,
    dif_pos (storable_of_locate h hn (.dir : Node D))]

theorem isDirectory_of_dir (h : locate t p = .ok (norm p)) (hd : t.isDir (norm p) = true) :
    (FileM.isDirectory p : FileM N D X Bool) t = ⟨.ok true, t, []⟩ := by
  rw [FileM.isDirectory, h]
  simp only [hd]

/-- The directory is there afterwards and nothing else has changed. -/
def MadeDir (t : Tree N D) (l : Loc N) (r : Outcome N D X Unit) : Prop :=
  r.value = .ok () ∧ ∀ m, r.tree.lookup m = if m = l then some .dir else t.lookup m

theorem madeDir_same {l : Loc N} (hd : t.isDir l = true) : MadeDir t l (⟨.ok (), t, []⟩ : Outcome N D X Unit) := by
  refine ⟨rfl, ?_⟩
  intro m
  by_cases hm : m = l
  · rw [if_pos hm, hm]
    exact Tree.isDir_iff.mp hd
  · rw [if_neg hm]

theorem madeDir_store {l : Loc N} (hs : t.Storable l .dir) :
    MadeDir t l (⟨.ok (), t.store l .dir hs, [l]⟩ : Outcome N D X Unit) :=
  ⟨rfl, fun m => Tree.lookup_store hs m⟩

theorem isDir_or_none (hfile : ∀ d, t.lookup (norm p) ≠ some (.file d)) :
    t.isDir (norm p) = true ∨ t.lookup (norm p) = none := by
  cases hn : t.lookup (norm p) with
  | none => exact Or.inr rfl
  | some node =>
    cases node with
    | dir => exact Or.inl (Tree.isDir_iff.mpr hn)
    | file d => exact absurd hn (hfile d)

theorem ensureDir_spec (h : locate t p = .ok (norm p)) (hfile : ∀ d, t.lookup (norm p) ≠ some (.file d)) :
    MadeDir t (norm p) ((FileM.ensureDir p : FileM N D X Unit) t) := by
  rw [FileM.ensureDir, FileM.handle]
  rcases isDir_or_none hfile with hd | hn
  · have hs : (t.lookup (norm p)).isSome := by
      rw [Tree.isDir_iff.mp hd]
      rfl
    rw [mkdir_exists h hs]
    dsimp only [bind, FileM.bind]
    rw [isDirectory_of_dir h hd]
    exact madeDir_same hd
  · rw [mkdir_new h hn]
    exact madeDir_store (storable_of_locate h hn .dir)

theorem makeDirs_concat (p : List (Comp N)) (c : Comp N) :
    (FileM.makeDirs (p ++ [c]) : FileM N D X Unit) =
      FileM.handle (FileM.mkdir (p ++ [c])) fun
        | .os .enoent => do
          FileM.makeDirs p
          FileM.ensureDir (p ++ [c])
        | .os e => do if ← FileM.isDirectory (p ++ [c]) then pure () else FileM.raise (.os e)
        | e => FileM.raise e := by
  rw [FileM.makeDirs, List.reverse_append, List.reverse_singleton, List.singleton_append, FileM.makeDirsRev,
    List.reverse_cons, List.reverse_reverse]
  rfl

/-- Unless a file is in the way, the places passed become directories and nothing else changes. -/
theorem makeDirs_spec (hfree : ∀ l, Passes p l → ∀ d, t.lookup l ≠ some (.file d)) :
    ((FileM.makeDirs p : FileM N D X Unit) t).value = .ok () ∧
      ∀ l, (Passes p l → ((FileM.makeDirs p : FileM N D X Unit) t).tree.lookup l = some .dir) ∧
        (¬ Passes p l → ((FileM.makeDirs p : FileM N D X Unit) t).tree.lookup l = t.lookup l) := by
  induction p using List.reverseRecOn with
  | nil =>
    have hspec := ensureDir_spec (X := X) (t := t) (p := []) rfl (fun d => hfree _ (passes_self []) d)
    refine ⟨hspec.1, ?_⟩
    intro l
    have hl := hspec.2 l
    refine ⟨?_, ?_⟩
    · rintro ⟨q, hq, rfl⟩
      rw [List.prefix_nil.mp hq] at hl ⊢
      rwa [if_pos rfl] at hl
    · intro hp
      have hne : l ≠ [] := fun hl => hp (hl ▸ passes_self [])
      rwa [norm_nil, if_neg hne] at hl
  | append_singleton p c ih =>
    have hp : ∀ l, Passes p l → ∀ d, t.lookup l ≠ some (.file d) :=
      fun l hl => hfree l (passes_concat.mpr (Or.inl hl))
    have hself := hfree (norm (p ++ [c])) (passes_self _)
    -- what one made directory says about all the places passed
    have hdone : ∀ (t' : Tree N D) (r : Outcome N D X Unit),
        (∀ l, (Passes p l → t'.lookup l = some .dir) ∧ (¬ Passes p l → t'.lookup l = t.lookup l)) →
        MadeDir t' (norm (p ++ [c])) r → r.value = .ok () ∧
          ∀ l, (Passes (p ++ [c]) l → r.tree.lookup l = some .dir) ∧
            (¬ Passes (p ++ [c]) l → r.tree.lookup l = t.lookup l) := by
      intro t' r ht' hr
      refine ⟨hr.1, ?_⟩
      intro l
      rw [hr.2 l, passes_concat, not_or]
      by_cases hl : l = norm (p ++ [c])
      · rw [if_pos hl]
        exact ⟨fun _ => rfl, fun h => absurd hl h.2⟩
      · rw [if_neg hl]
        exact ⟨fun h => (ht' l).1 (h.resolve_right hl), fun h => (ht' l).2 h.1⟩
    rw [makeDirs_concat, FileM.handle]
    cases hloc : locate t (p ++ [c]) with
    | ok l =>
      have hl := locate_eq_norm hloc
      subst hl
      have hdirs : ∀ l, (Passes p l → t.lookup l = some .dir) ∧ (¬ Passes p l → t.lookup l = t.lookup l) :=
        fun l => ⟨fun h => Tree.isDir_iff.mp (dirs_of_locate hloc l h), fun _ => rfl⟩
      rcases isDir_or_none hself with hd | hn
      · have hs : (t.lookup (norm (p ++ [c]))).isSome := by
          rw [Tree.isDir_iff.mp hd]
          rfl
        rw [mkdir_exists hloc hs]
        dsimp only [bind, FileM.bind]
        rw [isDirectory_of_dir hloc hd]
        exact hdone t _ hdirs (madeDir_same hd)
      · rw [mkdir_new hloc hn]
        exact hdone t _ hdirs (madeDir_store (storable_of_locate hloc hn .dir))
    | error e =>
      have he := locate_error hloc hfree
      subst he
      rw [mkdir_error hloc]
      obtain ⟨hv, ht'⟩ := ih hp
      dsimp only [bind, FileM.bind]
      rw [hv]
      refine hdone _ _ ht' ?_
      refine ensureDir_spec (locate_of_dirs fun l hl => Tree.isDir_iff.mpr ((ht' l).1 hl)) ?_
      intro d hd
      by_cases hpass : Passes p (norm (p ++ [c]))
      · rw [(ht' _).1 hpass] at hd
        cases hd
      · rw [(ht' _).2 hpass] at hd
        exact hself d hd

/-- A directory on the way that was not there is made. -/
theorem touched_makeDirs (hfree : ∀ l, Passes p l → ∀ d, t.lookup l ≠ some (.file d)) {l : Loc N}
    (hp : Passes p l) (hn : t.lookup l = none) : l ∈ ((FileM.makeDirs p : FileM N D X Unit) t).touched := by
  by_contra hl
  have hsame := framed_makeDirs (X := X) p t l hl
  rw [(makeDirs_spec hfree).2 l |>.1 hp, hn] at hsame
  cases hsame

end Make

/-! ## Calls on a location

A path of names only leads to the location it spells. -/

section Locations
variable {t : Tree N D} {l : Loc N}

theorem locate_names (h : t.isDir l.dropLast = true) : locate t (l.map .name) = .ok l := by
  rcases List.eq_nil_or_concat l with rfl | ⟨m, n, rfl⟩
  · rfl
  · rw [List.concat_eq_append] at h ⊢
    rw [List.dropLast_concat] at h
    have hl := locate_of_dirs (t := t) (p := m.map .name) (c := .name n) fun k hk =>
      isDir_above (passes_names.mp hk) h
    have hmap : (m.map Comp.name ++ [.name n] : List (Comp N)) = (m ++ [n]).map .name := by
      rw [List.map_append, List.map_singleton]
    rwa [hmap, norm_names] at hl

theorem isDir_dropLast (h : (t.lookup l).isSome) : t.isDir l.dropLast = true := by
  rcases List.eq_nil_or_concat l with rfl | ⟨m, n, rfl⟩
  · rfl
  · rw [List.concat_eq_append] at h ⊢
    rw [List.dropLast_concat]
    exact Tree.isDir_parent h

theorem present_names (t : Tree N D) (l : Loc N) :
    (FileM.present (l.map .name) : FileM N D X Bool) t = ⟨.ok (t.lookup l).isSome, t, []⟩ := by
  rw [FileM.present]
  cases hs : t.lookup l with
  | some node =>
    have hsome : (t.lookup l).isSome := by
      rw [hs]
      rfl
    simp only [locate_names (isDir_dropLast hsome), hs]
  | none =>
    cases hl : locate t (l.map .name) with
    | error e => rfl
    | ok m =>
      have hm := locate_eq_norm hl
      rw [norm_names] at hm
      subst hm
      simp only [hs]

theorem call_names {act : Loc N → Tree N D → Except Errno (α × Tree N D)} (h : t.isDir l.dropLast = true)
    {a : α} {t' : Tree N D} (ha : act l t = .ok (a, t')) :
    (FileM.call (l.map .name) act : FileM N D X α) t = ⟨.ok a, t', [l]⟩ := by
  rw [FileM.call, locate_names h]
  simp only [ha]

theorem call_names_error {act : Loc N → Tree N D → Except Errno (α × Tree N D)} (h : t.isDir l.dropLast = true)
    {e : Errno} (ha : act l t = .error e) :
    (FileM.call (l.map .name) act : FileM N D X α) t = ⟨.error (.os e), t, []⟩ := by
  rw [FileM.call, locate_names h]
  simp only [ha]

theorem isDir_dropLast_of_lookup {node : Node D} (h : t.lookup l = some node) : t.isDir l.dropLast = true := by
  refine isDir_dropLast ?_
  rw [h]
  rfl

theorem children_file {d : D} (h : t.lookup l = some (.file d)) : t.children l = [] := by
  rw [List.eq_nil_iff_forall_not_mem]
  intro n hn
  have hd := Tree.isDir_iff.mp (Tree.isDir_parent (Tree.mem_children.mp hn))
  rw [h] at hd
  cases hd

theorem makeDirs_names (hfree : ∀ m, m <+: l → ∀ d, t.lookup m ≠ some (.file d)) :
    ∃ t', Runs (FileM.makeDirs (l.map .name) : FileM N D X Unit) t (.ok ()) t' ∧
      ∀ m, t'.lookup m = if m <+: l then some .dir else t.lookup m := by
  have hspec := makeDirs_spec (X := X) (t := t) (p := l.map .name) fun m hm => hfree m (passes_names.mp hm)
  refine ⟨((FileM.makeDirs (l.map .name) : FileM N D X Unit) t).tree, ⟨hspec.1, rfl⟩, ?_⟩
  intro m
  have hm := hspec.2 m
  rw [passes_names] at hm
  by_cases hp : m <+: l
  · rw [if_pos hp, hm.1 hp]
  · rw [if_neg hp, hm.2 hp]

theorem runs_present (t : Tree N D) (l : Loc N) :
    Runs (FileM.present (l.map .name) : FileM N D X Bool) t (.ok (t.lookup l).isSome) t := by
  rw [Runs, present_names]
  exact ⟨rfl, rfl⟩

theorem read_file {d : D} (h : t.lookup l = some (.file d)) :
    (FileM.read (l.map .name) : FileM N D X D) t = ⟨.ok d, t, [l]⟩ :=
  call_names (isDir_dropLast_of_lookup h) (by simp only [h])

theorem read_dir (h : t.lookup l = some .dir) :
    (FileM.read (l.map .name) : FileM N D X D) t = ⟨.error (.os .eisdir), t, []⟩ :=
  call_names_error (isDir_dropLast_of_lookup h) (by simp only [h])

theorem unlink_file {d : D} (h : t.lookup l = some (.file d)) :
    (FileM.unlink (l.map .name) : FileM N D X Unit) t = ⟨.ok (), t.erase l (children_file h), [l]⟩ :=
  call_names (isDir_dropLast_of_lookup h) (by simp only [h, dif_pos (children_file h)])

theorem storable_file (h : t.isDir l.dropLast = true) (hl : l ≠ []) (hd : t.isDir l = false) (node : Node D) :
    t.Storable l node := by
  refine ⟨hl, h, Or.inr ?_⟩
  rw [List.eq_nil_iff_forall_not_mem]
  intro n hn
  have hdir := Tree.isDir_parent (Tree.mem_children.mp hn)
  rw [hd] at hdir
  cases hdir

theorem write_file (h : t.isDir l.dropLast = true) (hl : l ≠ []) (hd : t.isDir l = false) (d : D) :
    (FileM.write (l.map .name) d : FileM N D X Unit) t =
      ⟨.ok (), t.store l (.file d) (storable_file h hl hd _), [l]⟩ :=
  call_names h (by
    rw [if_neg (by rw [hd]; exact Bool.false_ne_true), dif_pos (storable_file h hl hd (.file d))])

theorem rmdir_empty (h : t.lookup l = some .dir) (hl : l ≠ []) (hc : t.children l = []) :
    (FileM.rmdir (l.map .name) : FileM N D X Unit) t = ⟨.ok (), t.erase l hc, [l]⟩ :=
  call_names (isDir_dropLast_of_lookup h) (by simp only [if_neg hl, h, dif_pos hc])

theorem scandir_dir [ScanOrder N D] (h : t.lookup l = some .dir) :
    (FileM.scandir (l.map .name) : FileM N D X _) t =
      ⟨.ok ((ScanOrder.scan t l).filterMap fun n => (t.lookup (l ++ [n])).map fun node => (n, node)), t, [l]⟩ :=
  call_names (isDir_dropLast_of_lookup h) (by simp only [h])

theorem entries_dir [ScanOrder N D] (h : t.lookup l = some .dir) :
    (FileM.entries (l.map .name) : FileM N D X _) t =
      ⟨.ok (some ((ScanOrder.scan t l).filterMap fun n => (t.lookup (l ++ [n])).map fun node => (n, node))),
        t, [l]⟩ := by
  rw [FileM.entries]
  refine FileM.handle_ok ?_
  rw [FileM.bind_ok (scandir_dir h)]
  rfl

end Locations

/-! ## The tree of one directory -/

namespace Tree

def empty : Tree N D where
  nodes := Dict.empty
  rootless := rfl
  parents := fun _ _ h => nomatch h

theorem lookup_empty {l : Loc N} (h : l ≠ []) : (empty : Tree N D).lookup l = none := if_neg h

/-- Only the directory and those above it. -/
def single (base : Loc N) : Tree N D := ((FileM.makeDirs (base.map .name) : FileM N D Unit Unit) empty).tree

theorem lookup_single (base l : Loc N) :
    (l <+: base → (single base : Tree N D).lookup l = some .dir) ∧
      (¬ l <+: base → (single base : Tree N D).lookup l = none) := by
  have hfree : ∀ l, Passes (base.map .name) l → ∀ d, (empty : Tree N D).lookup l ≠ some (.file d) := by
    intro l _ d
    by_cases hl : l = []
    · rw [hl, lookup_root]
      exact fun h => nomatch h
    · rw [lookup_empty hl]
      exact fun h => nomatch h
  have hspec := (makeDirs_spec (X := Unit) hfree).2 l
  rw [passes_names] at hspec
  refine ⟨hspec.1, ?_⟩
  intro hl
  have hne : l ≠ [] := fun h => hl (h ▸ List.nil_prefix)
  exact (hspec.2 hl).trans (lookup_empty hne)

theorem isDir_single (base : Loc N) : (single base : Tree N D).isDir base = true :=
  isDir_iff.mpr ((lookup_single base base).1 List.prefix_rfl)

theorem single_no_file (base l : Loc N) (d : D) : (single base : Tree N D).lookup l ≠ some (.file d) := by
  by_cases hl : l <+: base
  · rw [(lookup_single base l).1 hl]
    exact fun h => nomatch h
  · rw [(lookup_single base l).2 hl]
    exact fun h => nomatch h

end Tree

end Support.FileTree
