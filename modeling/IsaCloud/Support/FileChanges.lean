import IsaCloud.Support.FileSpecs

/-!
# What a file system program does whatever happens

A program respects a relation between trees if it leaves a tree related to the one
it found, also when it fails half way. Making directories only grows the tree:
nothing that was there changes. One that has run can be taken apart: either its
first part succeeded and the rest ran on the tree that left, or it failed there.
-/

namespace Support.FileTree

set_option autoImplicit false

variable {N D X : Type} [DecidableEq N] {α β : Type}

/-! ## Relations between trees -/

def Respects (R : Tree N D → Tree N D → Prop) (m : FileM N D X α) : Prop := ∀ t, R t (m t).tree

section Respects
variable {R : Tree N D → Tree N D → Prop}

theorem respects_pure (hrefl : ∀ t, R t t) (a : α) : Respects R (pure a : FileM N D X α) := fun t => hrefl t

theorem respects_raise (hrefl : ∀ t, R t t) (e : Fault X) : Respects R (FileM.raise e : FileM N D X α) :=
  fun t => hrefl t

theorem respects_bind (htrans : ∀ t t' t'', R t t' → R t' t'' → R t t'') {m : FileM N D X α} {f : α → FileM N D X β}
    (hm : Respects R m) (hf : ∀ a, Respects R (f a)) : Respects R (m >>= f) := by
  intro t
  show R t (FileM.bind m f t).tree
  rw [FileM.bind]
  cases (m t).value with
  | error e => exact hm t
  | ok a => exact htrans _ _ _ (hm t) (hf a _)

theorem respects_handle (htrans : ∀ t t' t'', R t t' → R t' t'' → R t t'') {m : FileM N D X α}
    {h : Fault X → FileM N D X α} (hm : Respects R m) (hh : ∀ e, Respects R (h e)) : Respects R (FileM.handle m h) := by
  intro t
  rw [FileM.handle]
  cases (m t).value with
  | ok a => exact hm t
  | error e => exact htrans _ _ _ (hm t) (hh e _)

theorem respects_call (hrefl : ∀ t, R t t) {p : List (Comp N)} {act : Loc N → Tree N D → Except Errno (α × Tree N D)}
    (hact : ∀ l t a t', act l t = .ok (a, t') → R t t') : Respects R (FileM.call p act : FileM N D X α) := by
  intro t
  rw [FileM.call]
  cases locate t p with
  | error e => exact hrefl t
  | ok l =>
    dsimp only
    cases ha : act l t with
    | error e => exact hrefl t
    | ok r => exact hact l t r.1 r.2 ha

end Respects

/-! ## Programs that only read -/

def Reads (m : FileM N D X α) : Prop := Respects Eq m

theorem reads_pure (a : α) : Reads (pure a : FileM N D X α) := respects_pure (fun _ => rfl) a

theorem reads_raise (e : Fault X) : Reads (FileM.raise e : FileM N D X α) := respects_raise (fun _ => rfl) e

theorem reads_bind {m : FileM N D X α} {f : α → FileM N D X β} (hm : Reads m) (hf : ∀ a, Reads (f a)) : Reads (m >>= f) :=
  respects_bind (fun _ _ _ h h' => h.trans h') hm hf

theorem reads_handle {m : FileM N D X α} {h : Fault X → FileM N D X α} (hm : Reads m) (hh : ∀ e, Reads (h e)) :
    Reads (FileM.handle m h) :=
  respects_handle (fun _ _ _ h h' => h.trans h') hm hh

theorem reads_present (p : List (Comp N)) : Reads (FileM.present p : FileM N D X Bool) := by
  intro t
  rw [FileM.present]
  cases locate t p <;> rfl

theorem reads_isDirectory (p : List (Comp N)) : Reads (FileM.isDirectory p : FileM N D X Bool) := by
  intro t
  rw [FileM.isDirectory]
  cases locate t p <;> rfl

theorem reads_read (p : List (Comp N)) : Reads (FileM.read p : FileM N D X D) := by
  apply respects_call (fun _ => rfl)
  intro l t a t' h
  split at h <;> cases h
  rfl

theorem reads_stat (p : List (Comp N)) : Reads (FileM.stat p : FileM N D X (Loc N × Node D)) := by
  apply respects_call (fun _ => rfl)
  intro l t a t' h
  split at h <;> cases h
  rfl

/-! ## Programs that only make directories -/

/-- What was there is the same, and what is new is a directory. -/
def Grown (t t' : Tree N D) : Prop := ∀ l, t'.lookup l = t.lookup l ∨ t.lookup l = none ∧ t'.lookup l = some .dir

theorem Grown.refl (t : Tree N D) : Grown t t := fun _ => Or.inl rfl

theorem Grown.keeps {t t' : Tree N D} (h : Grown t t') {l : Loc N} {node : Node D} (hl : t.lookup l = some node) :
    t'.lookup l = some node := by
  rcases h l with hsame | ⟨hnone, -⟩
  · exact hsame.trans hl
  · rw [hl] at hnone
    cases hnone

theorem Grown.file_iff {t t' : Tree N D} (h : Grown t t') {l : Loc N} {d : D} :
    t'.lookup l = some (.file d) ↔ t.lookup l = some (.file d) := by
  refine ⟨?_, h.keeps⟩
  intro hl
  rcases h l with hsame | ⟨-, hdir⟩
  · exact hsame.symm.trans hl
  · rw [hdir] at hl
    cases hl

theorem Grown.trans (t t' t'' : Tree N D) (h : Grown t t') (h' : Grown t' t'') : Grown t t'' := by
  intro l
  cases ht : t.lookup l with
  | some node => exact Or.inl (h'.keeps (h.keeps ht))
  | none =>
    rcases h l with hsame | ⟨-, hdir⟩
    · rw [ht] at hsame
      rcases h' l with hsame' | ⟨-, hdir'⟩
      · exact Or.inl (hsame'.trans hsame)
      · exact Or.inr ⟨rfl, hdir'⟩
    · exact Or.inr ⟨rfl, h'.keeps hdir⟩

def Grows (m : FileM N D X α) : Prop := Respects Grown m

theorem grows_of_reads {m : FileM N D X α} (h : Reads m) : Grows m := by
  intro t
  rw [← h t]
  exact Grown.refl t

theorem grows_mkdir (p : List (Comp N)) : Grows (FileM.mkdir p : FileM N D X Unit) := by
  apply respects_call Grown.refl
  intro l t a t' h
  split at h
  · cases h
  · rename_i hnone
    split at h
    · rename_i hs
      cases h
      intro m
      rw [Tree.lookup_store hs]
      by_cases hm : m = l
      · subst hm
        rw [if_pos rfl]
        exact Or.inr ⟨Option.not_isSome_iff_eq_none.mp hnone, rfl⟩
      · rw [if_neg hm]
        exact Or.inl rfl
    · cases h

theorem grows_orDirectory (p : List (Comp N)) (e : Fault X) :
    Grows (do if ← FileM.isDirectory p then pure () else FileM.raise e : FileM N D X Unit) := by
  refine grows_of_reads (reads_bind (reads_isDirectory p) ?_)
  intro b
  cases b with
  | true => exact reads_pure ()
  | false => exact reads_raise e

theorem grows_ensureDir (p : List (Comp N)) : Grows (FileM.ensureDir p : FileM N D X Unit) := by
  refine respects_handle Grown.trans (grows_mkdir p) ?_
  intro e
  split
  · exact grows_of_reads (reads_raise _)
  · exact grows_orDirectory p _
  · exact grows_of_reads (reads_raise _)

theorem grows_makeDirs (p : List (Comp N)) : Grows (FileM.makeDirs p : FileM N D X Unit) := by
  rw [FileM.makeDirs]
  induction p.reverse with
  | nil => exact grows_ensureDir []
  | cons c rest ih =>
    rw [FileM.makeDirsRev]
    refine respects_handle Grown.trans (grows_mkdir _) ?_
    intro e
    split
    · exact respects_bind Grown.trans ih fun _ => grows_ensureDir _
    · exact grows_orDirectory _ _
    · exact grows_of_reads (reads_raise _)

/-! ## Taking a run apart -/

section Runs
variable {t t' : Tree N D} {p : List (Comp N)}

theorem runs_self (m : FileM N D X α) (t : Tree N D) : Runs m t (m t).value (m t).tree := ⟨rfl, rfl⟩

theorem Runs.unique {m : FileM N D X α} {v w : Except (Fault X) α} {t'' : Tree N D} (h : Runs m t v t')
    (h' : Runs m t w t'') : v = w ∧ t' = t'' :=
  ⟨h.1.symm.trans h'.1, h.2.symm.trans h'.2⟩

/-- What remains to run after a first part that is known. -/
theorem Runs.after {m : FileM N D X α} {f : α → FileM N D X β} {v : Except (Fault X) β} {a : α} {t₁ : Tree N D}
    (hm : Runs m t (.ok a) t₁) (h : Runs (m >>= f) t v t') : Runs (f a) t₁ v t' := by
  obtain ⟨rfl, rfl⟩ := h.unique (hm.bind (runs_self (f a) t₁))
  exact runs_self (f a) t₁

theorem Runs.of_bind {m : FileM N D X α} {f : α → FileM N D X β} {v : Except (Fault X) β} (h : Runs (m >>= f) t v t') :
    (∃ a t₁, Runs m t (.ok a) t₁ ∧ Runs (f a) t₁ v t') ∨ ∃ e, v = .error e ∧ Runs m t (.error e) t' := by
  cases hv : (m t).value with
  | ok a =>
    have hm : Runs m t (.ok a) (m t).tree := ⟨hv, rfl⟩
    exact Or.inl ⟨a, (m t).tree, hm, hm.after h⟩
  | error e =>
    have hm : Runs m t (.error e) (m t).tree := ⟨hv, rfl⟩
    obtain ⟨rfl, rfl⟩ := h.unique hm.bind_error
    exact Or.inr ⟨e, rfl, hm⟩

/-- What a successful program has run through. -/
theorem Runs.of_bind_ok {m : FileM N D X α} {f : α → FileM N D X β} {b : β} (h : Runs (m >>= f) t (.ok b) t') :
    ∃ a t₁, Runs m t (.ok a) t₁ ∧ Runs (f a) t₁ (.ok b) t' := by
  rcases h.of_bind with hok | ⟨e, he, -⟩
  · exact hok
  · cases he

theorem Runs.of_handle {m : FileM N D X α} {h : Fault X → FileM N D X α} {v : Except (Fault X) α}
    (hr : Runs (FileM.handle m h) t v t') :
    (∃ a, v = .ok a ∧ Runs m t (.ok a) t') ∨ ∃ e t₁, Runs m t (.error e) t₁ ∧ Runs (h e) t₁ v t' := by
  cases hv : (m t).value with
  | ok a =>
    have hm : Runs m t (.ok a) (m t).tree := ⟨hv, rfl⟩
    obtain ⟨rfl, rfl⟩ := hr.unique hm.handle_ok
    exact Or.inl ⟨a, rfl, hm⟩
  | error e =>
    have hm : Runs m t (.error e) (m t).tree := ⟨hv, rfl⟩
    obtain ⟨rfl, rfl⟩ := hr.unique (hm.handle_raised (runs_self (h e) _))
    exact Or.inr ⟨e, (m t).tree, hm, runs_self (h e) _⟩

theorem Runs.of_call_ok {act : Loc N → Tree N D → Except Errno (α × Tree N D)} {a : α}
    (h : Runs (FileM.call p act : FileM N D X α) t (.ok a) t') :
    locate t p = .ok (norm p) ∧ act (norm p) t = .ok (a, t') := by
  obtain ⟨hvalue, htree⟩ := h
  rw [FileM.call] at hvalue htree
  cases hl : locate t p with
  | error e =>
    rw [hl] at hvalue
    cases hvalue
  | ok l =>
    obtain rfl := locate_eq_norm hl
    rw [hl] at hvalue htree
    dsimp only at hvalue htree
    cases ha : act (norm p) t with
    | error e =>
      rw [ha] at hvalue
      cases hvalue
    | ok r =>
      obtain ⟨b, t₁⟩ := r
      rw [ha] at hvalue htree
      cases hvalue
      cases htree
      exact ⟨rfl, rfl⟩

/-- What was read is the file at the place of the path. -/
theorem runs_read {d : D} (h : Runs (FileM.read p : FileM N D X D) t (.ok d) t') :
    locate t p = .ok (norm p) ∧ t.lookup (norm p) = some (.file d) := by
  rw [FileM.read.eq_def] at h
  obtain ⟨hl, hact⟩ := h.of_call_ok
  refine ⟨hl, ?_⟩
  cases hnode : t.lookup (norm p) with
  | none => simp only [hnode, reduceCtorEq] at hact
  | some node =>
    cases node with
    | dir => simp only [hnode, reduceCtorEq] at hact
    | file d' =>
      simp only [hnode, Except.ok.injEq, Prod.mk.injEq] at hact
      rw [hact.1]

end Runs

/-! ## Changes that keep the directories -/

def KeepsDirs (t t' : Tree N D) : Prop := ∀ l, t.isDir l = true → t'.isDir l = true

/-- A file was written where no directory was. -/
structure Filled (t t' : Tree N D) (l : Loc N) (d : D) : Prop where
  free : t.isDir l = false
  lookup : ∀ m, t'.lookup m = if m = l then some (.file d) else t.lookup m

/-- A file was taken away. -/
structure Erased (t t' : Tree N D) (l : Loc N) : Prop where
  file : ∃ d, t.lookup l = some (.file d)
  lookup : ∀ m, t'.lookup m = if m = l then none else t.lookup m

section Kept
variable {t t' t'' : Tree N D} {l : Loc N} {p : List (Comp N)} {d : D}

theorem KeepsDirs.trans (h : KeepsDirs t t') (h' : KeepsDirs t' t'') : KeepsDirs t t'' := fun m hm => h' m (h m hm)

theorem Grown.keepsDirs (h : Grown t t') : KeepsDirs t t' := by
  intro m hm
  exact Tree.isDir_iff.mpr (h.keeps (Tree.isDir_iff.mp hm))

theorem Filled.keepsDirs (h : Filled t t' l d) : KeepsDirs t t' := by
  intro m hm
  have hne : m ≠ l := by
    rintro rfl
    rw [h.free] at hm
    cases hm
  rw [Tree.isDir, h.lookup, if_neg hne]
  exact hm

theorem Erased.keepsDirs (h : Erased t t' l) : KeepsDirs t t' := by
  intro m hm
  obtain ⟨d, hd⟩ := h.file
  have hne : m ≠ l := by
    rintro rfl
    rw [Tree.isDir, hd] at hm
    cases hm
  rw [Tree.isDir, h.lookup, if_neg hne]
  exact hm

/-- Directories that are still there are walked the same way. -/
theorem KeepsDirs.locate (h : KeepsDirs t t') (hl : locate t p = .ok (norm p)) :
    FileTree.locate t' p = .ok (norm p) := by
  induction p using List.reverseRecOn with
  | nil => exact hl
  | append_singleton q c ih =>
    obtain ⟨hq, hd⟩ := locate_concat_inv hl
    exact locate_concat_ok (ih hq) (h _ hd)

theorem Filled.same (h : Filled t t' l d) : t'.lookup l = some (.file d) := (h.lookup l).trans (if_pos rfl)

theorem Filled.other (h : Filled t t' l d) {m : Loc N} (hm : m ≠ l) : t'.lookup m = t.lookup m :=
  (h.lookup m).trans (if_neg hm)

theorem Erased.same (h : Erased t t' l) : t'.lookup l = none := (h.lookup l).trans (if_pos rfl)

theorem Erased.other (h : Erased t t' l) {m : Loc N} (hm : m ≠ l) : t'.lookup m = t.lookup m :=
  (h.lookup m).trans (if_neg hm)

/-- Writing a file again leaves what was written last. -/
theorem Filled.again {d' : D} (h : Filled t t' l d) (h' : Filled t' t'' l d') : Filled t t'' l d' := by
  refine ⟨h.free, ?_⟩
  intro m
  rw [h'.lookup, h.lookup]
  by_cases hm : m = l
  · rw [if_pos hm, if_pos hm]
  · rw [if_neg hm, if_neg hm, if_neg hm]

theorem runs_write {v : Except (Fault X) Unit} (h : Runs (FileM.write p d : FileM N D X Unit) t v t') :
    (v = .ok () ∧ locate t p = .ok (norm p) ∧ Filled t t' (norm p) d) ∨ (∃ e, v = .error e) ∧ t' = t := by
  obtain ⟨rfl, rfl⟩ := h
  rw [FileM.write, FileM.call]
  cases hl : locate t p with
  | error e => exact Or.inr ⟨⟨_, rfl⟩, rfl⟩
  | ok l =>
    obtain rfl := locate_eq_norm hl
    dsimp only
    cases hd : t.isDir (norm p) with
    | true => exact Or.inr ⟨⟨_, rfl⟩, rfl⟩
    | false =>
      by_cases hs : t.Storable (norm p) (.file d)
      · simp only [hs, Bool.false_eq_true, if_false, dif_pos]
        exact Or.inl ⟨trivial, trivial, hd, Tree.lookup_store hs⟩
      · simp only [hs, Bool.false_eq_true, if_false, dif_neg, not_false_eq_true]
        exact Or.inr ⟨⟨_, rfl⟩, trivial⟩

theorem write_ok (hl : locate t p = .ok (norm p)) (hd : t.isDir (norm p) = false) :
    ∃ t', Runs (FileM.write p d : FileM N D X Unit) t (.ok ()) t' ∧ Filled t t' (norm p) d := by
  have hs : t.Storable (norm p) (.file d) := by
    cases hn : t.lookup (norm p) with
    | none => exact storable_of_locate hl hn _
    | some node =>
      refine storable_file (isDir_dropLast_of_lookup hn) ?_ hd _
      intro hroot
      rw [hroot, Tree.isDir, Tree.lookup_root] at hd
      cases hd
  refine ⟨t.store (norm p) (.file d) hs, ⟨?_, ?_⟩, hd, Tree.lookup_store hs⟩
  · simp only [FileM.write, FileM.call, hl, hd, hs, Bool.false_eq_true, if_false, dif_pos]
  · simp only [FileM.write, FileM.call, hl, hd, hs, Bool.false_eq_true, if_false, dif_pos]

theorem unlink_ok (hl : locate t p = .ok (norm p)) (hf : t.lookup (norm p) = some (.file d)) :
    ∃ t', Runs (FileM.unlink p : FileM N D X Unit) t (.ok ()) t' ∧ Erased t t' (norm p) := by
  have hc := children_file hf
  have hne : norm p ≠ [] := by
    intro hroot
    rw [hroot, Tree.lookup_root] at hf
    cases hf
  refine ⟨t.erase (norm p) hc, ⟨?_, ?_⟩, ⟨d, hf⟩, Tree.lookup_erase hc hne⟩
  · simp only [FileM.unlink, FileM.call, hl, hf, dif_pos hc]
  · simp only [FileM.unlink, FileM.call, hl, hf, dif_pos hc]

end Kept

end Support.FileTree
