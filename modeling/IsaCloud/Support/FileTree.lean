import IsaCloud.Support.Dict
import Mathlib.Data.List.DropRight

/-!
# File trees and the calls that act on them

A tree without links is a finite map from locations to directories and files in
which every parent is a directory. A path is a list of components; `..` leads
to the parent, and every component but the last has to be a directory when the
path is followed. `FileM` runs calls one after the other and records the
locations whose node was read, listed, made, written or removed; a test whether
something is there is not recorded.
-/

namespace Support.FileTree

set_option autoImplicit false

/-! ## Paths -/

inductive Comp (N : Type) where
  | up
  | name (n : N)
  deriving DecidableEq

/-- A place in the tree, by the names that lead to it from the root. -/
abbrev Loc (N : Type) := List N

section Paths
variable {N : Type}

def enter (l : Loc N) : Comp N → Loc N
  | .up => l.dropLast
  | .name n => l ++ [n]

def normFrom (l : Loc N) (p : List (Comp N)) : Loc N := p.foldl enter l

/-- Where a path leads from the root. -/
def norm (p : List (Comp N)) : Loc N := normFrom [] p

@[simp] theorem norm_nil : norm ([] : List (Comp N)) = [] := rfl

theorem norm_append (p q : List (Comp N)) : norm (p ++ q) = normFrom (norm p) q := by
  simp [norm, normFrom, List.foldl_append]

@[simp] theorem norm_concat (p : List (Comp N)) (c : Comp N) : norm (p ++ [c]) = enter (norm p) c := by
  simp [norm_append, normFrom]

theorem normFrom_names (l m : Loc N) : normFrom l (m.map .name) = l ++ m := by
  induction m generalizing l with
  | nil => simp [normFrom]
  | cons n m ih =>
    have hstep : normFrom l ((n :: m).map .name) = normFrom (l ++ [n]) (m.map .name) := rfl
    rw [hstep, ih, List.append_assoc, List.singleton_append]

@[simp] theorem norm_names (m : Loc N) : norm (m.map .name) = m := by
  rw [norm, normFrom_names, List.nil_append]

end Paths

/-! ## Trees -/

inductive Node (D : Type) where
  | dir
  | file (data : D)
  deriving DecidableEq

def Node.isDir {D : Type} : Node D → Bool
  | .dir => true
  | .file _ => false

structure Tree (N D : Type) [DecidableEq N] where
  nodes : Dict (List N) (Node D)
  /-- The root is always there and not listed. -/
  rootless : nodes.get [] = none
  parents : ∀ l n, (nodes.get (l ++ [n])).isSome → l = [] ∨ nodes.get l = some .dir

namespace Tree
variable {N D : Type} [DecidableEq N]

def lookup (t : Tree N D) (l : Loc N) : Option (Node D) := if l = [] then some .dir else t.nodes.get l

def isDir (t : Tree N D) (l : Loc N) : Bool := (t.lookup l).any Node.isDir

def children (t : Tree N D) (l : Loc N) : List N :=
  t.nodes.keys.filterMap fun k => if k.dropLast = l then k.getLast? else none

@[simp] theorem lookup_root (t : Tree N D) : t.lookup [] = some .dir := if_pos rfl

theorem lookup_concat (t : Tree N D) (l : Loc N) (n : N) : t.lookup (l ++ [n]) = t.nodes.get (l ++ [n]) :=
  if_neg (by simp)

theorem isDir_iff {t : Tree N D} {l : Loc N} : t.isDir l = true ↔ t.lookup l = some .dir := by
  rw [isDir]
  cases t.lookup l with
  | none => simp
  | some node => cases node <;> simp [Node.isDir]

theorem isDir_parent {t : Tree N D} {l : Loc N} {n : N} (h : (t.lookup (l ++ [n])).isSome) :
    t.isDir l = true := by
  rw [lookup_concat] at h
  rw [isDir_iff]
  rcases t.parents l n h with rfl | hl
  · exact lookup_root t
  · have hne : l ≠ [] := by
      rintro rfl
      rw [t.rootless] at hl
      cases hl
    rw [lookup, if_neg hne, hl]

/-- Whatever lies below a location, the location is a directory. -/
theorem isDir_of_below {t : Tree N D} {l m : Loc N} (hm : m ≠ []) (h : (t.lookup (l ++ m)).isSome) :
    t.isDir l = true := by
  induction m using List.reverseRecOn with
  | nil => exact absurd rfl hm
  | append_singleton m n ih =>
    rw [← List.append_assoc] at h
    have hd := isDir_parent h
    by_cases hm' : m = []
    · rwa [hm', List.append_nil] at hd
    · refine ih hm' ?_
      rw [isDir_iff] at hd
      rw [hd]
      rfl

theorem mem_children {t : Tree N D} {l : Loc N} {n : N} :
    n ∈ t.children l ↔ (t.lookup (l ++ [n])).isSome := by
  rw [lookup_concat, ← Dict.mem_keys, children, List.mem_filterMap]
  constructor
  · rintro ⟨k, hk, h⟩
    by_cases hl : k.dropLast = l
    · rw [if_pos hl] at h
      rw [← hl, List.dropLast_append_getLast? n h]
      exact hk
    · rw [if_neg hl] at h
      cases h
  · intro h
    exact ⟨l ++ [n], h, by simp⟩

theorem children_nodup (t : Tree N D) (l : Loc N) : (t.children l).Nodup := by
  refine List.Nodup.filterMap ?_ t.nodes.keys_nodup
  intro a b n ha hb
  by_cases hla : a.dropLast = l
  · by_cases hlb : b.dropLast = l
    · rw [if_pos hla] at ha
      rw [if_pos hlb] at hb
      rw [← List.dropLast_append_getLast? n ha, ← List.dropLast_append_getLast? n hb, hla, hlb]
    · simp [hlb] at hb
  · simp [hla] at ha

/-- The node may be put there without leaving an orphan. -/
def Storable (t : Tree N D) (l : Loc N) (node : Node D) : Prop :=
  l ≠ [] ∧ t.isDir l.dropLast = true ∧ (node.isDir = true ∨ t.children l = [])

instance (t : Tree N D) (l : Loc N) (node : Node D) : Decidable (t.Storable l node) :=
  inferInstanceAs (Decidable (_ ∧ _ ∧ _))

def store (t : Tree N D) (l : Loc N) (node : Node D) (h : t.Storable l node) : Tree N D where
  nodes := t.nodes.set l node
  rootless := by
    rw [Dict.get_set_of_ne _ _ (fun h' => h.1 h'.symm)]
    exact t.rootless
  parents := by
    intro m n hmn
    by_cases hm : m = []
    · exact Or.inl hm
    refine Or.inr ?_
    have hdir : m ≠ l → t.isDir m = true → (t.nodes.set l node).get m = some .dir := by
      intro hne hd
      rw [Dict.get_set_of_ne _ _ hne]
      rw [isDir_iff, lookup, if_neg hm] at hd
      exact hd
    by_cases hl : m ++ [n] = l
    · have hne : m ≠ l := by
        intro hml
        have := congrArg List.length (hml.trans hl.symm)
        simp at this
      have hd := h.2.1
      rw [← hl, List.dropLast_concat] at hd
      exact hdir hne hd
    · rw [Dict.get_set_of_ne _ _ hl, ← lookup_concat] at hmn
      by_cases hml : m = l
      · rcases h.2.2 with hn | hc
        · cases node with
          | dir => rw [hml, Dict.get_set_self]
          | file d => cases hn
        · have := mem_children.mpr hmn
          rw [hml, hc] at this
          cases this
      · exact hdir hml (isDir_parent hmn)

def erase (t : Tree N D) (l : Loc N) (h : t.children l = []) : Tree N D where
  nodes := t.nodes.pop l
  rootless := by
    rw [Dict.get_pop, t.rootless]
    split <;> rfl
  parents := by
    intro m n hmn
    rw [Dict.get_pop] at hmn
    split at hmn
    · cases hmn
    · by_cases hm : m = []
      · exact Or.inl hm
      have hml : m ≠ l := by
        rintro rfl
        rw [← lookup_concat] at hmn
        have := mem_children.mpr hmn
        rw [h] at this
        cases this
      rw [Dict.get_pop_of_ne _ hml]
      exact t.parents m n hmn

theorem lookup_store {t : Tree N D} {l : Loc N} {node : Node D} (h : t.Storable l node) (m : Loc N) :
    (t.store l node h).lookup m = if m = l then some node else t.lookup m := by
  rw [lookup, lookup]
  by_cases hm : m = []
  · have hml : m ≠ l := fun hml => h.1 (hml.symm.trans hm)
    rw [if_pos hm, if_neg hml, if_pos hm]
  · rw [if_neg hm, if_neg hm]
    exact Dict.get_set t.nodes l m node

theorem lookup_erase {t : Tree N D} {l : Loc N} (h : t.children l = []) (hl : l ≠ []) (m : Loc N) :
    (t.erase l h).lookup m = if m = l then none else t.lookup m := by
  rw [lookup, lookup]
  by_cases hm : m = []
  · have hml : m ≠ l := fun hml => hl (hml.symm.trans hm)
    rw [if_pos hm, if_neg hml, if_pos hm]
  · rw [if_neg hm, if_neg hm]
    exact Dict.get_pop t.nodes l m

end Tree

/-! ## Following a path -/

inductive Errno where
  | enoent
  | eexist
  | enotdir
  | eisdir
  | enotempty
  | ebusy
  deriving DecidableEq, Repr

section Follow
variable {N D : Type} [DecidableEq N]

def follow (t : Tree N D) (l : Loc N) (c : Comp N) : Except Errno (Loc N) :=
  match t.lookup l with
  | some .dir => .ok (enter l c)
  | some (.file _) => .error .enotdir
  | none => .error .enoent

def locateFrom (t : Tree N D) (l : Loc N) : List (Comp N) → Except Errno (Loc N)
  | [] => .ok l
  | c :: p =>
    match follow t l c with
    | .ok l' => locateFrom t l' p
    | .error e => .error e

def locate (t : Tree N D) (p : List (Comp N)) : Except Errno (Loc N) := locateFrom t [] p

theorem follow_ok_iff {t : Tree N D} {l : Loc N} {c : Comp N} {l' : Loc N} :
    follow t l c = .ok l' ↔ t.isDir l = true ∧ l' = enter l c := by
  rw [follow, Tree.isDir_iff]
  cases t.lookup l with
  | none => simp
  | some node => cases node <;> simp [eq_comm]

theorem locateFrom_append (t : Tree N D) (l : Loc N) (p q : List (Comp N)) :
    locateFrom t l (p ++ q) = (locateFrom t l p).bind fun l' => locateFrom t l' q := by
  induction p generalizing l with
  | nil => rfl
  | cons c p ih =>
    rw [List.cons_append, locateFrom, locateFrom]
    cases follow t l c with
    | error e => rfl
    | ok l' => exact ih l'

theorem locate_concat (t : Tree N D) (p : List (Comp N)) (c : Comp N) :
    locate t (p ++ [c]) = (locate t p).bind fun l => follow t l c := by
  rw [locate, locateFrom_append]
  congr 1
  funext l
  rw [locateFrom]
  cases follow t l c <;> rfl

/-- A path that can be followed leads where it says. -/
theorem locate_eq_norm {t : Tree N D} {p : List (Comp N)} {l : Loc N} (h : locate t p = .ok l) : l = norm p := by
  induction p using List.reverseRecOn generalizing l with
  | nil => exact (Except.ok.inj h).symm
  | append_singleton p c ih =>
    rw [locate_concat] at h
    cases hp : locate t p with
    | error e =>
      rw [hp] at h
      cases h
    | ok m =>
      rw [hp] at h
      have hm := ih hp
      rw [norm_concat, ← hm]
      exact (follow_ok_iff.mp h).2

theorem locate_concat_ok {t : Tree N D} {p : List (Comp N)} {c : Comp N}
    (hp : locate t p = .ok (norm p)) (hd : t.isDir (norm p) = true) :
    locate t (p ++ [c]) = .ok (norm (p ++ [c])) := by
  rw [locate_concat, hp, norm_concat]
  exact follow_ok_iff.mpr ⟨hd, rfl⟩

theorem locate_concat_inv {t : Tree N D} {p : List (Comp N)} {c : Comp N} {l : Loc N}
    (h : locate t (p ++ [c]) = .ok l) : locate t p = .ok (norm p) ∧ t.isDir (norm p) = true := by
  rw [locate_concat] at h
  cases hp : locate t p with
  | error e =>
    rw [hp] at h
    cases h
  | ok m =>
    rw [hp] at h
    have hm := locate_eq_norm hp
    rw [← hm]
    exact ⟨rfl, (follow_ok_iff.mp h).1⟩

end Follow

/-! ## Programs that call the file system -/

inductive Fault (X : Type) where
  | os (e : Errno)
  | raised (x : X)

structure Outcome (N D X : Type) [DecidableEq N] (α : Type) where
  value : Except (Fault X) α
  tree : Tree N D
  /-- The locations read, listed, made, written or removed. -/
  touched : List (Loc N)

def FileM (N D X : Type) [DecidableEq N] (α : Type) := Tree N D → Outcome N D X α

namespace FileM
variable {N D X : Type} [DecidableEq N] {α β : Type}

protected def pure (a : α) : FileM N D X α := fun t => ⟨.ok a, t, []⟩

def raise (e : Fault X) : FileM N D X α := fun t => ⟨.error e, t, []⟩

protected def bind (m : FileM N D X α) (f : α → FileM N D X β) : FileM N D X β := fun t =>
  match (m t).value with
  | .ok a =>
    let r := f a (m t).tree
    ⟨r.value, r.tree, (m t).touched ++ r.touched⟩
  | .error e => ⟨.error e, (m t).tree, (m t).touched⟩

/-- `try … except`; the handler may raise again. -/
def handle (m : FileM N D X α) (h : Fault X → FileM N D X α) : FileM N D X α := fun t =>
  match (m t).value with
  | .ok a => ⟨.ok a, (m t).tree, (m t).touched⟩
  | .error e =>
    let r := h e (m t).tree
    ⟨r.value, r.tree, (m t).touched ++ r.touched⟩

instance : Monad (FileM N D X) where
  pure := FileM.pure
  bind := FileM.bind

theorem bind_ok {m : FileM N D X α} {f : α → FileM N D X β} {t t' : Tree N D} {a : α} {ls : List (Loc N)}
    (h : m t = ⟨.ok a, t', ls⟩) :
    (m >>= f) t = ⟨(f a t').value, (f a t').tree, ls ++ (f a t').touched⟩ := by
  show FileM.bind m f t = _
  rw [FileM.bind, h]

theorem bind_error {m : FileM N D X α} {f : α → FileM N D X β} {t t' : Tree N D} {e : Fault X}
    {ls : List (Loc N)} (h : m t = ⟨.error e, t', ls⟩) : (m >>= f) t = ⟨.error e, t', ls⟩ := by
  show FileM.bind m f t = _
  rw [FileM.bind, h]

theorem handle_ok {m : FileM N D X α} {h : Fault X → FileM N D X α} {t t' : Tree N D} {a : α}
    {ls : List (Loc N)} (hm : m t = ⟨.ok a, t', ls⟩) : handle m h t = ⟨.ok a, t', ls⟩ := by
  rw [handle, hm]

theorem handle_raised {m : FileM N D X α} {h : Fault X → FileM N D X α} {t t' : Tree N D} {e : Fault X}
    {ls : List (Loc N)} (hm : m t = ⟨.error e, t', ls⟩) :
    handle m h t = ⟨(h e t').value, (h e t').tree, ls ++ (h e t').touched⟩ := by
  rw [handle, hm]

/-- Follow the path and act on the place it leads to. -/
def call (p : List (Comp N)) (act : Loc N → Tree N D → Except Errno (α × Tree N D)) : FileM N D X α :=
  fun t =>
    match locate t p with
    | .error e => ⟨.error (.os e), t, []⟩
    | .ok l =>
      match act l t with
      | .error e => ⟨.error (.os e), t, []⟩
      | .ok (a, t') => ⟨.ok a, t', [l]⟩

/-- `exists()`. -/
def present (p : List (Comp N)) : FileM N D X Bool := fun t =>
  match locate t p with
  | .error _ => ⟨.ok false, t, []⟩
  | .ok l => ⟨.ok (t.lookup l).isSome, t, []⟩

/-- `is_dir()`. -/
def isDirectory (p : List (Comp N)) : FileM N D X Bool := fun t =>
  match locate t p with
  | .error _ => ⟨.ok false, t, []⟩
  | .ok l => ⟨.ok (t.isDir l), t, []⟩

def stat (p : List (Comp N)) : FileM N D X (Loc N × Node D) :=
  call p fun l t =>
    match t.lookup l with
    | some node => .ok ((l, node), t)
    | none => .error .enoent

def mkdir (p : List (Comp N)) : FileM N D X Unit :=
  call p fun l t =>
    if (t.lookup l).isSome then .error .eexist
    else if h : t.Storable l .dir then .ok ((), t.store l .dir h)
    else .error .enoent

def read (p : List (Comp N)) : FileM N D X D :=
  call p fun l t =>
    match t.lookup l with
    | some (.file d) => .ok (d, t)
    | some .dir => .error .eisdir
    | none => .error .enoent

/-- Open for writing, replacing what is there. -/
def write (p : List (Comp N)) (d : D) : FileM N D X Unit :=
  call p fun l t =>
    if t.isDir l then .error .eisdir
    else if h : t.Storable l (.file d) then .ok ((), t.store l (.file d) h)
    else .error .enoent

def unlink (p : List (Comp N)) : FileM N D X Unit :=
  call p fun l t =>
    match t.lookup l with
    | some .dir => .error .eisdir
    | none => .error .enoent
    | some (.file _) => if h : t.children l = [] then .ok ((), t.erase l h) else .error .enotempty

def rmdir (p : List (Comp N)) : FileM N D X Unit :=
  call p fun l t =>
    if l = [] then .error .ebusy
    else
      match t.lookup l with
      | none => .error .enoent
      | some (.file _) => .error .enotdir
      | some .dir => if h : t.children l = [] then .ok ((), t.erase l h) else .error .enotempty

end FileM

/-- The order in which a directory is read is up to the file system. -/
class ScanOrder (N D : Type) [DecidableEq N] where
  scan : Tree N D → Loc N → List N
  perm : ∀ t l, (scan t l).Perm (t.children l)

namespace FileM
variable {N D X : Type} [DecidableEq N]

section Directories
variable [ScanOrder N D]

def scandir (p : List (Comp N)) : FileM N D X (List (N × Node D)) :=
  call p fun l t =>
    match t.lookup l with
    | none => .error .enoent
    | some (.file _) => .error .enotdir
    | some .dir =>
      .ok ((ScanOrder.scan t l).filterMap fun n => (t.lookup (l ++ [n])).map fun node => (n, node), t)

/-- The entries of a directory, or nothing if it cannot be read. -/
def entries (p : List (Comp N)) : FileM N D X (Option (List (N × Node D))) :=
  handle (scandir p >>= fun es => pure (some es)) fun
    | .os _ => pure none
    | e => raise e

/-- `os.walk`, top down: the files of a directory go to the body, which may stop
the walk; a directory that cannot be read is passed over. -/
def walk {S : Type} (body : List (Comp N) → List N → S → FileM N D X (S × Bool)) :
    Nat → List (List (Comp N)) → S → FileM N D X S
  | 0, _, s => pure s
  | _ + 1, [], s => pure s
  | fuel + 1, top :: stack, s => do
    match ← entries top with
    | none => walk body fuel stack s
    | some es => do
      let dirs := (es.filter fun e => e.2.isDir).map Prod.fst
      let files := (es.filter fun e => !e.2.isDir).map Prod.fst
      let (s', stop) ← body top files s
      if stop then pure s'
      else walk body fuel (dirs.map (fun n => top ++ [.name n]) ++ stack) s'

end Directories

/-- `mkdir(exist_ok=True)` of one directory. -/
def ensureDir (p : List (Comp N)) : FileM N D X Unit :=
  handle (mkdir p) fun
    | .os .enoent => raise (.os .enoent)
    | .os e => do if ← isDirectory p then pure () else raise (.os e)
    | e => raise e

/-- `mkdir(parents=True, exist_ok=True)`; the path is given from its end. -/
def makeDirsRev : List (Comp N) → FileM N D X Unit
  | [] => ensureDir []
  | c :: rest =>
    handle (mkdir (c :: rest).reverse) fun
      | .os .enoent => do
        makeDirsRev rest
        ensureDir (c :: rest).reverse
      | .os e => do if ← isDirectory (c :: rest).reverse then pure () else raise (.os e)
      | e => raise e

def makeDirs (p : List (Comp N)) : FileM N D X Unit := makeDirsRev p.reverse

end FileM

/-! ## Programs that stay in a region

`Stays base P m`: run where `base` is a directory, `m` touches only locations
that meet `P` and leaves `base` a directory. -/

section Region
variable {N D X : Type} [DecidableEq N] {α β : Type} {base : Loc N} {P : Loc N → Prop}

def Stays (base : Loc N) (P : Loc N → Prop) (m : FileM N D X α) : Prop :=
  ∀ t, t.isDir base = true → (m t).tree.isDir base = true ∧ ∀ l ∈ (m t).touched, P l

theorem stays_pure (a : α) : Stays base P (pure a : FileM N D X α) := by
  intro t ht
  exact ⟨ht, fun l hl => nomatch hl⟩

theorem stays_raise (e : Fault X) : Stays base P (FileM.raise e : FileM N D X α) := by
  intro t ht
  exact ⟨ht, fun l hl => nomatch hl⟩

/-- What follows only has to stay for the values that can be returned. -/
theorem stays_bind_of {m : FileM N D X α} {f : α → FileM N D X β} (hm : Stays base P m)
    (hf : ∀ t a, t.isDir base = true → (m t).value = .ok a → Stays base P (f a)) :
    Stays base P (m >>= f) := by
  intro t ht
  obtain ⟨hb, hp⟩ := hm t ht
  show (FileM.bind m f t).tree.isDir base = true ∧ ∀ l ∈ (FileM.bind m f t).touched, P l
  rw [FileM.bind]
  cases hv : (m t).value with
  | error e => exact ⟨hb, hp⟩
  | ok a =>
    obtain ⟨hb', hp'⟩ := hf t a ht hv (m t).tree hb
    refine ⟨hb', ?_⟩
    intro l hl
    rcases List.mem_append.mp hl with hl | hl
    · exact hp l hl
    · exact hp' l hl

theorem stays_bind {m : FileM N D X α} {f : α → FileM N D X β} (hm : Stays base P m)
    (hf : ∀ a, Stays base P (f a)) : Stays base P (m >>= f) :=
  stays_bind_of hm fun _ a _ _ => hf a

theorem stays_handle {m : FileM N D X α} {h : Fault X → FileM N D X α} (hm : Stays base P m)
    (hh : ∀ e, Stays base P (h e)) : Stays base P (FileM.handle m h) := by
  intro t ht
  obtain ⟨hb, hp⟩ := hm t ht
  rw [FileM.handle]
  cases hv : (m t).value with
  | ok a => exact ⟨hb, hp⟩
  | error e =>
    obtain ⟨hb', hp'⟩ := hh e (m t).tree hb
    refine ⟨hb', ?_⟩
    intro l hl
    rcases List.mem_append.mp hl with hl | hl
    · exact hp l hl
    · exact hp' l hl

theorem stays_present (p : List (Comp N)) : Stays base P (FileM.present p : FileM N D X Bool) := by
  intro t ht
  rw [FileM.present]
  cases locate t p with
  | error e => exact ⟨ht, fun l hl => nomatch hl⟩
  | ok l => exact ⟨ht, fun l hl => nomatch hl⟩

theorem stays_isDirectory (p : List (Comp N)) : Stays base P (FileM.isDirectory p : FileM N D X Bool) := by
  intro t ht
  rw [FileM.isDirectory]
  cases locate t p with
  | error e => exact ⟨ht, fun l hl => nomatch hl⟩
  | ok l => exact ⟨ht, fun l hl => nomatch hl⟩

/-- A call stays if its effect at the place named does. -/
theorem stays_call {p : List (Comp N)} {act : Loc N → Tree N D → Except Errno (α × Tree N D)}
    (hact : ∀ t a t', t.isDir base = true → locate t p = .ok (norm p) → act (norm p) t = .ok (a, t') →
      t'.isDir base = true ∧ P (norm p)) : Stays base P (FileM.call p act : FileM N D X α) := by
  intro t ht
  rw [FileM.call]
  cases hl : locate t p with
  | error e => exact ⟨ht, fun l hl => nomatch hl⟩
  | ok l =>
    have hn := locate_eq_norm hl
    subst hn
    dsimp only
    cases ha : act (norm p) t with
    | error e => exact ⟨ht, fun l hl => nomatch hl⟩
    | ok r =>
      obtain ⟨hb, hp⟩ := hact t r.1 r.2 ht hl ha
      refine ⟨hb, ?_⟩
      intro l hl
      rw [List.mem_singleton.mp hl]
      exact hp

theorem isDir_above {t : Tree N D} {l m : Loc N} (h : l <+: m) (hm : t.isDir m = true) : t.isDir l = true := by
  obtain ⟨r, rfl⟩ := h
  by_cases hr : r = []
  · rwa [hr, List.append_nil] at hm
  · refine Tree.isDir_of_below hr ?_
    rw [Tree.isDir_iff.mp hm]
    rfl

theorem isDir_store {t : Tree N D} {l m : Loc N} {node : Node D} (h : t.Storable l node)
    (hm : t.isDir m = true) (hne : m = l → node.isDir = true) : (t.store l node h).isDir m = true := by
  rw [Tree.isDir, Tree.lookup_store]
  by_cases hml : m = l
  · rw [if_pos hml]
    exact hne hml
  · rw [if_neg hml]
    exact hm

theorem isDir_erase {t : Tree N D} {l m : Loc N} (h : t.children l = []) (hl : l ≠ [])
    (hm : t.isDir m = true) (hne : m ≠ l) : (t.erase l h).isDir m = true := by
  rw [Tree.isDir, Tree.lookup_erase h hl, if_neg hne]
  exact hm

theorem stays_stat {p : List (Comp N)} (hp : P (norm p)) :
    Stays base P (FileM.stat p : FileM N D X _) := by
  refine stays_call ?_
  intro t a t' ht _ h
  split at h
  · cases h
    exact ⟨ht, hp⟩
  · cases h

theorem stays_read {p : List (Comp N)} (hp : P (norm p)) : Stays base P (FileM.read p : FileM N D X D) := by
  refine stays_call ?_
  intro t a t' ht _ h
  split at h
  · cases h
    exact ⟨ht, hp⟩
  · cases h
  · cases h

/-- A directory can only be made where nothing is: not above `base`. -/
theorem stays_mkdir {p : List (Comp N)} (hp : P (norm p) ∨ norm p <+: base) :
    Stays base P (FileM.mkdir p : FileM N D X Unit) := by
  refine stays_call ?_
  intro t a t' ht _ h
  split at h
  · cases h
  · rename_i habs
    split at h
    · cases h
      rename_i hs
      refine ⟨isDir_store hs ht (fun _ => rfl), ?_⟩
      rcases hp with hp | hp
      · exact hp
      · have hd := Tree.isDir_iff.mp (isDir_above hp ht)
        rw [hd] at habs
        exact absurd rfl habs
    · cases h

theorem stays_write {p : List (Comp N)} {d : D} (hp : P (norm p)) :
    Stays base P (FileM.write p d : FileM N D X Unit) := by
  refine stays_call ?_
  intro t a t' ht _ h
  split at h
  · cases h
  · rename_i hnd
    split at h
    · cases h
      rename_i hs
      refine ⟨isDir_store hs ht ?_, hp⟩
      intro hb
      rw [hb] at ht
      exact absurd ht hnd
    · cases h

theorem stays_unlink {p : List (Comp N)} (hp : P (norm p)) :
    Stays base P (FileM.unlink p : FileM N D X Unit) := by
  refine stays_call ?_
  intro t a t' ht _ h
  split at h
  · cases h
  · cases h
  · rename_i d hd
    split at h
    · cases h
      rename_i hc
      have hroot : norm p ≠ [] := by
        intro hr
        rw [hr, Tree.lookup_root] at hd
        cases hd
      have hne : base ≠ norm p := by
        intro hb
        rw [hb, Tree.isDir_iff, hd] at ht
        cases ht
      exact ⟨isDir_erase hc hroot ht hne, hp⟩
    · cases h

/-- The path leads to a directory whenever it can be followed. -/
def Bound (D : Type) (base : Loc N) (p : List (Comp N)) : Prop :=
  ∀ t : Tree N D, t.isDir base = true → locate t p = .ok (norm p) → t.isDir (norm p) = true

theorem stays_read_bound {p : List (Comp N)} (hb : Bound D base p) :
    Stays base P (FileM.read p : FileM N D X D) := by
  refine stays_call ?_
  intro t a t' ht hl h
  rw [Tree.isDir_iff.mp (hb t ht hl)] at h
  cases h

theorem stays_write_bound {p : List (Comp N)} (hb : Bound D base p) (d : D) :
    Stays base P (FileM.write p d : FileM N D X Unit) := by
  refine stays_call ?_
  intro t a t' ht hl h
  rw [if_pos (hb t ht hl)] at h
  cases h

theorem write_bound_error {p : List (Comp N)} (hb : Bound D base p) {t : Tree N D} (ht : t.isDir base = true)
    {d : D} {a : Unit} : ((FileM.write p d : FileM N D X Unit) t).value ≠ .ok a := by
  rw [FileM.write, FileM.call]
  cases hl : locate t p with
  | error e => exact fun h => nomatch h
  | ok l =>
    have hn := locate_eq_norm hl
    subst hn
    simp only [hb t ht hl, if_true]
    exact fun h => nomatch h

theorem stays_rmdir {p : List (Comp N)} (hp : P (norm p)) (hne : base ≠ norm p) :
    Stays base P (FileM.rmdir p : FileM N D X Unit) := by
  refine stays_call ?_
  intro t a t' ht _ h
  split at h
  · cases h
  · rename_i hroot
    split at h
    · cases h
    · cases h
    · split at h
      · cases h
        rename_i hc
        exact ⟨isDir_erase hc hroot ht hne, hp⟩
      · cases h

theorem stays_scandir [ScanOrder N D] {p : List (Comp N)} (hp : P (norm p)) :
    Stays base P (FileM.scandir p : FileM N D X _) := by
  refine stays_call ?_
  intro t a t' ht _ h
  split at h
  · cases h
  · cases h
  · cases h
    exact ⟨ht, hp⟩

theorem stays_entries [ScanOrder N D] {p : List (Comp N)} (hp : P (norm p)) :
    Stays base P (FileM.entries p : FileM N D X _) := by
  refine stays_handle (stays_bind (stays_scandir hp) fun es => stays_pure _) ?_
  intro e
  cases e with
  | os e => exact stays_pure _
  | raised x => exact stays_raise _

theorem stays_walk [ScanOrder N D] {S : Type} {body : List (Comp N) → List N → S → FileM N D X (S × Bool)}
    {Q : List (Comp N) → Prop} (hQ : ∀ p, Q p → P (norm p)) (hchild : ∀ p n, Q p → Q (p ++ [.name n]))
    (hbody : ∀ p files s, Q p → Stays base P (body p files s)) (fuel : Nat)
    {stack : List (List (Comp N))} (hs : ∀ p ∈ stack, Q p) (s : S) :
    Stays base P (FileM.walk body fuel stack s) := by
  induction fuel generalizing stack s with
  | zero => exact stays_pure s
  | succ fuel ih =>
    cases stack with
    | nil => exact stays_pure s
    | cons top stack =>
      have htop := hs top (List.mem_cons_self ..)
      have hrest : ∀ p ∈ stack, Q p := fun p hp => hs p (List.mem_cons_of_mem _ hp)
      rw [FileM.walk]
      refine stays_bind (stays_entries (hQ top htop)) ?_
      intro entries
      cases entries with
      | none => exact ih hrest s
      | some es =>
        refine stays_bind (hbody top _ s htop) ?_
        intro r
        obtain ⟨s', stop⟩ := r
        cases stop with
        | true => exact stays_pure s'
        | false =>
          refine ih ?_ s'
          intro p hp
          rcases List.mem_append.mp hp with hp | hp
          · obtain ⟨n, _, rfl⟩ := List.mem_map.mp hp
            exact hchild top n htop
          · exact hrest p hp

theorem stays_ensureDir {p : List (Comp N)} (hp : P (norm p) ∨ norm p <+: base) :
    Stays base P (FileM.ensureDir p : FileM N D X Unit) := by
  refine stays_handle (stays_mkdir hp) ?_
  intro e
  split
  · exact stays_raise _
  · refine stays_bind (stays_isDirectory p) ?_
    intro b
    cases b with
    | true => exact stays_pure ()
    | false => exact stays_raise _
  · exact stays_raise _

/-- Every directory a path passes may be made on the way. -/
theorem stays_makeDirs {p : List (Comp N)} (hp : ∀ q, q <+: p → P (norm q) ∨ norm q <+: base) :
    Stays base P (FileM.makeDirs p : FileM N D X Unit) := by
  rw [FileM.makeDirs]
  generalize hr : p.reverse = r
  induction r generalizing p with
  | nil => exact stays_ensureDir (Or.inr List.nil_prefix)
  | cons c rest ih =>
    have hp' : p = rest.reverse ++ [c] := by
      rw [← List.reverse_reverse p, hr, List.reverse_cons]
    have hrest : ∀ q, q <+: rest.reverse → P (norm q) ∨ norm q <+: base := by
      intro q hq
      exact hp q (hp' ▸ hq.trans (List.prefix_append _ _))
    have hself : P (norm (c :: rest).reverse) ∨ norm (c :: rest).reverse <+: base := by
      rw [List.reverse_cons, ← hp']
      exact hp p List.prefix_rfl
    rw [FileM.makeDirsRev]
    refine stays_handle (stays_mkdir hself) ?_
    intro e
    split
    · exact stays_bind (ih hrest (List.reverse_reverse rest)) fun _ => stays_ensureDir hself
    · refine stays_bind (stays_isDirectory _) ?_
      intro b
      cases b with
      | true => exact stays_pure ()
      | false => exact stays_raise _
    · exact stays_raise _

end Region

end Support.FileTree
