import Mathlib.Data.List.Basic

/-!
# Directory listings

What a directory holds, in the order in which the system lists it, with all that
lies below. A link is stored with the place where it leads in the end, by names
from the root, so one step follows it. `walk` takes the files of a directory
before its subdirectories and does not go into a directory through a link. Two
tests say which directories it goes into and which files it yields; a walk that
is pruned in this way is the whole walk with a filter over it.
-/

namespace Support

set_option autoImplicit false

inductive Listing (N D : Type) where
  | nil
  | file (name : N) (data : D) (rest : Listing N D)
  | dir (name : N) (entries rest : Listing N D)
  | link (name : N) (target : List N) (rest : Listing N D)
  deriving DecidableEq

inductive Item (N D : Type) where
  | file (data : D)
  | dir (entries : Listing N D)
  | link (target : List N)

namespace Listing
variable {N D : Type}

/-! ## Following names -/

section Follow
variable [DecidableEq N]

def names : Listing N D → List N
  | nil => []
  | file n _ rest => n :: rest.names
  | dir n _ rest => n :: rest.names
  | link n _ rest => n :: rest.names

def find (n : N) : Listing N D → Option (Item N D)
  | nil => none
  | file m d rest => if m = n then some (.file d) else rest.find n
  | dir m entries rest => if m = n then some (.dir entries) else rest.find n
  | link m target rest => if m = n then some (.link target) else rest.find n

/-- What the names lead to; a link counts as itself. -/
def item : List N → Listing N D → Option (Item N D)
  | [], l => some (.dir l)
  | n :: p, l =>
    match l.find n with
    | some (.dir entries) => entries.item p
    | found => if p.isEmpty then found else none

/-- `Path.resolve()`, from the root. -/
def resolve (root : Listing N D) (p : List N) : List N :=
  p.foldl (fun q n =>
    match root.item (q ++ [n]) with
    | some (.link target) => target
    | _ => q ++ [n]) []

def isDir (root : Listing N D) (p : List N) : Bool :=
  match root.item (root.resolve p) with
  | some (.dir _) => true
  | _ => false

/-- What the file at a place holds, links followed. -/
def dataAt (root : Listing N D) (p : List N) : Option D :=
  match root.item (root.resolve p) with
  | some (.file d) => some d
  | _ => none

def targets : Listing N D → List (List N)
  | nil => []
  | file _ _ rest => rest.targets
  | dir _ entries rest => entries.targets ++ rest.targets
  | link _ target rest => target :: rest.targets

/-- No directory has two entries of one name. -/
def distinct : Listing N D → Bool
  | nil => true
  | file n _ rest => !rest.names.contains n && rest.distinct
  | dir n entries rest => !rest.names.contains n && entries.distinct && rest.distinct
  | link n _ rest => !rest.names.contains n && rest.distinct

/-- Names are distinct, and no link leads to a place that is reached through another. -/
def wellFormed (root : Listing N D) : Bool :=
  root.distinct && root.targets.all fun target => root.resolve target == target

end Follow

/-! ## Walks -/

section Walk
variable [DecidableEq N] (root : Listing N D)

/-- The entries that are not directories, links followed. -/
def filenames : Listing N D → List N
  | nil => []
  | file n _ rest => n :: filenames rest
  | dir _ _ rest => filenames rest
  | link n target rest => if root.isDir target then filenames rest else n :: filenames rest

/-- The files below the directories of a listing. -/
def filesBelow : Listing N D → List (List N)
  | nil => []
  | file _ _ rest => filesBelow rest
  | dir n entries rest =>
    ((filenames root entries).map ([·]) ++ filesBelow entries).map (n :: ·) ++ filesBelow rest
  | link _ _ rest => filesBelow rest

def allFiles (l : Listing N D) : List (List N) := (filenames root l).map ([·]) ++ filesBelow root l

variable (keepDir keepFile : List N → N → Bool)

def walkHere (top : List N) (l : Listing N D) : List (List N) :=
  ((filenames root l).filter (keepFile top)).map fun n => top ++ [n]

def walkBelow (top : List N) : Listing N D → List (List N)
  | nil => []
  | file _ _ rest => walkBelow top rest
  | dir n entries rest =>
    (if keepDir top n then walkHere root keepFile (top ++ [n]) entries ++ walkBelow (top ++ [n]) entries else []) ++
      walkBelow top rest
  | link _ _ rest => walkBelow top rest

/-- `os.walk(top)`, with the names taken out of `dirnames` and `filenames` on the way. -/
def walk (top : List N) (l : Listing N D) : List (List N) :=
  walkHere root keepFile top l ++ walkBelow root keepDir keepFile top l

/-- The tests that a file below `top` has to pass to be yielded. -/
def keeps : List N → List N → Bool
  | _, [] => false
  | top, n :: p => if p.isEmpty then keepFile top n else keepDir top n && keeps (top ++ [n]) p

variable {root keepDir keepFile}

theorem ne_nil_of_mem_filesBelow {l : Listing N D} {p : List N} (h : p ∈ filesBelow root l) : p ≠ [] := by
  induction l with
  | nil => cases h
  | file n d rest ih => exact ih h
  | dir n entries rest _ ih =>
    rcases List.mem_append.mp h with h | h
    · obtain ⟨q, _, rfl⟩ := List.mem_map.mp h
      exact List.cons_ne_nil n q
    · exact ih h
  | link n target rest ih => exact ih h

theorem ne_nil_of_mem_allFiles {l : Listing N D} {p : List N} (h : p ∈ allFiles root l) : p ≠ [] := by
  rcases List.mem_append.mp h with h | h
  · obtain ⟨n, _, rfl⟩ := List.mem_map.mp h
    exact List.cons_ne_nil n []
  · exact ne_nil_of_mem_filesBelow h

omit [DecidableEq N] in
theorem keeps_cons {top p : List N} {n : N} (hp : p ≠ []) :
    keeps keepDir keepFile top (n :: p) = (keepDir top n && keeps keepDir keepFile (top ++ [n]) p) := by
  rw [keeps, if_neg (by rwa [List.isEmpty_iff])]

theorem walkHere_eq (top : List N) (l : Listing N D) :
    walkHere root keepFile top l =
      (((filenames root l).map ([·])).filter (keeps keepDir keepFile top)).map (top ++ ·) := by
  rw [walkHere, List.filter_map, List.map_map]
  rfl

omit [DecidableEq N] in
/-- What lies below one directory: nothing if it is pruned, and else what the walk from there yields. -/
theorem filter_keeps_cons {ps : List (List N)} (hps : ∀ p ∈ ps, p ≠ []) (top : List N) (n : N) :
    ((ps.map (n :: ·)).filter (keeps keepDir keepFile top)).map (top ++ ·) =
      if keepDir top n then (ps.filter (keeps keepDir keepFile (top ++ [n]))).map (top ++ [n] ++ ·) else [] := by
  rw [List.filter_map, List.map_map]
  have htest : ps.filter (keeps keepDir keepFile top ∘ (n :: ·)) =
      ps.filter fun p => keepDir top n && keeps keepDir keepFile (top ++ [n]) p :=
    List.filter_congr fun p hp => keeps_cons (hps p hp)
  rw [htest]
  cases keepDir top n with
  | false => simp
  | true =>
    rw [if_pos rfl]
    apply List.map_congr_left
    intro p _
    rw [List.append_assoc, List.singleton_append]
    rfl

theorem walkBelow_eq (top : List N) (l : Listing N D) :
    walkBelow root keepDir keepFile top l =
      ((filesBelow root l).filter (keeps keepDir keepFile top)).map (top ++ ·) := by
  induction l generalizing top with
  | nil => rfl
  | file n d rest ih => exact ih top
  | dir n entries rest ihEntries ihRest =>
    have hfiles : ∀ p ∈ (filenames root entries).map ([·]) ++ filesBelow root entries, p ≠ [] :=
      fun p hp => ne_nil_of_mem_allFiles hp
    rw [walkBelow, filesBelow, List.filter_append, List.map_append, filter_keeps_cons hfiles, ihRest, ihEntries,
      @walkHere_eq _ _ _ _ keepDir, List.filter_append, List.map_append]
  | link n target rest ih => exact ih top

/-- A pruned walk is the whole walk with a filter, wherever it starts. -/
theorem walk_eq (top : List N) (l : Listing N D) :
    walk root keepDir keepFile top l = ((allFiles root l).filter (keeps keepDir keepFile top)).map (top ++ ·) := by
  rw [walk, allFiles, List.filter_append, List.map_append, @walkHere_eq _ _ _ _ keepDir, walkBelow_eq]

omit [DecidableEq N] in
/-- A file is kept exactly if it passes its test and every directory that leads to it passes the other. -/
theorem keeps_iff {top p : List N} : keeps keepDir keepFile top p = true ↔
    ∃ q n, p = q ++ [n] ∧ keepFile (top ++ q) n = true ∧
      ∀ d m, d ++ [m] <+: q → keepDir (top ++ d) m = true := by
  induction p generalizing top with
  | nil => simp [keeps]
  | cons a p ih =>
    by_cases hp : p = []
    · subst p
      rw [keeps, List.isEmpty_nil, if_pos rfl]
      constructor
      · intro h
        refine ⟨[], a, rfl, by rwa [List.append_nil], ?_⟩
        intro d m hd
        simp at hd
      · rintro ⟨q, n, he, h, _⟩
        rw [← List.nil_append [a]] at he
        obtain ⟨rfl, he⟩ := List.append_inj' he rfl
        rw [List.append_nil] at h
        rwa [(List.cons.inj he).1]
    · rw [keeps_cons hp, Bool.and_eq_true, ih]
      constructor
      · rintro ⟨ha, q, n, rfl, hn, hdirs⟩
        refine ⟨a :: q, n, rfl, by rwa [List.append_assoc] at hn, ?_⟩
        intro d m hd
        cases d with
        | nil =>
          obtain rfl : m = a := (List.cons_prefix_cons.mp hd).1
          rwa [List.append_nil]
        | cons b d =>
          obtain ⟨rfl, hrest⟩ := List.cons_prefix_cons.mp hd
          have h := hdirs d m hrest
          rwa [List.append_assoc] at h
      · rintro ⟨q, n, he, hn, hdirs⟩
        cases q with
        | nil => exact absurd (List.cons.inj he).2 hp
        | cons b q =>
          obtain ⟨rfl, rfl⟩ := List.cons.inj he
          refine ⟨?_, q, n, rfl, by rwa [List.append_assoc], ?_⟩
          · have h := hdirs [] a (by simp)
            rwa [List.append_nil] at h
          · intro d m hd
            rw [List.append_assoc]
            exact hdirs (a :: d) m (List.cons_prefix_cons.mpr ⟨rfl, hd⟩)

/-- Two pairs of tests, one at `top` and one at the root, that differ by one condition. -/
theorem walk_shift {keepDir' keepFile' : List N → N → Bool} {top : List N} {t : Bool}
    (hdir : ∀ d n, keepDir' (top ++ d) n = (keepDir d n && t))
    (hfile : ∀ d n, keepFile' (top ++ d) n = (keepFile d n && t)) (l : Listing N D) :
    walk root keepDir' keepFile' top l = if t then (walk root keepDir keepFile [] l).map (top ++ ·) else [] := by
  have hkeeps : ∀ p d, keeps keepDir' keepFile' (top ++ d) p = (keeps keepDir keepFile d p && t) := by
    intro p
    induction p with
    | nil => exact fun d => rfl
    | cons n p ih =>
      intro d
      by_cases hp : p = []
      · rw [hp]
        exact hfile d n
      · rw [keeps_cons hp, keeps_cons hp, hdir, List.append_assoc, ih]
        cases t <;> simp
  have hroot := fun p => hkeeps p []
  rw [List.append_nil] at hroot
  rw [walk_eq, walk_eq]
  cases t with
  | true =>
    rw [if_pos rfl, List.map_map, List.filter_congr fun p _ => (hroot p).trans (Bool.and_true _)]
    rfl
  | false =>
    rw [if_neg Bool.false_ne_true, List.filter_congr fun p _ => (hroot p).trans (Bool.and_false _)]
    simp

end Walk

end Listing

end Support
