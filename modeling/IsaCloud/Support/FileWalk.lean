import IsaCloud.Support.FileSpecs
import Mathlib.Algebra.Order.Ring.Int
import Mathlib.Data.List.Pairwise

/-!
# Walking a tree

`visit` is the order in which `os.walk` comes to the directories. With enough
fuel it comes to every directory below the starting points, and to each once.
A walk whose body changes nothing is a fold over that order that may stop early.
-/

namespace Support.FileTree

set_option autoImplicit false

variable {N D X : Type} [DecidableEq N] [ScanOrder N D]

def subdirs (t : Tree N D) (l : Loc N) : List N := (ScanOrder.scan t l).filter fun n => t.isDir (l ++ [n])

def filesIn (t : Tree N D) (l : Loc N) : List N := (ScanOrder.scan t l).filter fun n => !t.isDir (l ++ [n])

def below (t : Tree N D) (l : Loc N) : List (Loc N) := (subdirs t l).map fun n => l ++ [n]

def visit (t : Tree N D) : Nat → List (Loc N) → List (Loc N)
  | 0, _ => []
  | _ + 1, [] => []
  | fuel + 1, l :: stack => l :: visit t fuel (below t l ++ stack)

theorem mem_scan {t : Tree N D} {l : Loc N} {n : N} :
    n ∈ ScanOrder.scan t l ↔ (t.lookup (l ++ [n])).isSome := by
  rw [(ScanOrder.perm t l).mem_iff, Tree.mem_children]

theorem scan_nodup (t : Tree N D) (l : Loc N) : (ScanOrder.scan t l).Nodup :=
  (ScanOrder.perm t l).nodup_iff.mpr (t.children_nodup l)

theorem mem_below {t : Tree N D} {l m : Loc N} : m ∈ below t l ↔ ∃ n, m = l ++ [n] ∧ t.isDir m = true := by
  rw [below, List.mem_map]
  constructor
  · rintro ⟨n, hn, rfl⟩
    exact ⟨n, rfl, (List.mem_filter.mp hn).2⟩
  · rintro ⟨n, rfl, hd⟩
    refine ⟨n, List.mem_filter.mpr ⟨mem_scan.mpr ?_, hd⟩, rfl⟩
    rw [Tree.isDir_iff.mp hd]
    rfl

theorem mem_filesIn {t : Tree N D} {l : Loc N} {n : N} :
    n ∈ filesIn t l ↔ ∃ d, t.lookup (l ++ [n]) = some (.file d) := by
  rw [filesIn, List.mem_filter, mem_scan, Tree.isDir]
  cases t.lookup (l ++ [n]) with
  | none => simp
  | some node => cases node <;> simp [Node.isDir]

/-! ## How much there is to walk -/

/-- The nodes at and below a location. -/
def weight (t : Tree N D) (l : Loc N) : Nat := t.nodes.keys.countP fun k => decide (l <+: k)

omit [ScanOrder N D] in
theorem countP_names_le {l k : Loc N} {ns : List N} (hn : ns.Nodup) :
    ns.countP (fun n => decide (l ++ [n] <+: k)) + (if k = l then 1 else 0) ≤ if l <+: k then 1 else 0 := by
  have huniq : ∀ {a b : N}, l ++ [a] <+: k → l ++ [b] <+: k → a = b := by
    intro a b ha hb
    have heq := (List.prefix_of_prefix_length_le ha hb (by simp)).eq_of_length (by simp)
    exact List.singleton_inj.mp (List.append_cancel_left heq)
  by_cases hk : k = l
  · have hzero : ns.countP (fun n => decide (l ++ [n] <+: k)) = 0 := by
      rw [List.countP_eq_zero]
      intro n _ h
      have := (of_decide_eq_true h).length_le
      rw [hk, List.length_append, List.length_singleton] at this
      omega
    rw [hzero, if_pos hk, hk, if_pos List.prefix_rfl]
  · rw [if_neg hk, Nat.add_zero]
    induction ns with
    | nil => simp
    | cons a ns ih =>
      obtain ⟨ha, hns⟩ := List.nodup_cons.mp hn
      by_cases hak : l ++ [a] <+: k
      · have hzero : ns.countP (fun n => decide (l ++ [n] <+: k)) = 0 := by
          rw [List.countP_eq_zero]
          intro n hmem h
          exact ha (huniq hak (of_decide_eq_true h) ▸ hmem)
        rw [List.countP_cons, hzero, if_pos (decide_eq_true hak),
          if_pos ((List.prefix_append l [a]).trans hak)]
      · rw [List.countP_cons, if_neg (by simpa using hak), Nat.add_zero]
        exact ih hns

omit [ScanOrder N D] in
theorem sum_countP_le (l : Loc N) {ns : List N} (hn : ns.Nodup) (ks : List (Loc N)) :
    (ns.map fun n => ks.countP fun k => decide (l ++ [n] <+: k)).sum + ks.countP (fun k => decide (k = l)) ≤
      ks.countP fun k => decide (l <+: k) := by
  induction ks with
  | nil => simp
  | cons k ks ih =>
    have hone := countP_names_le (l := l) (k := k) hn
    have hsum : (ns.map fun n => (k :: ks).countP fun k => decide (l ++ [n] <+: k)).sum =
        (ns.map fun n => ks.countP fun k => decide (l ++ [n] <+: k)).sum +
          ns.countP fun n => decide (l ++ [n] <+: k) := by
      clear hone ih hn
      induction ns with
      | nil => rfl
      | cons a ns ih =>
        simp only [List.map_cons, List.sum_cons, List.countP_cons] at ih ⊢
        omega
    rw [hsum, List.countP_cons, List.countP_cons]
    simp only [decide_eq_true_eq]
    omega

theorem weight_below {t : Tree N D} {l : Loc N} (hl : l ≠ []) (hd : t.isDir l = true) :
    ((below t l).map (weight t)).sum + 1 ≤ weight t l := by
  have hnodup : (subdirs t l).Nodup := (scan_nodup t l).filter _
  have hsum := sum_countP_le l hnodup t.nodes.keys
  have hmem : l ∈ t.nodes.keys := by
    rw [Dict.mem_keys]
    rw [Tree.isDir_iff, Tree.lookup, if_neg hl] at hd
    rw [hd]
    rfl
  have hpos : 0 < t.nodes.keys.countP fun k => decide (k = l) :=
    List.countP_pos_iff.mpr ⟨l, hmem, decide_eq_true rfl⟩
  have hmap : (below t l).map (weight t) =
      (subdirs t l).map fun n => t.nodes.keys.countP fun k => decide (l ++ [n] <+: k) := by
    rw [below, List.map_map]
    rfl
  rw [hmap]
  unfold weight
  omega

/-! ## Every directory once -/

/-- A stack of directories, none the root. -/
def Ready (t : Tree N D) (stack : List (Loc N)) : Prop := ∀ l ∈ stack, l ≠ [] ∧ t.isDir l = true

theorem Ready.next {t : Tree N D} {l : Loc N} {stack : List (Loc N)} (h : Ready t (l :: stack)) :
    Ready t (below t l ++ stack) := by
  intro m hm
  rcases List.mem_append.mp hm with hm | hm
  · obtain ⟨n, rfl, hd⟩ := mem_below.mp hm
    exact ⟨by simp, hd⟩
  · exact h m (List.mem_cons_of_mem l hm)

theorem fuel_next {t : Tree N D} {l : Loc N} {stack : List (Loc N)} {fuel : Nat} (h : Ready t (l :: stack))
    (hf : ((l :: stack).map (weight t)).sum ≤ fuel + 1) : ((below t l ++ stack).map (weight t)).sum ≤ fuel := by
  obtain ⟨hl, hd⟩ := h l (List.mem_cons_self ..)
  have hw := weight_below hl hd
  rw [List.map_cons, List.sum_cons] at hf
  rw [List.map_append, List.sum_append]
  omega

theorem mem_visit {t : Tree N D} {fuel : Nat} {stack : List (Loc N)} (hr : Ready t stack)
    (hf : (stack.map (weight t)).sum ≤ fuel) {d : Loc N} :
    d ∈ visit t fuel stack ↔ t.isDir d = true ∧ ∃ l ∈ stack, l <+: d := by
  induction fuel generalizing stack with
  | zero =>
    cases stack with
    | nil => simp [visit]
    | cons l stack =>
      obtain ⟨hl, hd⟩ := hr l (List.mem_cons_self ..)
      have hw := weight_below hl hd
      rw [List.map_cons, List.sum_cons] at hf
      omega
  | succ fuel ih =>
    cases stack with
    | nil => simp [visit]
    | cons l stack =>
      rw [visit, List.mem_cons, ih hr.next (fuel_next hr hf)]
      constructor
      · rintro (rfl | ⟨hd, m, hm, hmd⟩)
        · exact ⟨(hr d (List.mem_cons_self ..)).2, d, List.mem_cons_self .., List.prefix_rfl⟩
        · refine ⟨hd, ?_⟩
          rcases List.mem_append.mp hm with hm | hm
          · obtain ⟨n, rfl, _⟩ := mem_below.mp hm
            exact ⟨l, List.mem_cons_self .., (List.prefix_append l [n]).trans hmd⟩
          · exact ⟨m, List.mem_cons_of_mem l hm, hmd⟩
      · rintro ⟨hd, m, hm, hmd⟩
        rcases List.mem_cons.mp hm with rfl | hm
        · obtain ⟨r, rfl⟩ := hmd
          cases r with
          | nil => exact Or.inl (List.append_nil m)
          | cons n r =>
            have hpre : m ++ [n] <+: m ++ n :: r := ⟨r, by simp⟩
            refine Or.inr ⟨hd, m ++ [n], List.mem_append_left _ (mem_below.mpr ⟨n, rfl, ?_⟩), hpre⟩
            exact isDir_above hpre hd
        · exact Or.inr ⟨hd, m, List.mem_append_right _ hm, hmd⟩

/-- None of two lies below the other. -/
def Apart (l m : Loc N) : Prop := ¬ l <+: m ∧ ¬ m <+: l

theorem apart_next {t : Tree N D} {l : Loc N} {stack : List (Loc N)} (h : (l :: stack).Pairwise Apart) :
    (below t l ++ stack).Pairwise Apart := by
  obtain ⟨hl, hs⟩ := List.pairwise_cons.mp h
  refine List.pairwise_append.mpr ⟨?_, hs, ?_⟩
  · have hnodup : (subdirs t l).Nodup := (scan_nodup t l).filter _
    refine List.pairwise_map.mpr (hnodup.imp ?_)
    intro a b hab
    have hne : ∀ {x y : N}, x ≠ y → ¬ l ++ [x] <+: l ++ [y] := by
      intro x y hxy hp
      exact hxy (List.singleton_inj.mp (List.append_cancel_left (hp.eq_of_length (by simp))))
    exact ⟨hne hab, hne hab.symm⟩
  · intro m hm s hs
    obtain ⟨n, rfl, _⟩ := mem_below.mp hm
    obtain ⟨h1, h2⟩ := hl s hs
    refine ⟨fun hp => h1 ((List.prefix_append l [n]).trans hp), ?_⟩
    intro hp
    rcases List.prefix_concat_iff.mp hp with rfl | hp
    · exact h1 (List.prefix_append l [n])
    · exact h2 hp

theorem visit_nodup {t : Tree N D} {fuel : Nat} {stack : List (Loc N)} (hr : Ready t stack)
    (hf : (stack.map (weight t)).sum ≤ fuel) (ha : stack.Pairwise Apart) : (visit t fuel stack).Nodup := by
  induction fuel generalizing stack with
  | zero => exact List.nodup_nil
  | succ fuel ih =>
    cases stack with
    | nil => exact List.nodup_nil
    | cons l stack =>
      rw [visit, List.nodup_cons]
      refine ⟨?_, ih hr.next (fuel_next hr hf) (apart_next ha)⟩
      intro hmem
      obtain ⟨_, m, hm, hml⟩ := (mem_visit hr.next (fuel_next hr hf)).mp hmem
      rcases List.mem_append.mp hm with hm | hm
      · obtain ⟨n, rfl, _⟩ := mem_below.mp hm
        have := hml.length_le
        rw [List.length_append, List.length_singleton] at this
        omega
      · exact ((List.pairwise_cons.mp ha).1 m hm).2 hml

/-! ## The walk as a fold -/

def foldStop {S : Type} (g : Loc N → S → S × Bool) : List (Loc N) → S → S
  | [], s => s
  | l :: ls, s => if (g l s).2 then (g l s).1 else foldStop g ls (g l s).1

omit [ScanOrder N D] in
theorem entries_split {t : Tree N D} {l : Loc N} (p : Node D → Bool) (q : N → Bool)
    (hq : ∀ n node, t.lookup (l ++ [n]) = some node → q n = p node) {ns : List N}
    (hn : ∀ n ∈ ns, (t.lookup (l ++ [n])).isSome) :
    (((ns.filterMap fun n => (t.lookup (l ++ [n])).map fun node => (n, node)).filter fun e => p e.2).map Prod.fst) =
      ns.filter q := by
  induction ns with
  | nil => rfl
  | cons n ns ih =>
    obtain ⟨node, hnode⟩ := Option.isSome_iff_exists.mp (hn n (List.mem_cons_self ..))
    have hrest := ih fun m hm => hn m (List.mem_cons_of_mem n hm)
    rw [List.filterMap_cons_some (b := (n, node)) (by rw [hnode]; rfl), List.filter_cons, List.filter_cons, hq n node hnode]
    cases p node with
    | true => rw [if_pos rfl, if_pos rfl, List.map_cons, hrest]
    | false => rw [if_neg Bool.false_ne_true, if_neg Bool.false_ne_true, hrest]

/-- A walk that changes nothing: `R` holds of what it has collected whenever it goes on. -/
theorem walk_eq {S : Type} {body : List (Comp N) → List N → S → FileM N D X (S × Bool)} {t : Tree N D}
    {g : Loc N → S → S × Bool} {Q : Loc N → Prop} {R : S → Prop} (hchild : ∀ l n, Q l → Q (l ++ [n]))
    (hbody : ∀ l s, Q l → t.isDir l = true → R s → Runs (body (l.map .name) (filesIn t l) s) t (.ok (g l s)) t)
    (hnext : ∀ l s, Q l → t.isDir l = true → R s → (g l s).2 = false → R (g l s).1)
    (fuel : Nat) {stack : List (Loc N)} (hr : Ready t stack) (hs : ∀ l ∈ stack, Q l) {s : S} (hR : R s) :
    Runs (FileM.walk body fuel (stack.map fun l => l.map .name) s) t (.ok (foldStop g (visit t fuel stack) s)) t := by
  induction fuel generalizing stack s with
  | zero => exact runs_pure s t
  | succ fuel ih =>
    cases stack with
    | nil => exact runs_pure s t
    | cons l stack =>
      have hd := (hr l (List.mem_cons_self ..)).2
      have hQ := hs l (List.mem_cons_self ..)
      have hsome : ∀ n ∈ ScanOrder.scan t l, (t.lookup (l ++ [n])).isSome := fun n hn => mem_scan.mp hn
      have hdirs := entries_split (t := t) (l := l) Node.isDir (fun n => t.isDir (l ++ [n]))
        (fun n node hnode => by rw [Tree.isDir, hnode]; rfl) hsome
      have hfiles := entries_split (t := t) (l := l) (fun node => !node.isDir) (fun n => !t.isDir (l ++ [n]))
        (fun n node hnode => by rw [Tree.isDir, hnode]; rfl) hsome
      have hb := hbody l s hQ hd hR
      rw [filesIn] at hb
      rw [List.map_cons, FileM.walk, visit, foldStop]
      refine (runs_of_eq (entries_dir (Tree.isDir_iff.mp hd))).bind ?_
      dsimp only
      rw [hdirs, hfiles]
      refine hb.bind ?_
      cases hstop : (g l s).2 with
      | true =>
        rw [if_pos rfl]
        simp only [if_true]
        exact runs_pure _ t
      | false =>
        have hstack : ∀ m ∈ below t l ++ stack, Q m := by
          intro m hm
          rcases List.mem_append.mp hm with hm | hm
          · obtain ⟨n, rfl, _⟩ := mem_below.mp hm
            exact hchild l n hQ
          · exact hs m (List.mem_cons_of_mem l hm)
        have hrec := ih hr.next hstack (hnext l s hQ hd hR hstop)
        have hmap : (below t l ++ stack).map (fun l => l.map Comp.name) =
            (subdirs t l).map (fun n => l.map Comp.name ++ [.name n]) ++ stack.map fun l => l.map .name := by
          rw [List.map_append, below, List.map_map]
          congr 1
          refine List.map_congr_left ?_
          intro n _
          simp
        rw [hmap, subdirs] at hrec
        simp only [Bool.false_eq_true, if_false]
        exact hrec

/-- A walk from one directory comes only to places below it. -/
theorem walk_below_eq {S : Type} {body : List (Comp N) → List N → S → FileM N D X (S × Bool)} {t : Tree N D}
    {g : Loc N → S → S × Bool} {R : S → Prop} {top : Loc N}
    (hbody : ∀ dir s, R s → Runs (body ((top ++ dir).map .name) (filesIn t (top ++ dir)) s) t (.ok (g (top ++ dir) s)) t)
    (hnext : ∀ l s, R s → (g l s).2 = false → R (g l s).1)
    (fuel : Nat) (hr : Ready t [top]) {s : S} (hR : R s) :
    Runs (FileM.walk body fuel [top.map .name] s) t (.ok (foldStop g (visit t fuel [top]) s)) t := by
  refine walk_eq (Q := fun l => ∃ dir, l = top ++ dir) ?_ ?_ (fun l s _ _ => hnext l s) fuel hr ?_ hR
  · rintro l n ⟨dir, rfl⟩
    exact ⟨dir ++ [n], List.append_assoc ..⟩
  · rintro l s ⟨dir, rfl⟩ _ hs
    exact hbody dir s hs
  · intro l hl
    exact ⟨[], by rw [List.mem_singleton.mp hl, List.append_nil]⟩

end Support.FileTree
