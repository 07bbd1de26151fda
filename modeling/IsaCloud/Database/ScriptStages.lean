import IsaCloud.Database.ScriptSeams
import IsaCloud.Database.ScriptTypes
import IsaCloud.Database.SqlTranslation
import IsaCloud.Support.Occurrences
import Mathlib.Algebra.BigOperators.Group.List.Basic

/-!
# A replacement on a reading

A reading is spelled with some word for each occurrence. Where a replacement finds no
text across the boundary of a word, it replaces within the words and within the other
texts alone; if it finds no more than the words account for, it spares the others.
-/

/-! ## Replacing several texts in turn

A replacement treats two parts alone when no occurrence crosses from one into the
other. Of any kind of character it takes away and brings in what its occurrences do,
so the characters of the result tell how many there were.
-/

namespace IsaCloud.Database

set_option autoImplicit false

open Support Support.Text Support.Occurrences

section Replace
variable {old new : Str}

/-! ## Parts -/

theorem replaceText_of_count {s : Str} (h : count old s = 0) : replaceText old new s = s := by
  induction s with
  | nil => rfl
  | cons c s ih =>
    rw [count, Nat.add_eq_zero_iff] at h
    have hfirst : ¬ old <+: c :: s := by
      intro hp
      rw [if_pos hp] at h
      exact absurd h.1 Nat.one_ne_zero
    rw [replaceText_cons hfirst, ih h.2]

/-- An occurrence at the beginning. -/
theorem replaceText_self_append (hold : old ≠ []) (s : Str) :
    replaceText old new (old ++ s) = new ++ replaceText old new s := by
  rw [replaceText_found hold (List.prefix_append old s), List.drop_left]

theorem replaceText_append_of_not_crosses (hold : old ≠ []) {x y : Str} (h : ¬ Crosses old x y) :
    replaceText old new (x ++ y) = replaceText old new x ++ replaceText old new y := by
  induction hn : x.length using Nat.strong_induction_on generalizing x with
  | _ n ih =>
    cases x with
    | nil => rfl
    | cons c x =>
      by_cases hp : old <+: c :: (x ++ y)
      · have hin := (prefix_append_cases (List.cons_ne_nil c x) hp).resolve_right h
        obtain ⟨x', hx'⟩ := hin
        have hpos := List.length_pos_iff.mpr hold
        have hlen := congrArg List.length hx'
        rw [List.length_append] at hlen
        rw [← hx'] at h ⊢
        rw [List.append_assoc, replaceText_self_append hold, replaceText_self_append hold,
          ih x'.length (by omega) (fun hcross => h (hcross.append_left old)) rfl, List.append_assoc]
      · have hnot : ¬ old <+: c :: x := fun hin => hp (hin.trans (List.prefix_append (c :: x) y))
        rw [List.cons_append, replaceText_cons hp, replaceText_cons hnot, List.cons_append,
          ih x.length (by rw [← hn, List.length_cons]; omega) (fun hcross => h (hcross.append_left [c])) rfl]

theorem replaceText_flatten (hold : old ≠ []) {xs : List Str} (h : Separate old xs) :
    replaceText old new xs.flatten = (xs.map (replaceText old new)).flatten := by
  induction xs with
  | nil => rfl
  | cons x xs ih =>
    rw [List.flatten_cons, replaceText_append_of_not_crosses hold h.1, ih h.2, List.map_cons, List.flatten_cons]

/-! ## Characters -/

theorem countP_replaceText (hold : old ≠ []) (hself : Unbordered old) (f : CodePoint → Bool) (s : Str) :
    (replaceText old new s).countP f + count old s * old.countP f = s.countP f + count old s * new.countP f := by
  induction hn : s.length using Nat.strong_induction_on generalizing s with
  | _ n ih =>
    cases s with
    | nil => rw [count, Nat.zero_mul, Nat.zero_mul]; rfl
    | cons c s =>
      by_cases hp : old <+: c :: s
      · obtain ⟨s', hs'⟩ := hp
        have hpos := List.length_pos_iff.mpr hold
        have hlen := congrArg List.length hs'
        rw [List.length_append] at hlen
        have hrest := ih s'.length (by omega) s' rfl
        rw [← hs', replaceText_self_append hold, count_self_append hold hself, List.countP_append, List.countP_append,
          Nat.add_mul, Nat.add_mul]
        omega
      · have hrest := ih s.length (by rw [← hn, List.length_cons]; omega) s rfl
        rw [replaceText_cons hp, count, if_neg hp, Nat.zero_add, List.countP_cons, List.countP_cons]
        omega

end Replace

/-! ## A table of replacements -/

/-- How often each replacement finds its text. -/
def tallies : List (Str × Str) → Str → List Nat
  | [], _ => []
  | e :: table, s => count e.1 s :: tallies table (replaceText e.1 e.2 s)

def weighted (ns ws : List Nat) : Nat := (List.zipWith (· * ·) ns ws).sum

theorem countP_replaceEach (f : CodePoint → Bool) {table : List (Str × Str)}
    (h : ∀ e ∈ table, e.1 ≠ [] ∧ Unbordered e.1) (s : Str) :
    (replaceEach table s).countP f + weighted (tallies table s) (table.map fun e => e.1.countP f) =
      s.countP f + weighted (tallies table s) (table.map fun e => e.2.countP f) := by
  induction table generalizing s with
  | nil => rfl
  | cons e table ih =>
    obtain ⟨hold, hself⟩ := h e List.mem_cons_self
    have hone := @countP_replaceText e.1 e.2 hold hself f s
    have hrest := ih (fun e' he' => h e' (List.mem_cons_of_mem e he')) (replaceText e.1 e.2 s)
    have hcons : ∀ w ws, weighted (tallies (e :: table) s) (w :: ws) =
        count e.1 s * w + weighted (tallies table (replaceText e.1 e.2 s)) ws := fun w ws => List.sum_cons
    rw [replaceEach, List.map_cons, List.map_cons, hcons, hcons]
    omega

end IsaCloud.Database

namespace IsaCloud.Database

set_option autoImplicit false

open Support Support.Text Support.Occurrences

/-! ## Pieces -/

namespace Reading

def pieces (w : Occurrence → Str) (r : Reading) : List Str := r.lead :: r.units.flatMap fun u => [w u.1, u.2]

def mapOthers (g : Str → Str) (r : Reading) : Reading := ⟨g r.lead, r.units.map fun u => (u.1, g u.2)⟩

/-- A sum over the occurrences. -/
def total (g : Occurrence → Nat) (r : Reading) : Nat := (r.units.map fun u => g u.1).sum

/-- A sum over the other texts. -/
def totalOthers (g : Str → Nat) (r : Reading) : Nat := (r.others.map g).sum

theorem total_cons (g : Occurrence → Nat) (lead : Str) (u : Occurrence × Str) (units : List (Occurrence × Str)) :
    total g ⟨lead, u :: units⟩ = g u.1 + total g ⟨lead, units⟩ := List.sum_cons

theorem units_flatten (w : Occurrence → Str) (units : List (Occurrence × Str)) :
    (units.flatMap fun u => [w u.1, u.2]).flatten = units.flatMap fun u => w u.1 ++ u.2 := by
  induction units with
  | nil => rfl
  | cons u units ih =>
    rw [List.flatMap_cons, List.flatten_append, ih, List.flatMap_cons]
    simp only [List.flatten_cons, List.flatten_nil, List.append_nil]

theorem pieces_flatten (w : Occurrence → Str) (r : Reading) : (r.pieces w).flatten = r.render w := by
  rw [pieces, List.flatten_cons, units_flatten, render]

theorem map_pieces (g : Str → Str) (w : Occurrence → Str) (r : Reading) :
    (r.pieces w).map g = (r.mapOthers g).pieces fun o => g (w o) := by
  rw [pieces, pieces, mapOthers, List.map_cons, List.map_flatMap, List.flatMap_map]
  rfl

theorem sum_pieces (g : Str → Nat) (w : Occurrence → Str) (r : Reading) :
    ((r.pieces w).map g).sum = r.totalOthers g + r.total fun o => g (w o) := by
  have hunits : ∀ us : List (Occurrence × Str), ((us.flatMap fun u => [w u.1, u.2]).map g).sum =
      ((us.map Prod.snd).map g).sum + (us.map fun u => g (w u.1)).sum := by
    intro us
    induction us with
    | nil => rfl
    | cons u us ih =>
      rw [List.flatMap_cons, List.map_append, List.sum_append, ih]
      simp only [List.map_cons, List.map_nil, List.sum_cons, List.sum_nil]
      omega
  rw [pieces, List.map_cons, List.sum_cons, hunits, totalOthers, others, total, List.map_cons, List.sum_cons]
  omega

theorem mapOthers_eq_self {g : Str → Str} {r : Reading} (h : ∀ s ∈ r.others, g s = s) : r.mapOthers g = r := by
  have hunits : ∀ u ∈ r.units, (u.1, g u.2) = u := by
    intro u hu
    rw [h u.2 (List.mem_cons_of_mem _ (List.mem_map_of_mem hu))]
  rw [mapOthers, h r.lead List.mem_cons_self, List.map_congr_left hunits, List.map_id']

theorem others_mapOthers (g : Str → Str) (r : Reading) : (r.mapOthers g).others = r.others.map g := by
  rw [others, others, mapOthers, List.map_cons, List.map_map, List.map_map]
  rfl

variable {old new : Str} {w : Occurrence → Str} {r : Reading}

theorem replaceText_render (hold : old ≠ []) (h : Separate old (r.pieces w)) :
    replaceText old new (r.render w) =
      (r.mapOthers (replaceText old new)).render fun o => replaceText old new (w o) := by
  rw [← pieces_flatten, replaceText_flatten hold h, map_pieces, pieces_flatten]

/-- Where the other texts are spared. -/
theorem replaceText_render_of_others (hold : old ≠ []) (h : Separate old (r.pieces w))
    (hothers : ∀ s ∈ r.others, count old s = 0) :
    replaceText old new (r.render w) = r.render fun o => replaceText old new (w o) := by
  rw [replaceText_render hold h, mapOthers_eq_self]
  intro s hs
  exact replaceText_of_count (hothers s hs)

/-- No more is found than the words account for. -/
theorem separate_of_count (h : count old (r.render w) ≤ r.total fun o => count old (w o)) :
    Separate old (r.pieces w) ∧ ∀ s ∈ r.others, count old s = 0 := by
  have hle := sum_count_le old (r.pieces w)
  rw [pieces_flatten, sum_pieces] at hle
  constructor
  · apply count_flatten_iff.mp
    rw [pieces_flatten, sum_pieces]
    omega
  · have hzero : r.totalOthers (count old) = 0 := by omega
    intro s hs
    exact List.sum_eq_zero_iff_forall_eq_nat.mp hzero _ (List.mem_map_of_mem hs)

end Reading

/-! ## No occurrence across a boundary -/

/-- The last characters of what stands before a word, also of a TEXT that was an array. -/
def joint (c : CodePoint) : Bool := markChar c || decide (c = cp 'T')

/-- The words and the texts after them leave the pattern no place across a boundary. -/
structure Fits (p : Str) (w : Occurrence → Str) (units : List (Occurrence × Str)) : Prop where
  before : ∀ u ∈ units, ∀ i c, 0 < i → i < p.length → p[i - 1]? = some c → joint c = true →
    ¬ p.drop i <+: w u.1 ∧ ¬ w u.1 <+: p.drop i
  after : ∀ u ∈ units, ∀ i, 0 < i → i < p.length → p.take i <:+ w u.1 → ¬ p.drop i <+: u.2
  arrays : ∀ u ∈ units, 0 < u.1.dims → ∀ i c, 0 < i → i < p.length → p.take i <:+ w u.1 → p[i - 1]? = some c →
    joint c = true

theorem last_of_take {p x : Str} {c : CodePoint} {i : Nat} (hpos : 0 < i) (hi : i < p.length)
    (h : p.take i <:+ x ++ [c]) : p[i - 1]? = some c := by
  obtain ⟨t, ht⟩ := h
  have hlast : (p.take i).getLast? = some c := by
    have hne : p.take i ≠ [] := by
      intro hnil
      have hlen := congrArg List.length hnil
      rw [List.length_take, List.length_nil] at hlen
      omega
    have hwhole : (t ++ p.take i).getLast? = some c := by rw [ht, List.getLast?_concat]
    rw [List.getLast?_append_of_ne_nil _ hne] at hwhole
    exact hwhole
  rw [List.getLast?_eq_getElem?, List.length_take, Nat.min_eq_left (Nat.le_of_lt hi),
    List.getElem?_take_of_lt (Nat.sub_lt hpos Nat.zero_lt_one)] at hlast
  exact hlast

section Fits
variable {p : Str} {w : Occurrence → Str}

/-- The rest of a pattern does not reach beyond the text before the next word. -/
theorem reach {rest : Str} {us : List (Occurrence × Str)} (hf : Fits p w us) {i : Nat} (hpos : 0 < i)
    (hi : i < p.length) (hrest : us ≠ [] → Bounded rest)
    (hempty : rest = [] → us ≠ [] → ∀ c, p[i - 1]? = some c → joint c = true)
    (h : p.drop i <+: rest ++ us.flatMap fun u => w u.1 ++ u.2) : p.drop i <+: rest := by
  rcases Nat.lt_or_ge rest.length (p.drop i).length with hlt | hge
  · exfalso
    obtain ⟨more, hmore⟩ := List.prefix_of_prefix_length_le (List.prefix_append rest _) h (Nat.le_of_lt hlt)
    rw [← hmore, List.prefix_append_right_inj] at h
    rw [List.length_drop] at hlt
    have hdrop : p.drop (i + rest.length) = more := by
      rw [← List.drop_drop, ← hmore, List.drop_left]
    cases us with
    | nil =>
      have hnil := List.prefix_nil.mp h
      rw [hnil, List.append_nil] at hmore
      have hlen := congrArg List.length hmore
      rw [List.length_drop] at hlen
      omega
    | cons u us =>
      obtain ⟨c, hc⟩ : ∃ c, p[i + rest.length - 1]? = some c := ⟨_, List.getElem?_eq_getElem (by omega)⟩
      have hjoint : joint c = true := by
        rcases hrest (List.cons_ne_nil u us) with rfl | ⟨r, d, rfl, hd⟩
        · exact hempty rfl (List.cons_ne_nil u us) c hc
        · have hsame : p[i + (r ++ [d]).length - 1]? = some d := by
            have hget : (p.drop i)[r.length]? = some d := by
              rw [← hmore, List.append_assoc, List.getElem?_append_right (Nat.le_refl _), Nat.sub_self]
              rfl
            rw [List.getElem?_drop] at hget
            rw [List.length_append, List.length_singleton, ← Nat.add_assoc, Nat.add_sub_cancel]
            exact hget
          rw [hsame, Option.some.injEq] at hc
          rw [← hc, joint, hd, Bool.true_or]
      have hbefore := hf.before u List.mem_cons_self (i + rest.length) c (by omega) (by omega) hc hjoint
      rw [hdrop] at hbefore
      rw [List.flatMap_cons, List.append_assoc] at h
      rcases Nat.lt_or_ge more.length (w u.1).length with hshort | hlong
      · exact hbefore.1 (List.prefix_of_prefix_length_le h (List.prefix_append _ _) (Nat.le_of_lt hshort))
      · exact hbefore.2 (List.prefix_of_prefix_length_le (List.prefix_append _ _) h hlong)
  · exact List.prefix_of_prefix_length_le h (List.prefix_append rest _) hge

theorem Fits.tail {u : Occurrence × Str} {us : List (Occurrence × Str)} (hf : Fits p w (u :: us)) : Fits p w us where
  before u' hu' := hf.before u' (List.mem_cons_of_mem u hu')
  after u' hu' := hf.after u' (List.mem_cons_of_mem u hu')
  arrays u' hu' := hf.arrays u' (List.mem_cons_of_mem u hu')

/-- A text that ends where a word may begin is not crossed into the next word. -/
theorem not_crosses_other {x : Str} {us : List (Occurrence × Str)} (hf : Fits p w us) (hx : us ≠ [] → Bounded x) :
    ¬ Crosses p x (us.flatMap fun u => w u.1 ++ u.2) := by
  rintro ⟨i, hpos, hi, htake, hdrop⟩
  have hne : us ≠ [] := by
    rintro rfl
    have hlen := (List.prefix_nil.mp hdrop)
    rw [List.drop_eq_nil_iff] at hlen
    omega
  rcases hx hne with rfl | ⟨r, d, rfl, hd⟩
  · exact not_crosses_nil ⟨i, hpos, hi, htake, hdrop⟩
  · have hlast := last_of_take hpos hi htake
    have hin : p.drop i <+: [] := by
      apply @reach p w [] us hf i hpos hi (fun _ => .inl rfl) _ hdrop
      intro _ _ c hc
      rw [hlast, Option.some.injEq] at hc
      rw [← hc, joint, hd, Bool.true_or]
    rw [List.prefix_nil, List.drop_eq_nil_iff] at hin
    omega

theorem separate_units {left : Str} {us : List (Occurrence × Str)} (hs : Seamed left us) (hf : Fits p w us) :
    Separate p (us.flatMap fun u => [w u.1, u.2]) := by
  induction us generalizing left with
  | nil => trivial
  | cons u us ih =>
    obtain ⟨o, rest⟩ := u
    obtain ⟨_, hstops, hrest⟩ := hs
    have hbounded := hrest.bounded
    show ¬ Crosses p (w o) (rest :: us.flatMap fun u => [w u.1, u.2]).flatten ∧
      ¬ Crosses p rest (us.flatMap fun u => [w u.1, u.2]).flatten ∧ Separate p (us.flatMap fun u => [w u.1, u.2])
    rw [List.flatten_cons, Reading.units_flatten]
    refine ⟨?_, not_crosses_other hf.tail hbounded, ih hrest hf.tail⟩
    rintro ⟨i, hpos, hi, htake, hdrop⟩
    apply hf.after (o, rest) List.mem_cons_self i hpos hi htake
    apply reach hf.tail hpos hi hbounded _ hdrop
    intro hnil hne c hc
    apply hf.arrays (o, rest) List.mem_cons_self _ i c hpos hi htake hc
    apply Nat.pos_of_ne_zero
    intro hzero
    rcases hstops.opens hzero with ⟨_, hus⟩ | ⟨d, r, hd, _⟩
    · exact hne hus
    · rw [hnil] at hd
      cases hd

/-- In a reading whose boundaries are as they should be. -/
theorem separate_of_seamed {r : Reading} (hs : Seamed r.lead r.units) (hf : Fits p w r.units) :
    Separate p (r.pieces w) := by
  refine ⟨?_, separate_units hs hf⟩
  rw [Reading.units_flatten]
  apply not_crosses_other hf
  intro hne
  cases hunits : r.units with
  | nil => exact absurd hunits hne
  | cons u us =>
    rw [hunits] at hs
    exact hs.1

end Fits

end IsaCloud.Database
