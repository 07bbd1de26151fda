import IsaCloud.Support.Table
import Mathlib.Logic.Relation
import Mathlib.Data.List.Infix

/-!
# Lineages

Rows that may name a successor by its key. `Lineages` says that a table of such
rows is a disjoint union of finite chains: a successor exists and stands later
in the table, and no two rows share one. Adding a row without a successor and
linking a row to a fresh one keep this; from it follow acyclicity, the one head
of every row, and that rows with one head are ordered.
-/

namespace Support.Lineage

set_option autoImplicit false

open Table Relation

universe u v

section Heads
variable {K : Type u} (next : K → Option K)

def Follows (a b : K) : Prop := next a = some b

/-- `b` is `a` or a successor of `a`, any number of steps on. -/
abbrev Reaches : K → K → Prop := ReflTransGen (Follows next)

variable {next}

theorem follows_rightUnique : Relator.RightUnique (Follows next) := by
  intro a b c hb hc
  exact Option.some.inj (hb.symm.trans hc)

theorem eq_of_reaches_of_head {a b : K} (h : Reaches next a b) (ha : next a = none) : b = a := by
  rcases ReflTransGen.cases_head h with rfl | ⟨c, hac, -⟩
  · rfl
  · rw [Follows, ha] at hac
    cases hac

theorem head_unique {a h h' : K} (hr : Reaches next a h) (hh : next h = none)
    (hr' : Reaches next a h') (hh' : next h' = none) : h' = h := by
  rcases ReflTransGen.total_of_right_unique follows_rightUnique hr hr' with hle | hle
  · exact eq_of_reaches_of_head hle hh
  · exact (eq_of_reaches_of_head hle hh').symm

section Ranked
variable {rank : K → Nat} (hrank : ∀ a b, next a = some b → rank a < rank b)
include hrank

theorem rank_lt_of_transGen {a b : K} (h : TransGen (Follows next) a b) : rank a < rank b := by
  induction h with
  | single h => exact hrank _ _ h
  | tail _ h ih => exact ih.trans (hrank _ _ h)

theorem acyclic (a : K) : ¬ TransGen (Follows next) a a := fun h =>
  Nat.lt_irrefl _ (rank_lt_of_transGen hrank h)

/-- With ranks bounded, following successors ends. -/
theorem exists_head {bound : Nat} (hbound : ∀ a b, next a = some b → rank b < bound) (a : K) :
    ∃ h, Reaches next a h ∧ next h = none := by
  induction hn : bound - rank a using Nat.strong_induction_on generalizing a with
  | _ n ih =>
    cases ha : next a with
    | none => exact ⟨a, .refl, ha⟩
    | some b =>
      have hlt := hrank a b ha
      have hb := hbound a b ha
      obtain ⟨h, hr, hh⟩ := ih (bound - rank b) (by omega) b rfl
      exact ⟨h, ReflTransGen.head ha hr, hh⟩

end Ranked

/-- Where no two share a successor, two ancestors of one row are ordered. -/
theorem ordered_of_common_head (hinj : ∀ a b c, next a = some c → next b = some c → a = b)
    {a b h : K} (ha : Reaches next a h) (hb : Reaches next b h) :
    Reaches next a b ∨ Reaches next b a := by
  have hswap : Relator.RightUnique (Function.swap (Follows next)) := by
    intro c a b ha hb
    exact hinj a b c ha hb
  have ha' : ReflTransGen (Function.swap (Follows next)) h a := reflTransGen_swap.mpr ha
  have hb' : ReflTransGen (Function.swap (Follows next)) h b := reflTransGen_swap.mpr hb
  rcases ReflTransGen.total_of_right_unique hswap ha' hb' with h | h
  · exact .inr (reflTransGen_swap.mp h)
  · exact .inl (reflTransGen_swap.mp h)

end Heads

section Tables
variable {R : Type u} {K : Type v} [DecidableEq K] {key : R → K} {succ : R → Option K}

structure Lineages (key : R → K) (succ : R → Option K) (rows : List R) : Prop where
  keyed : Keyed key rows
  /-- A successor is a row that stands later in the table. -/
  forward : ∀ r ∈ rows, ∀ k, succ r = some k →
    k ∈ rows.map key ∧ (rows.map key).idxOf (key r) < (rows.map key).idxOf k
  single : ∀ r ∈ rows, ∀ s ∈ rows, ∀ k, succ r = some k → succ s = some k → r = s

/-- The successor of a key. -/
def nextKey (key : R → K) (succ : R → Option K) (rows : List R) (k : K) : Option K :=
  (find key rows k).bind succ

theorem Lineages.nil : Lineages key succ [] :=
  ⟨List.nodup_nil, by simp, by simp⟩

theorem Lineages.append {rows : List R} (h : Lineages key succ rows) {r : R}
    (hfresh : key r ∉ rows.map key) (hr : succ r = none) : Lineages key succ (rows ++ [r]) := by
  have hold : ∀ k ∈ rows.map key, ((rows ++ [r]).map key).idxOf k = (rows.map key).idxOf k := by
    intro k hk
    rw [List.map_append, List.idxOf_append_of_mem hk]
  refine ⟨keyed_append h.keyed hfresh, ?_, ?_⟩
  · intro s hs k hk
    rcases List.mem_append.mp hs with hs | hs
    · obtain ⟨hmem, hlt⟩ := h.forward s hs k hk
      refine ⟨by rw [List.map_append]; exact List.mem_append_left _ hmem, ?_⟩
      rw [hold k hmem, hold _ (List.mem_map_of_mem hs)]
      exact hlt
    · rw [List.mem_singleton.mp hs, hr] at hk
      cases hk
  · intro s hs t ht k hsk htk
    rcases List.mem_append.mp hs with hs | hs
    · rcases List.mem_append.mp ht with ht | ht
      · exact h.single s hs t ht k hsk htk
      · rw [List.mem_singleton.mp ht, hr] at htk
        cases htk
    · rw [List.mem_singleton.mp hs, hr] at hsk
      cases hsk

/-- Rewriting columns other than the key and the successor. -/
theorem Lineages.update {rows : List R} (h : Lineages key succ rows) {f : R → R}
    (hkey : ∀ s, key (f s) = key s) (hsucc : ∀ s, succ (f s) = succ s) (k : K) :
    Lineages key succ (update key rows k f) := by
  have horig : ∀ s ∈ Table.update key rows k f, ∃ r ∈ rows, key s = key r ∧ succ s = succ r ∧
      s = if key r = k then f r else r := by
    intro s hs
    rcases mem_update.mp hs with ⟨r, hr, hk, rfl⟩ | ⟨hs, hk⟩
    · exact ⟨r, hr, hkey r, hsucc r, by rw [if_pos hk]⟩
    · exact ⟨s, hs, rfl, rfl, by rw [if_neg hk]⟩
  refine ⟨keyed_update hkey h.keyed k, ?_, ?_⟩
  · intro s hs k' hk'
    obtain ⟨r, hr, hkr, hsr, -⟩ := horig s hs
    rw [map_key_update hkey, hkr]
    exact h.forward r hr k' (hsr ▸ hk')
  · intro s hs t ht k' hs' ht'
    obtain ⟨r, hr, -, hsr, hse⟩ := horig s hs
    obtain ⟨q, hq, -, hsq, hte⟩ := horig t ht
    have := h.single r hr q hq k' (hsr ▸ hs') (hsq ▸ ht')
    subst this
    rw [hse, hte]

/-- A row gets a fresh row as its successor. -/
theorem Lineages.link {rows : List R} (h : Lineages key succ rows) {p r : R} (hp : p ∈ rows)
    (hfresh : key r ∉ rows.map key) (hr : succ r = none) {f : R → R}
    (hkey : ∀ s, key (f s) = key s) (hsucc : ∀ s, succ (f s) = some (key r)) :
    Lineages key succ (Table.update key (rows ++ [r]) (key p) f) := by
  have happ := h.append hfresh hr
  have hpmem : p ∈ rows ++ [r] := List.mem_append_left _ hp
  -- the rows of the new table: the linked one and the others, as they were
  have hrows : ∀ s ∈ Table.update key (rows ++ [r]) (key p) f,
      s = f p ∨ (s ∈ rows ++ [r] ∧ key s ≠ key p) := by
    intro s hs
    rcases mem_update.mp hs with ⟨q, hq, hk, rfl⟩ | hs
    · exact .inl (by rw [eq_of_mem happ.keyed hq hpmem hk])
    · exact .inr hs
  have hnew : ∀ s ∈ rows ++ [r], succ s ≠ some (key r) := by
    intro s hs hsr
    obtain ⟨hmem, -⟩ := happ.forward s hs _ hsr
    rcases List.mem_append.mp hs with hs | hs
    · exact hfresh (h.forward s hs _ hsr).1
    · rw [List.mem_singleton.mp hs, hr] at hsr
      cases hsr
  refine ⟨keyed_update hkey happ.keyed _, ?_, ?_⟩
  · intro s hs k hk
    rw [map_key_update hkey]
    rcases hrows s hs with rfl | ⟨hs, -⟩
    · rw [hsucc] at hk
      cases hk
      rw [hkey]
      have hpk : key p ∈ rows.map key := List.mem_map_of_mem hp
      refine ⟨by simp, ?_⟩
      rw [List.map_append, List.idxOf_append_of_mem hpk, List.idxOf_append_of_notMem hfresh]
      have := List.idxOf_lt_length_of_mem hpk
      simp only [List.map_singleton, List.idxOf_cons_self, List.length_map] at this ⊢
      omega
    · exact happ.forward s hs k hk
  · intro s hs t ht k hsk htk
    rcases hrows s hs with rfl | ⟨hs, -⟩
    · rcases hrows t ht with rfl | ⟨ht, -⟩
      · rfl
      · rw [hsucc] at hsk
        exact absurd (hsk ▸ htk) (hnew t ht)
    · rcases hrows t ht with rfl | ⟨ht, -⟩
      · rw [hsucc] at htk
        exact absurd (htk ▸ hsk) (hnew s hs)
      · exact happ.single s hs t ht k hsk htk

section Consequences
variable {rows : List R} (h : Lineages key succ rows)
include h

theorem nextKey_forward {a b : K} (hab : nextKey key succ rows a = some b) :
    (rows.map key).idxOf a < (rows.map key).idxOf b ∧ (rows.map key).idxOf b < rows.length := by
  obtain ⟨r, hr, hsucc⟩ := Option.bind_eq_some_iff.mp hab
  obtain ⟨hmem, rfl⟩ := mem_of_find hr
  obtain ⟨hb, hlt⟩ := h.forward r hmem b hsucc
  refine ⟨hlt, ?_⟩
  have := List.idxOf_lt_length_of_mem hb
  rwa [List.length_map] at this

theorem lineage_acyclic (a : K) : ¬ TransGen (Follows (nextKey key succ rows)) a a :=
  acyclic (fun _ _ hab => (nextKey_forward h hab).1) a

theorem lineage_head (a : K) : ∃! head, Reaches (nextKey key succ rows) a head ∧
    nextKey key succ rows head = none := by
  obtain ⟨head, hr, hh⟩ := exists_head (fun _ _ hab => (nextKey_forward h hab).1)
    (fun _ _ hab => (nextKey_forward h hab).2) a
  refine ⟨head, ⟨hr, hh⟩, ?_⟩
  rintro other ⟨hr', hh'⟩
  exact head_unique hr hh hr' hh'

theorem nextKey_injective {a b c : K} (ha : nextKey key succ rows a = some c)
    (hb : nextKey key succ rows b = some c) : a = b := by
  obtain ⟨r, hr, hrs⟩ := Option.bind_eq_some_iff.mp ha
  obtain ⟨s, hs, hss⟩ := Option.bind_eq_some_iff.mp hb
  obtain ⟨hrm, rfl⟩ := mem_of_find hr
  obtain ⟨hsm, rfl⟩ := mem_of_find hs
  rw [h.single r hrm s hsm c hrs hss]

theorem lineage_ordered {a b head : K} (ha : Reaches (nextKey key succ rows) a head)
    (hb : Reaches (nextKey key succ rows) b head) :
    Reaches (nextKey key succ rows) a b ∨ Reaches (nextKey key succ rows) b a :=
  ordered_of_common_head (fun _ _ _ => nextKey_injective h) ha hb

end Consequences

end Tables

end Support.Lineage
