import Mathlib.Data.List.Infix
import Mathlib.Data.List.Nodup

/-!
# A buffer that is emptied in batches

Owners take what is pending as one batch and send the batch later, or take and
send at once. Nothing is lost or duplicated, whatever the order of the operations;
the batches are sent in the order they were taken as long as nobody overtakes.
-/

namespace Support

set_option autoImplicit false

/-- `filled` and `taken` account for everything that was put in, and for every batch. -/
structure Buffer (O A : Type) where
  pending : List A
  hands : List (O × List A)
  sent : List (List A)
  filled : List A
  taken : List (List A)

namespace Buffer
variable {O A : Type}

def empty : Buffer O A := ⟨[], [], [], [], []⟩

def put (b : Buffer O A) (a : A) : Buffer O A := { b with pending := b.pending ++ [a], filled := b.filled ++ [a] }

/-- Takes a batch, if there is one. -/
def take (b : Buffer O A) (o : O) : Buffer O A :=
  if b.pending = [] then b
  else { b with pending := [], hands := b.hands ++ [(o, b.pending)], taken := b.taken ++ [b.pending] }

/-- Takes a batch and sends it at once. -/
def flush (b : Buffer O A) : Buffer O A :=
  if b.pending = [] then b
  else { b with pending := [], sent := b.sent ++ [b.pending], taken := b.taken ++ [b.pending] }

section Send
variable [DecidableEq O]

/-- Sends the batch this owner holds, if it holds one. -/
def send (b : Buffer O A) (o : O) : Buffer O A :=
  match b.hands.find? fun x => decide (x.1 = o) with
  | none => b
  | some x => { b with hands := b.hands.eraseP fun x => decide (x.1 = o), sent := b.sent ++ [x.2] }

def holds (b : Buffer O A) (o : O) : Bool := b.hands.any fun x => decide (x.1 = o)

/-- The batch sent is the oldest one in hand. -/
def InTurn (b : Buffer O A) (o : O) : Prop := b.holds o = true → (b.hands.map Prod.fst).head? = some o

instance (b : Buffer O A) (o : O) : Decidable (b.InTurn o) := inferInstanceAs (Decidable (_ → _))

theorem send_cases (b : Buffer O A) (o : O) :
    (b.holds o = false ∧ b.send o = b) ∨
      ∃ before batch after, b.holds o = true ∧ b.hands = before ++ (o, batch) :: after ∧ (∀ x ∈ before, x.1 ≠ o) ∧
        b.send o = { b with hands := before ++ after, sent := b.sent ++ [batch] } := by
  cases hf : b.hands.find? fun x => decide (x.1 = o) with
  | none =>
    refine Or.inl ⟨?_, by rw [send, hf]⟩
    rw [holds, List.any_eq_false]
    exact List.find?_eq_none.mp hf
  | some x =>
    obtain ⟨hx, before, after, hsplit, hbefore⟩ := List.find?_eq_some_iff_append.mp hf
    have hx : x.1 = o := of_decide_eq_true hx
    have hne : ∀ y ∈ before, y.1 ≠ o := fun y hy => by simpa using hbefore y hy
    refine Or.inr ⟨before, x.2, after, ?_, by rw [hsplit, ← hx], hne, ?_⟩
    · rw [holds, List.any_eq_true]
      exact ⟨x, hsplit ▸ List.mem_append_right _ List.mem_cons_self, decide_eq_true hx⟩
    · rw [send, hf]
      dsimp only
      have herase : (x :: after).eraseP (fun x => decide (x.1 = o)) = after :=
        List.eraseP_cons_of_pos (decide_eq_true hx)
      rw [hsplit, List.eraseP_append_right _ (by simpa using hne), herase]

end Send

/-! ## What every operation keeps -/

structure Kept (b : Buffer O A) : Prop where
  filled : b.taken.flatten ++ b.pending = b.filled
  placed : (b.sent ++ b.hands.map Prod.snd).Perm b.taken
  inTurn : (b.hands.map Prod.snd).Sublist b.taken
  nonempty : ∀ batch ∈ b.taken, batch ≠ []

theorem kept_empty : (empty : Buffer O A).Kept := by
  refine ⟨rfl, .refl _, .refl _, ?_⟩
  intro batch h
  cases h

namespace Kept
variable {b : Buffer O A} (h : b.Kept)
include h

theorem put (a : A) : (b.put a).Kept := by
  refine ⟨?_, h.placed, h.inTurn, h.nonempty⟩
  show b.taken.flatten ++ (b.pending ++ [a]) = b.filled ++ [a]
  rw [← List.append_assoc, h.filled]

theorem nonempty_taken (hp : b.pending ≠ []) : ∀ batch ∈ b.taken ++ [b.pending], batch ≠ [] := by
  intro batch hb
  rcases List.mem_append.mp hb with hb | hb
  · exact h.nonempty batch hb
  · rw [List.mem_singleton.mp hb]
    exact hp

theorem filled_taken : (b.taken ++ [b.pending]).flatten ++ [] = b.filled := by
  rw [List.append_nil, List.flatten_append, List.flatten_singleton, h.filled]

theorem take (o : O) : (b.take o).Kept := by
  by_cases hp : b.pending = []
  · rw [Buffer.take, if_pos hp]
    exact h
  · rw [Buffer.take, if_neg hp]
    refine ⟨h.filled_taken, ?_, ?_, h.nonempty_taken hp⟩
    · show (b.sent ++ (b.hands ++ [(o, b.pending)]).map Prod.snd).Perm (b.taken ++ [b.pending])
      rw [List.map_append, ← List.append_assoc]
      exact h.placed.append_right _
    · show ((b.hands ++ [(o, b.pending)]).map Prod.snd).Sublist (b.taken ++ [b.pending])
      rw [List.map_append]
      exact h.inTurn.append (.refl _)

theorem flush : b.flush.Kept := by
  by_cases hp : b.pending = []
  · rw [Buffer.flush, if_pos hp]
    exact h
  · rw [Buffer.flush, if_neg hp]
    refine ⟨h.filled_taken, ?_, h.inTurn.trans (List.sublist_append_left ..), h.nonempty_taken hp⟩
    show (b.sent ++ [b.pending] ++ b.hands.map Prod.snd).Perm (b.taken ++ [b.pending])
    rw [List.append_assoc]
    refine (List.Perm.append_left _ List.perm_append_comm).trans ?_
    rw [← List.append_assoc]
    exact h.placed.append_right _

theorem send [DecidableEq O] (o : O) : (b.send o).Kept := by
  rcases b.send_cases o with ⟨-, heq⟩ | ⟨before, batch, after, -, hsplit, -, heq⟩
  · rw [heq]
    exact h
  · have hplaced := h.placed
    have hturn := h.inTurn
    rw [hsplit, List.map_append, List.map_cons] at hplaced hturn
    rw [heq]
    refine ⟨h.filled, ?_, ?_, h.nonempty⟩
    · show (b.sent ++ [batch] ++ (before ++ after).map Prod.snd).Perm b.taken
      refine List.Perm.trans ?_ hplaced
      have hmiddle : (before.map Prod.snd ++ batch :: after.map Prod.snd).Perm
          (batch :: (before.map Prod.snd ++ after.map Prod.snd)) := List.perm_middle
      rw [List.append_assoc, List.map_append]
      exact List.Perm.append_left _ hmiddle.symm
    · show ((before ++ after).map Prod.snd).Sublist b.taken
      rw [List.map_append]
      exact ((List.Sublist.refl _).append (List.sublist_cons_self ..)).trans hturn

/-- Everything put in is in exactly one place. -/
theorem perm : b.filled.Perm (b.pending ++ (b.hands.map Prod.snd).flatten ++ b.sent.flatten) := by
  have hflat := h.placed.flatten
  rw [List.flatten_append] at hflat
  rw [← h.filled, List.append_assoc]
  exact List.perm_append_comm.trans
    (List.Perm.append_left _ (hflat.symm.trans List.perm_append_comm))

/-- A batch is a piece of what was put in, without gaps. -/
theorem infix_of_sent {batch : List A} (hb : batch ∈ b.sent) : batch ≠ [] ∧ batch <:+: b.filled := by
  have hmem := h.placed.subset (List.mem_append_left _ hb)
  refine ⟨h.nonempty batch hmem, ?_⟩
  rw [← h.filled]
  exact (List.infix_of_mem_flatten hmem).trans (List.prefix_append ..).isInfix

end Kept

/-! ## The order in which batches are sent -/

/-- The batches are sent in the order in which they were taken. -/
def Ordered (b : Buffer O A) : Prop := b.sent <+: b.taken

theorem Kept.taken_nodup {b : Buffer O A} (h : b.Kept) (hn : b.filled.Nodup) : b.taken.Nodup := by
  rw [← h.filled] at hn
  have hdisjoint := (List.nodup_flatten.mp (List.nodup_append.mp hn).1).2
  refine hdisjoint.imp_of_mem ?_
  rintro x y hx - hxy rfl
  obtain ⟨a, ha⟩ := List.exists_mem_of_ne_nil _ (h.nonempty x hx)
  exact hxy ha ha

theorem Kept.ordered_iff {b : Buffer O A} (h : b.Kept) (hn : b.filled.Nodup) :
    b.Ordered ↔ b.sent ++ b.hands.map Prod.snd = b.taken := by
  constructor
  · rintro ⟨rest, hrest⟩
    have hnodup := h.taken_nodup hn
    have hplaced := h.placed
    have hturn := h.inTurn
    rw [← hrest] at hnodup hplaced hturn
    have hperm := (List.perm_append_left_iff _).mp hplaced
    obtain ⟨first, second, hsplit, hfirst, hsecond⟩ := List.sublist_append_iff.mp hturn
    have hnil : first = [] := by
      refine List.eq_nil_iff_forall_not_mem.mpr fun x hx => ?_
      have hmem : x ∈ rest := hperm.subset (hsplit ▸ List.mem_append_left _ hx)
      exact (List.nodup_append.mp hnodup).2.2 x (hfirst.subset hx) x hmem rfl
    rw [hnil, List.nil_append] at hsplit
    rw [← hsplit] at hsecond
    rw [← hrest, hsecond.eq_of_length hperm.length_eq]
  · intro heq
    exact ⟨_, heq⟩

/-- Disjoint batches whose contents are a beginning of others' contents are a beginning of the others. -/
theorem prefix_of_flatten {sent taken : List (List A)} {rest : List A} (hn : sent.Nodup)
    (hd : taken.Pairwise List.Disjoint) (hne : ∀ batch ∈ taken, batch ≠ []) (hs : ∀ batch ∈ sent, batch ∈ taken)
    (h : sent.flatten <+: taken.flatten ++ rest) : sent <+: taken := by
  induction sent generalizing taken with
  | nil => exact List.nil_prefix
  | cons x sent ih =>
    cases taken with
    | nil => exact absurd (hs x List.mem_cons_self) List.not_mem_nil
    | cons y taken =>
      have hxy : x = y := by
        obtain ⟨a, xs, hx⟩ := List.exists_cons_of_ne_nil (hne x (hs x List.mem_cons_self))
        obtain ⟨b, ys, hy⟩ := List.exists_cons_of_ne_nil (hne y List.mem_cons_self)
        rw [hx, hy, List.flatten_cons, List.flatten_cons] at h
        have hab : a = b := (List.cons_prefix_cons.mp h).1
        rcases List.mem_cons.mp (hs x List.mem_cons_self) with hmem | hmem
        · exact hmem
        · have hax : a ∈ x := hx ▸ List.mem_cons_self
          have hay : a ∈ y := by
            rw [hy, hab]
            exact List.mem_cons_self
          exact ((List.pairwise_cons.mp hd).1 x hmem hay hax).elim
      subst hxy
      rw [List.flatten_cons, List.flatten_cons, List.append_assoc, List.prefix_append_right_inj] at h
      refine List.cons_prefix_cons.mpr ⟨rfl, ih (List.nodup_cons.mp hn).2 (List.pairwise_cons.mp hd).2 ?_ ?_ h⟩
      · exact fun batch hb => hne batch (List.mem_cons_of_mem _ hb)
      · intro batch hb
        rcases List.mem_cons.mp (hs batch (List.mem_cons_of_mem _ hb)) with heq | hmem
        · exact absurd (heq ▸ hb) (List.nodup_cons.mp hn).1
        · exact hmem

/-- In order means that what was sent is a beginning of what was put in. -/
theorem Kept.ordered_iff_prefix {b : Buffer O A} (h : b.Kept) (hn : b.filled.Nodup) :
    b.Ordered ↔ b.sent.flatten <+: b.filled := by
  rw [← h.filled]
  constructor
  · intro ho
    exact ho.flatten.trans (List.prefix_append ..)
  · intro hprefix
    have hsent := List.Perm.nodup h.placed.symm (h.taken_nodup hn)
    refine prefix_of_flatten (List.nodup_append.mp hsent).1 ?_ h.nonempty ?_ hprefix
    · rw [← h.filled] at hn
      exact (List.nodup_flatten.mp (List.nodup_append.mp hn).1).2
    · exact fun batch hb => h.placed.subset (List.mem_append_left _ hb)

theorem Ordered.take {b : Buffer O A} (ho : b.Ordered) (o : O) : (b.take o).Ordered := by
  unfold Buffer.take
  split
  · exact ho
  · exact ho.trans (List.prefix_append ..)

/-- What is taken last may be sent at once if nobody holds a batch. -/
theorem Kept.ordered_flush_iff {b : Buffer O A} (h : b.Kept) (hn : b.filled.Nodup) (ho : b.Ordered) :
    b.flush.Ordered ↔ (b.pending ≠ [] → b.hands = []) := by
  by_cases hp : b.pending = []
  · rw [Buffer.flush, if_pos hp]
    exact iff_of_true ho fun h => absurd hp h
  · have hflush := h.flush
    rw [Buffer.flush, if_neg hp] at hflush ⊢
    rw [hflush.ordered_iff hn]
    have hbefore := (h.ordered_iff hn).mp ho
    show b.sent ++ [b.pending] ++ b.hands.map Prod.snd = b.taken ++ [b.pending] ↔ _
    constructor
    · intro heq _
      rw [← hbefore, List.append_assoc, List.append_assoc, List.append_right_inj] at heq
      cases hh : b.hands with
      | nil => rfl
      | cons x hands =>
        have hnodup := hflush.taken_nodup hn
        rw [hh] at heq hbefore
        have hx : b.pending = x.2 := (List.cons.inj heq).1
        have hmem : b.pending ∈ b.taken := by
          rw [← hbefore, hx]
          exact List.mem_append_right _ (List.mem_map_of_mem List.mem_cons_self)
        exact absurd rfl ((List.nodup_append.mp hnodup).2.2 _ hmem _ (List.mem_singleton_self _))
    · intro hhands
      rw [hhands hp] at hbefore ⊢
      rw [← hbefore, List.map_nil, List.append_nil, List.append_nil]

/-- A batch may be sent when it is the oldest one in hand. -/
theorem Kept.ordered_send_iff [DecidableEq O] {b : Buffer O A} (h : b.Kept) (hn : b.filled.Nodup) (ho : b.Ordered)
    (o : O) : (b.send o).Ordered ↔ b.InTurn o := by
  have hsend := h.send o
  rcases b.send_cases o with ⟨hfree, heq⟩ | ⟨before, batch, after, hholds, hsplit, hne, heq⟩
  · rw [heq]
    refine iff_of_true ho ?_
    intro hholds
    rw [hfree] at hholds
    cases hholds
  · rw [heq] at hsend ⊢
    rw [hsend.ordered_iff hn, ← (h.ordered_iff hn).mp ho]
    show b.sent ++ [batch] ++ (before ++ after).map Prod.snd = b.sent ++ b.hands.map Prod.snd ↔ _
    rw [List.append_assoc, List.append_right_inj, hsplit, InTurn, hsplit]
    cases before with
    | nil => exact iff_of_true rfl fun _ => rfl
    | cons x before =>
      have hx := hne x List.mem_cons_self
      refine iff_of_false ?_ ?_
      · intro hlist
        have hnodup := (h.inTurn.nodup (h.taken_nodup hn))
        rw [hsplit] at hnodup
        have hsame : batch = x.2 := (List.cons.inj hlist).1
        refine (List.nodup_cons.mp hnodup).1 ?_
        rw [← hsame]
        exact List.mem_map_of_mem (List.mem_append_right before (List.mem_cons_self (a := (o, batch))))
      · intro hturn
        exact hx (Option.some.inj (hturn hholds))

end Buffer

end Support
