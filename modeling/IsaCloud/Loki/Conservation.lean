import IsaCloud.Loki.LokiClient
import Mathlib.Data.List.Nodup
import Mathlib.Data.List.Range

/-!
# No log entry is lost

As long as `close` begins while no batch is being sent and nothing is called until
it returns, every accepted entry is pending, being sent, acknowledged or counted as
dropped, and the entries accepted before `close` returned are acknowledged or
counted. A background flush that `close` cancels takes its batch with it.
-/

namespace IsaCloud.Loki

set_option autoImplicit false

open Support Support.Text

/-! ## The account -/

namespace Ledger
variable {g : Ledger} {sending : List LogEntry}

structure Account (g : Ledger) (sending : List LogEntry) : Prop where
  perm : g.accepted.Perm (g.batch ++ sending ++ g.acked ++ g.dropped)
  numbers : g.accepted.map LogEntry.number = List.range g.accepted.length
  single : ∀ e ∈ g.accepted, e.values.length = 1
  counted : g.droppedEntries = g.dropped.length

theorem Account.congr {sending' : List LogEntry} (h : g.Account sending) (hp : sending.Perm sending') :
    g.Account sending' :=
  ⟨h.perm.trans (((hp.append_left _).append_right _).append_right _), h.numbers, h.single, h.counted⟩

theorem Account.nodup (h : g.Account sending) : (g.batch ++ sending ++ g.acked ++ g.dropped).Nodup := by
  refine h.perm.nodup_iff.mp ?_
  refine List.Nodup.of_map LogEntry.number ?_
  rw [h.numbers]
  exact List.nodup_range

theorem Account.take (h : g.Account sending) : g.take.Account (g.batch ++ sending) :=
  ⟨h.perm, h.numbers, h.single, h.counted⟩

theorem Account.ack {batch : List LogEntry} (h : g.Account (batch ++ sending)) : (g.ack batch).Account sending := by
  refine ⟨h.perm.trans ?_, h.numbers, h.single, h.counted⟩
  refine List.perm_iff_count.mpr ?_
  intro e
  simp only [Ledger.ack, List.count_append]
  omega

theorem sum_values {batch : List LogEntry} (h : ∀ e ∈ batch, e.values.length = 1) :
    (batch.map fun e : LogEntry => e.values.length).sum = batch.length := by
  induction batch with
  | nil => rfl
  | cons e batch ih =>
    rw [List.map_cons, List.sum_cons, List.length_cons, h e (List.mem_cons_self ..),
      ih fun e he => h e (List.mem_cons_of_mem _ he), Nat.add_comm]

theorem Account.drop {batch : List LogEntry} (h : g.Account (batch ++ sending)) :
    (g.drop batch).Account sending := by
  refine ⟨h.perm.trans ?_, h.numbers, h.single, ?_⟩
  · refine List.perm_iff_count.mpr ?_
    intro e
    simp only [Ledger.drop, List.count_append]
    omega
  · have hbatch : ∀ e ∈ batch, e.values.length = 1 := by
      intro e he
      refine h.single e (h.perm.mem_iff.mpr ?_)
      simp [he]
    dsimp only [Ledger.drop]
    rw [sum_values hbatch, h.counted, List.length_append]

theorem Account.push {labels : Dict Str Str} {value : Str × Str} (h : g.Account sending) :
    (g.push labels value).Account sending := by
  refine ⟨?_, ?_, ?_, h.counted⟩
  · refine List.perm_iff_count.mpr ?_
    intro e
    have hcount := List.perm_iff_count.mp h.perm e
    simp only [Ledger.push, List.count_append] at hcount ⊢
    omega
  · dsimp only [Ledger.push]
    rw [List.map_append, h.numbers, List.length_append, List.length_singleton, List.range_succ]
    rfl
  · intro e he
    rcases List.mem_append.mp he with he | he
    · exact h.single e he
    · rw [List.mem_singleton.mp he]
      rfl

end Ledger

namespace LokiState

/-! ## What is being sent -/

section Sending
variable {s : LokiState} {i : Nat} {c : LokiCall}

theorem sending_call (c : LokiCall) : (s.call c).sending.Perm (c.held ++ s.sending) := by
  refine List.perm_iff_count.mpr ?_
  intro e
  simp only [sending, call, List.flatMap_append, List.flatMap_cons, List.flatMap_nil, List.count_append,
    List.append_nil]
  omega

/-- What one call sends, and what the others do. -/
theorem sending_put (hc : s.calls[i]? = some c) :
    ∃ rest, s.sending.Perm (c.held ++ rest) ∧ (∀ c', (s.put i c').sending.Perm (c'.held ++ rest)) ∧
      ((∀ j d, s.calls[j]? = some d → j ≠ i → d.held = []) → s.task = .none → rest = []) := by
  obtain ⟨hi, hget⟩ := List.getElem?_eq_some_iff.mp hc
  have hcalls : s.calls = s.calls.take i ++ c :: s.calls.drop (i + 1) := by
    rw [← hget, List.cons_getElem_drop_succ, List.take_append_drop]
  refine ⟨(s.calls.take i).flatMap LokiCall.held ++ (s.calls.drop (i + 1)).flatMap LokiCall.held ++ s.task.held,
    ?_, ?_, ?_⟩
  · refine List.perm_iff_count.mpr ?_
    intro e
    rw [sending, hcalls]
    simp only [List.flatMap_append, List.flatMap_cons, List.count_append]
    rw [← hcalls]
    omega
  · intro c'
    refine List.perm_iff_count.mpr ?_
    intro e
    rw [sending, put, List.set_eq_take_append_cons_drop, if_pos hi]
    simp only [List.flatMap_append, List.flatMap_cons, List.count_append]
    omega
  · intro hothers htask
    have hbefore : (s.calls.take i).flatMap LokiCall.held = [] := by
      rw [List.flatMap_eq_nil_iff]
      intro d hd
      obtain ⟨j, hj, rfl⟩ := List.getElem_of_mem hd
      rw [List.length_take] at hj
      refine hothers j _ ?_ (by omega)
      rw [List.getElem_take, List.getElem?_eq_getElem]
    have hafter : (s.calls.drop (i + 1)).flatMap LokiCall.held = [] := by
      rw [List.flatMap_eq_nil_iff]
      intro d hd
      obtain ⟨j, hj, rfl⟩ := List.getElem_of_mem hd
      refine hothers (i + 1 + j) _ ?_ (by omega)
      rw [List.getElem_drop, List.getElem?_eq_getElem]
    rw [hbefore, hafter, htask]
    rfl

end Sending

/-! ## The invariant -/

section Invariant
variable {s s' : LokiState} {i : Nat} {c c' : LokiCall}

def Settled (s : LokiState) : Prop :=
  ∀ n, LokiCall.closed n ∈ s.calls → n ≤ s.accepted.length ∧ ∀ e ∈ s.batch ++ s.sending, n ≤ e.number

/-- Nothing else goes on while a `close` is where it is. -/
structure Alone (s : LokiState) (i : Nat) (c : LokiCall) : Prop where
  task : s.task = .none
  others : ∀ j d, s.calls[j]? = some d → j ≠ i → d.held = [] ∧ ¬ d.Closing
  batch : c = .awaitingTask ∨ s.batch = []

structure Inv (s : LokiState) : Prop where
  account : s.toLedger.Account s.sending
  settled : s.Settled
  closing : ∀ i c, s.calls[i]? = some c → c.Closing → s.Alone i c

theorem conserved_of_inv (h : s.Inv) : s.Conserved :=
  ⟨h.account.perm, h.account.nodup, h.account.counted, fun n hn => (h.settled n hn).2⟩

theorem inv_start : start.Inv where
  account := by
    refine ⟨List.Perm.refl _, rfl, ?_, rfl⟩
    intro e he
    cases he
  settled := by
    intro n hn
    cases hn
  closing := by
    intro i c hc
    cases hc

/-- Entries that are new in the batch or on their way are younger than every `close`. -/
theorem Settled.mono (h : s.Settled) (hcalls : ∀ n, LokiCall.closed n ∈ s'.calls → LokiCall.closed n ∈ s.calls)
    (hlen : s.accepted.length ≤ s'.accepted.length)
    (hmem : ∀ e ∈ s'.batch ++ s'.sending, e ∈ s.batch ++ s.sending ∨ s.accepted.length ≤ e.number) :
    s'.Settled := by
  intro n hn
  obtain ⟨hle, hyoung⟩ := h n (hcalls n hn)
  refine ⟨le_trans hle hlen, ?_⟩
  intro e he
  rcases hmem e he with hold | hnew
  · exact hyoung e hold
  · exact le_trans hle hnew

theorem mem_call {d : LokiCall} (hd : d ∈ (s.call c).calls) : d ∈ s.calls ∨ d = c := by
  rcases List.mem_append.mp hd with hd | hd
  · exact Or.inl hd
  · exact Or.inr (List.mem_singleton.mp hd)

theorem open_call (h : s.Open) (hc : ¬ c.Closing) : (s.call c).Open := by
  intro d hd
  rcases mem_call hd with hd | rfl
  · exact h d hd
  · exact hc

theorem closing_of_open (h : s.Open) : ∀ i c, s.calls[i]? = some c → c.Closing → s.Alone i c :=
  fun _ c hc hclosing => absurd hclosing (h c (List.mem_of_getElem? hc))

/-- A call that a `close` does not wait for changes. -/
theorem closing_put (h : ∀ j d, s.calls[j]? = some d → d.Closing → s.Alone j d) (hc : s.calls[i]? = some c)
    (hcalls : s'.calls = s.calls.set i c') (htask : s'.task = s.task) (hbatch : s.batch = [] → s'.batch = [])
    (hquiet : c.held = [] → ¬ c.Closing → c'.held = [] ∧ ¬ c'.Closing) (hself : c'.Closing → s'.Alone i c') :
    ∀ j d, s'.calls[j]? = some d → d.Closing → s'.Alone j d := by
  intro j d hd hclosing
  obtain ⟨hi, _⟩ := List.getElem?_eq_some_iff.mp hc
  rw [hcalls] at hd
  by_cases hji : j = i
  · subst hji
    rw [List.getElem?_set_self hi] at hd
    cases hd
    exact hself hclosing
  · rw [List.getElem?_set_ne (fun hij => hji hij.symm)] at hd
    have halone := h j d hd hclosing
    refine ⟨htask.trans halone.task, ?_, ?_⟩
    · intro k x hx hkj
      rw [hcalls] at hx
      by_cases hki : k = i
      · subst hki
        rw [List.getElem?_set_self hi] at hx
        cases hx
        obtain ⟨hheld, hopen⟩ := halone.others k c hc hkj
        exact hquiet hheld hopen
      · rw [List.getElem?_set_ne (fun hik => hki hik.symm)] at hx
        exact halone.others k x hx hkj
    · rcases halone.batch with hwait | hempty
      · exact Or.inl hwait
      · exact Or.inr (hbatch hempty)

theorem alone_put (h : s.Alone i c) (hcalls : s'.calls = s.calls.set i c') (htask : s'.task = s.task)
    (hbatch : s'.batch = []) : s'.Alone i c' := by
  refine ⟨htask.trans h.task, ?_, Or.inr hbatch⟩
  intro k x hx hki
  rw [hcalls, List.getElem?_set_ne (fun hik => hki hik.symm)] at hx
  exact h.others k x hx hki

theorem mem_put {d : LokiCall} (hd : d ∈ (s.put i c).calls) : d ∈ s.calls ∨ d = c :=
  List.mem_or_eq_of_mem_set hd

/-! ## Awaits -/

/-- A flush that goes on changes nothing that the other calls see. -/
structure Kept (s s' : LokiState) : Prop where
  calls : s'.calls = s.calls
  task : s'.task = s.task
  batch : s'.batch = s.batch
  accepted : s'.accepted = s.accepted

theorem advance_going {f f' : Flush} {noContent : Bool} (h : s.advance f noContent = (s', .going f')) :
    Kept s s' ∧ s'.toLedger = s.toLedger ∧ f'.batch = f.batch := by
  unfold advance at h
  split at h
  · cases h
    exact ⟨⟨rfl, rfl, rfl, rfl⟩, rfl, rfl⟩
  · split at h
    · cases h
    · split at h
      · cases h
        exact ⟨⟨rfl, rfl, rfl, rfl⟩, rfl, rfl⟩
      · cases h

theorem advance_done {f : Flush} {noContent ok : Bool} (h : s.advance f noContent = (s', .done ok)) :
    Kept s s' ∧ ∀ rest, s.toLedger.Account (f.batch ++ rest) → s'.toLedger.Account rest := by
  unfold advance at h
  split at h
  · cases h
  · split at h
    · cases h
      exact ⟨⟨rfl, rfl, rfl, rfl⟩, fun _ haccount => haccount.ack⟩
    · split at h
      · cases h
      · cases h
        exact ⟨⟨rfl, rfl, rfl, rfl⟩, fun _ haccount => haccount.drop⟩

theorem sending_congr (hcalls : s'.calls = s.calls) (htask : s'.task = s.task) : s'.sending = s.sending := by
  rw [sending, sending, hcalls, htask]

/-- A call goes on with no more entries than it had. -/
theorem inv_put (h : s.Inv) (hc : s.calls[i]? = some c) (hkept : Kept s s')
    (haccount : ∀ rest, s.toLedger.Account (c.held ++ rest) → s'.toLedger.Account (c'.held ++ rest))
    (hheld : ∀ e ∈ c'.held, e ∈ c.held) (hclosed : ∀ n, c' ≠ .closed n) (hopen : ¬ c.Closing → ¬ c'.Closing)
    (hself : c.Closing → c'.Closing → s.batch = []) : (s'.put i c').Inv := by
  obtain ⟨rest, hbefore, hafter, _⟩ := sending_put hc
  have hsending : (s'.put i c').sending.Perm (c'.held ++ rest) := by
    have hsame : (s'.put i c').sending = (s.put i c').sending :=
      sending_congr (congrArg (List.set · i c') hkept.calls) hkept.task
    rw [hsame]
    exact hafter c'
  have hcalls : (s'.put i c').calls = s.calls.set i c' := congrArg (List.set · i c') hkept.calls
  refine ⟨(haccount rest (h.account.congr hbefore)).congr hsending.symm, ?_, ?_⟩
  · refine h.settled.mono ?_ (le_of_eq (congrArg List.length hkept.accepted.symm)) ?_
    · intro n hn
      rw [hcalls] at hn
      rcases List.mem_or_eq_of_mem_set hn with hn | hn
      · exact hn
      · exact absurd hn.symm (hclosed n)
    · intro e he
      left
      rcases List.mem_append.mp he with he | he
      · refine List.mem_append_left _ ?_
        rw [← hkept.batch]
        exact he
      · refine List.mem_append_right _ (hbefore.mem_iff.mpr ?_)
        rcases List.mem_append.mp (hsending.mem_iff.mp he) with he | he
        · exact List.mem_append_left _ (hheld e he)
        · exact List.mem_append_right _ he
  · refine closing_put h.closing hc hcalls hkept.task (fun hempty => hkept.batch.trans hempty) ?_ ?_
    · intro hnone hnot
      refine ⟨?_, hopen hnot⟩
      refine List.eq_nil_iff_forall_not_mem.mpr ?_
      intro e he
      have hmem := hheld e he
      rw [hnone] at hmem
      cases hmem
    · intro hclosing
      have hwas : c.Closing := by
        by_contra hnot
        exact hopen hnot hclosing
      exact alone_put (h.closing i c hc hwas) hcalls hkept.task (hkept.batch.trans (hself hwas hclosing))

/-- A call goes on with its flush. -/
theorem inv_put_going {f f' : Flush} {noContent : Bool} (h : s.Inv) (hc : s.calls[i]? = some c)
    (hadvance : s.advance f noContent = (s', .going f')) (hheld : c.held = f.batch) (hheld' : c'.held = f'.batch)
    (hclosed : ∀ n, c' ≠ .closed n) (hopen : ¬ c.Closing → ¬ c'.Closing)
    (hself : c.Closing → c'.Closing → s.batch = []) : (s'.put i c').Inv := by
  obtain ⟨hkept, hledger, hbatch⟩ := advance_going hadvance
  have hsame : c'.held = c.held := hheld'.trans (hbatch.trans hheld.symm)
  refine inv_put h hc hkept ?_ ?_ hclosed hopen hself
  · intro rest haccount
    rw [hledger, hsame]
    exact haccount
  · intro e he
    rw [← hsame]
    exact he

/-- A call is done with its flush, and keeps no entry. -/
theorem inv_put_done {f : Flush} {noContent ok : Bool} (h : s.Inv) (hc : s.calls[i]? = some c)
    (hadvance : s.advance f noContent = (s', .done ok)) (hheld : c.held = f.batch) (hheld' : c'.held = [])
    (hclosed : ∀ n, c' ≠ .closed n) (hopen : ¬ c.Closing → ¬ c'.Closing)
    (hself : c.Closing → c'.Closing → s.batch = []) : (s'.put i c').Inv := by
  obtain ⟨hkept, haccount⟩ := advance_done hadvance
  refine inv_put h hc hkept ?_ ?_ hclosed hopen hself
  · intro rest hbefore
    rw [hheld] at hbefore
    rw [hheld']
    exact haccount rest hbefore
  · intro e he
    rw [hheld'] at he
    cases he

/-- The batch is taken by a call that goes on with it. -/
theorem inv_put_take (h : s.Inv) (hc : s.calls[i]? = some .awaitingTask) :
    (s.take.put i (.lastFlush s.firstAttempt)).Inv := by
  obtain ⟨rest, hbefore, hafter, _⟩ := sending_put hc
  have hsending : (s.take.put i (.lastFlush s.firstAttempt)).sending.Perm (s.batch ++ rest) := hafter _
  refine ⟨?_, ?_, ?_⟩
  · exact h.account.take.congr ((hbefore.append_left _).trans hsending.symm)
  · refine h.settled.mono ?_ (le_refl _) ?_
    · intro n hn
      rcases mem_put hn with hn | hn
      · exact hn
      · cases hn
    · intro e he
      left
      have hmem : e ∈ s.batch ++ rest := hsending.mem_iff.mp he
      rcases List.mem_append.mp hmem with hmem | hmem
      · exact List.mem_append_left _ hmem
      · exact List.mem_append_right _ (hbefore.mem_iff.mpr hmem)
  · refine closing_put h.closing hc rfl rfl (fun _ => rfl) ?_ ?_
    · intro _ hnot
      exact absurd trivial hnot
    · intro _
      exact alone_put (h.closing i _ hc trivial) rfl rfl rfl

/-- `close` returns, and nothing is pending or on its way. -/
theorem inv_put_closed (h : s.Inv) (hc : s.calls[i]? = some .closingSession) :
    ({ s with connected := false }.put i (.closed s.accepted.length)).Inv := by
  have halone := h.closing i _ hc trivial
  have hbatch : s.batch = [] := by
    rcases halone.batch with hwait | hempty
    · cases hwait
    · exact hempty
  obtain ⟨rest, hbefore, hafter, hrest⟩ := sending_put hc
  have hnone : rest = [] := hrest (fun j d hd hji => (halone.others j d hd hji).1) halone.task
  have hsending : ({ s with connected := false }.put i (.closed s.accepted.length)).sending = [] := by
    have hperm : ({ s with connected := false }.put i (.closed s.accepted.length)).sending.Perm ([] ++ rest) :=
      hafter (.closed s.accepted.length)
    rw [hnone] at hperm
    exact List.Perm.eq_nil hperm
  refine ⟨?_, ?_, ?_⟩
  · rw [hsending]
    rw [hnone] at hbefore
    exact h.account.congr hbefore
  · intro n hn
    refine ⟨?_, ?_⟩
    · rcases mem_put hn with hn | hn
      · exact (h.settled n hn).1
      · cases hn
        exact le_refl _
    · intro e he
      rw [hsending] at he
      have hempty : e ∈ s.batch ++ [] := he
      rw [hbatch] at hempty
      cases hempty
  · refine closing_put h.closing hc rfl rfl (fun hempty => hempty) (fun _ hnot => absurd trivial hnot) ?_
    intro hclosing
    exact hclosing.elim

theorem inv_resume {noContent : Bool} (h : s.Inv) : (s.resume i noContent).Inv := by
  unfold resume
  split
  · rename_i f hc
    split
    · rename_i s' f' hadvance
      exact inv_put_going h hc hadvance rfl rfl (fun n hn => nomatch hn) (fun hnot => hnot)
        (fun hclosing => hclosing.elim)
    · rename_i s' ok hadvance
      exact inv_put_done h hc hadvance rfl rfl (fun n hn => nomatch hn) (fun hnot => hnot)
        (fun hclosing => hclosing.elim)
  · rename_i hc
    unfold afterTask
    split
    · rename_i hempty
      refine inv_put h hc ⟨rfl, rfl, rfl, rfl⟩ (fun _ haccount => haccount) (fun e he => he) (fun n hn => nomatch hn)
        (fun hnot => absurd trivial hnot) (fun _ _ => hempty)
    · exact inv_put_take h hc
  · rename_i f hc
    have hbatch : s.batch = [] := by
      rcases (h.closing i _ hc trivial).batch with hwait | hempty
      · cases hwait
      · exact hempty
    split
    · rename_i s' f' hadvance
      exact inv_put_going h hc hadvance rfl rfl (fun n hn => nomatch hn) (fun hnot => hnot) (fun _ _ => hbatch)
    · rename_i s' ok hadvance
      exact inv_put_done h hc hadvance rfl rfl (fun n hn => nomatch hn) (fun hnot => absurd trivial hnot)
        (fun _ _ => hbatch)
  · rename_i hc
    exact inv_put_closed h hc
  · exact h

theorem inv_tick {noContent : Bool} (h : s.Inv) : (s.tick noContent).Inv := by
  -- the task is not there while a `close` is under way
  have hopen : s.task ≠ .none → s.Open := by
    intro htask d hd hclosing
    obtain ⟨j, hj⟩ := List.getElem?_of_mem hd
    exact htask (h.closing j d hj hclosing).task
  unfold tick
  cases htask : s.task with
  | none => exact h
  | asleep =>
    have hfree : s.Open := hopen (by rw [htask]; intro hnone; cases hnone)
    have hsending : s.sending = s.calls.flatMap LokiCall.held := by
      rw [sending, htask]
      exact List.append_nil _
    dsimp only
    split
    · exact h
    · have hperm : (s.batch ++ s.sending).Perm (s.calls.flatMap LokiCall.held ++ s.batch) := by
        rw [hsending]
        exact List.perm_append_comm
      refine ⟨h.account.take.congr hperm, ?_, closing_of_open hfree⟩
      refine h.settled.mono (fun n hn => hn) (le_refl _) ?_
      intro e he
      exact Or.inl (hperm.mem_iff.mpr he)
  | flushing f =>
    have hfree : s.Open := hopen (by rw [htask]; intro hnone; cases hnone)
    have hsending : s.sending = s.calls.flatMap LokiCall.held ++ f.batch := by
      rw [sending, htask]
      rfl
    dsimp only
    split
    · rename_i s' f' hadvance
      obtain ⟨hkept, hledger, hsame⟩ := advance_going hadvance
      have hafter : { s' with task := .flushing f' }.sending = s.sending := by
        rw [hsending, ← hsame, ← hkept.calls]
        rfl
      refine ⟨?_, ?_, closing_of_open ?_⟩
      · rw [hafter]
        exact hledger ▸ h.account
      · refine h.settled.mono ?_ (le_of_eq (congrArg List.length hkept.accepted.symm)) ?_
        · intro n hn
          rw [← hkept.calls]
          exact hn
        · intro e he
          rw [hafter] at he
          rw [← hkept.batch]
          exact Or.inl he
      · intro d hd
        refine hfree d ?_
        rw [← hkept.calls]
        exact hd
    · rename_i s' ok hadvance
      obtain ⟨hkept, haccount⟩ := advance_done hadvance
      have hafter : { s' with task := .asleep }.sending = s.calls.flatMap LokiCall.held := by
        rw [← hkept.calls]
        exact List.append_nil _
      refine ⟨?_, ?_, closing_of_open ?_⟩
      · rw [hafter]
        refine haccount _ (h.account.congr ?_)
        rw [hsending]
        exact List.perm_append_comm
      · refine h.settled.mono ?_ (le_of_eq (congrArg List.length hkept.accepted.symm)) ?_
        · intro n hn
          rw [← hkept.calls]
          exact hn
        · intro e he
          rw [hafter] at he
          left
          rw [hsending, ← hkept.batch]
          rcases List.mem_append.mp he with he | he
          · exact List.mem_append_left _ he
          · exact List.mem_append_right _ (List.mem_append_left _ he)
      · intro d hd
        refine hfree d ?_
        rw [← hkept.calls]
        exact hd

/-! ## Calls that begin -/

/-- A call begins that takes nothing. -/
theorem account_call (h : s.Inv) (hheld : c.held = []) (hclosed : ∀ n, c ≠ .closed n) :
    (s.call c).toLedger.Account (s.call c).sending ∧ (s.call c).Settled := by
  have hsending : (s.call c).sending.Perm s.sending := by
    have hperm := sending_call (s := s) c
    rw [hheld] at hperm
    exact hperm
  refine ⟨h.account.congr hsending.symm, h.settled.mono ?_ (le_refl _) ?_⟩
  · intro n hn
    rcases mem_call hn with hn | hn
    · exact hn
    · exact absurd hn.symm (hclosed n)
  · intro e he
    left
    rcases List.mem_append.mp he with he | he
    · exact List.mem_append_left _ he
    · exact List.mem_append_right _ (hsending.mem_iff.mp he)

/-- A call begins that takes the batch. -/
theorem account_take_call (h : s.Inv) (hheld : c.held = s.batch) (hclosed : ∀ n, c ≠ .closed n) :
    (s.take.call c).toLedger.Account (s.take.call c).sending ∧ (s.take.call c).Settled := by
  have hsending : (s.take.call c).sending.Perm (s.batch ++ s.sending) := by
    have hperm := sending_call (s := s.take) c
    rw [hheld] at hperm
    exact hperm
  refine ⟨h.account.take.congr hsending.symm, h.settled.mono ?_ (le_refl _) ?_⟩
  · intro n hn
    rcases mem_call hn with hn | hn
    · exact hn
    · exact absurd hn.symm (hclosed n)
  · intro e he
    exact Or.inl (hsending.mem_iff.mp he)

theorem closing_call (hopen : s.Open) (hnone : s.sending = []) (htask : s.task = .none)
    (hbatch : c = .awaitingTask ∨ s.batch = []) :
    ∀ j d, (s.call c).calls[j]? = some d → d.Closing → (s.call c).Alone j d := by
  intro j d hd hclosing
  have hold : ∀ k x, (s.call c).calls[k]? = some x → k ≠ s.calls.length → x ∈ s.calls := by
    intro k x hx hk
    have hlt : k < s.calls.length := by
      have hlen := (List.getElem?_eq_some_iff.mp hx).1
      rw [call, List.length_append, List.length_singleton] at hlen
      omega
    rw [call, List.getElem?_append_left hlt] at hx
    exact List.mem_of_getElem? hx
  have hj : j = s.calls.length := by
    by_contra hne
    exact hopen d (hold j d hd hne) hclosing
  have hdc : d = c := by
    rw [hj, call, List.getElem?_concat_length] at hd
    exact (Option.some.inj hd).symm
  refine ⟨htask, ?_, ?_⟩
  · intro k x hx hkj
    have hmem := hold k x hx (by rw [← hj]; exact hkj)
    exact ⟨List.flatMap_eq_nil_iff.mp (List.append_eq_nil_iff.mp hnone).1 x hmem, hopen x hmem⟩
  · rw [hdc]
    exact hbatch

theorem inv_call (h : s.Inv) (hopen : s.Open) (hheld : c.held = []) (hclosing : ¬ c.Closing)
    (hclosed : ∀ n, c ≠ .closed n) : (s.call c).Inv := by
  obtain ⟨haccount, hsettled⟩ := account_call h hheld hclosed
  exact ⟨haccount, hsettled, closing_of_open (open_call hopen hclosing)⟩

theorem inv_take_call (h : s.Inv) (hopen : s.Open) : (s.take.call (.flushing s.firstAttempt)).Inv := by
  obtain ⟨haccount, hsettled⟩ := account_take_call (c := .flushing s.firstAttempt) h rfl (fun n hn => nomatch hn)
  exact ⟨haccount, hsettled, closing_of_open (open_call (s := s.take) hopen (fun hclosing => hclosing))⟩

theorem inv_push {labels : Dict Str Str} {value : Str × Str} (h : s.Inv) (hopen : s.Open) :
    { s with toLedger := s.toLedger.push labels value }.Inv := by
  refine ⟨h.account.push, ?_, closing_of_open hopen⟩
  refine h.settled.mono (fun n hn => hn) ?_ ?_
  · dsimp only [Ledger.push]
    rw [List.length_append]
    exact Nat.le_add_right _ _
  · intro e he
    rcases List.mem_append.mp he with he | he
    · rcases List.mem_append.mp he with he | he
      · exact Or.inl (List.mem_append_left _ he)
      · right
        rw [List.mem_singleton.mp he]
    · exact Or.inl (List.mem_append_right _ he)

theorem inv_pushLog {config : LokiConfig} {message : Str} {labels : Option (Dict Str Str)} {timestampNs : Option Int}
    {clock : Int} (h : s.Inv) (hopen : s.Open) : (s.pushLog config message labels timestampNs clock).Inv := by
  unfold pushLog
  dsimp only
  split
  · exact inv_take_call (inv_push h hopen) hopen
  · exact inv_call (inv_push h hopen) hopen rfl (fun hclosing => hclosing) (fun n hn => nomatch hn)

theorem inv_flush (h : s.Inv) (hopen : s.Open) : s.flush.Inv := by
  unfold flush
  split
  · exact inv_call h hopen rfl (fun hclosing => hclosing) (fun n hn => nomatch hn)
  · exact inv_take_call h hopen

theorem inv_startAutoFlush (h : s.Inv) (hopen : s.Open) : s.startAutoFlush.Inv := by
  unfold startAutoFlush
  split
  · rename_i htask
    have hsending : { s with task := .asleep }.sending = s.sending := by
      rw [sending, sending, htask]
      rfl
    refine ⟨?_, ?_, closing_of_open hopen⟩
    · rw [hsending]
      exact h.account
    · refine h.settled.mono (fun n hn => hn) (le_refl _) ?_
      intro e he
      rw [hsending] at he
      exact Or.inl he
  · exact h

/-- Without a connection `close` returns at once. -/
theorem inv_call_closed (h : s.Inv) (hopen : s.Open) (hnone : s.sending = []) (hbatch : s.batch = []) :
    (s.call (.closed s.accepted.length)).Inv := by
  have hsending : (s.call (.closed s.accepted.length)).sending = [] := by
    have hperm := sending_call (s := s) (.closed s.accepted.length)
    rw [hnone] at hperm
    exact List.Perm.eq_nil hperm
  refine ⟨?_, ?_, closing_of_open (open_call hopen (fun hclosing => hclosing))⟩
  · rw [hsending, ← hnone]
    exact h.account
  · intro n hn
    constructor
    · rcases mem_call hn with hn | hn
      · exact (h.settled n hn).1
      · cases hn
        exact le_refl _
    · intro e he
      rw [hsending] at he
      have hempty : e ∈ s.batch ++ [] := he
      rw [hbatch] at hempty
      cases hempty

theorem inv_close (h : s.Inv) (hopen : s.Open) (hnone : s.sending = [])
    (hconnected : s.connected = true ∨ s.batch = []) : s.close.Inv := by
  unfold close
  by_cases hon : s.connected = true
  · rw [if_pos hon]
    have hidle : { s with task := .none }.sending = [] := by
      rw [sending, List.append_eq_nil_iff]
      exact ⟨(List.append_eq_nil_iff.mp hnone).1, rfl⟩
    have hcancelled : { s with task := .none }.Inv := by
      refine ⟨?_, ?_, closing_of_open hopen⟩
      · rw [hidle, ← hnone]
        exact h.account
      · refine h.settled.mono (fun n hn => hn) (le_refl _) ?_
        intro e he
        rw [hidle] at he
        left
        rw [hnone]
        exact he
    have hwaiting : ({ s with task := .none }.call .awaitingTask).Inv := by
      obtain ⟨haccount, hsettled⟩ := account_call (c := .awaitingTask) hcancelled rfl (fun n hn => nomatch hn)
      exact ⟨haccount, hsettled, closing_call hopen hidle rfl (Or.inl rfl)⟩
    cases htask : s.task with
    | asleep => exact hwaiting
    | flushing f => exact hwaiting
    | none =>
      dsimp only
      unfold afterTask
      split
      · rename_i hempty
        obtain ⟨haccount, hsettled⟩ := account_call (c := .closingSession) h rfl (fun n hn => nomatch hn)
        exact ⟨haccount, hsettled, closing_call hopen hnone htask (Or.inr hempty)⟩
      · obtain ⟨haccount, hsettled⟩ :=
          account_take_call (c := .lastFlush s.firstAttempt) h rfl (fun n hn => nomatch hn)
        exact ⟨haccount, hsettled, closing_call (s := s.take) hopen hnone htask (Or.inr rfl)⟩
  · rw [if_neg hon]
    exact inv_call_closed h hopen hnone (hconnected.resolve_left hon)

theorem inv_step {config : LokiConfig} {ev : LokiEvent} (h : s.Inv) (horderly : s.Orderly ev) :
    (s.step config ev).Inv := by
  cases ev with
  | pushLog message labels timestampNs clock => exact inv_pushLog h horderly
  | flush => exact inv_flush h horderly
  | startAutoFlush => exact inv_startAutoFlush h horderly
  | operation => exact ⟨h.account, h.settled, fun i c hc hclosing => ⟨(h.closing i c hc hclosing).task,
      (h.closing i c hc hclosing).others, (h.closing i c hc hclosing).batch⟩⟩
  | close => exact inv_close h horderly.1 horderly.2.1 horderly.2.2
  | resume i noContent => exact inv_resume h
  | tick noContent => exact inv_tick h

end Invariant

/-! ## Runs -/

/-- In every orderly run no entry is lost, counted twice or left behind by `close`. -/
theorem conserved_run (c : LokiConfig) (events : List LokiEvent) (h : Guarded (step c) Orderly start events) :
    (run (step c) start events).Conserved :=
  conserved_of_inv (guarded_invariant Inv (fun _ _ horderly hs => inv_step hs horderly) h inv_start)

def plainConfig : LokiConfig := ⟨100, Dict.empty⟩

def hello : LokiEvent := .pushLog (lit "hello") none none 1

/-- The entry is flushed before the client is closed, its second attempt is answered with 204. -/
theorem flushed_conserved : (run (step plainConfig) start
    [hello, .startAutoFlush, .flush, .resume 1 false, .resume 1 false, .resume 1 true, .close, .resume 2 true,
      .resume 2 true]).Conserved := by
  refine conserved_run plainConfig _ ⟨?_, ?_, ?_, trivial, trivial, trivial, ?_, trivial, trivial, trivial⟩
  · change Open _
    decide
  · change Open _
    decide
  · change Open _
    decide
  · refine ⟨?_, rfl, Or.inl rfl⟩
    decide

/-- `close` cancels the background task while it sends the only entry. -/
theorem cancelled_flush_loses : ¬ ∀ events : List LokiEvent, (run (step plainConfig) start events).Conserved := by
  intro hall
  have hperm := (hall [hello, .startAutoFlush, .tick false, .close, .resume 1 false, .resume 1 false]).perm
  have hlength := hperm.length_eq
  exact absurd hlength (by decide)

end LokiState

end IsaCloud.Loki
