import IsaCloud.Loki.Streams
import IsaCloud.Support.Batching

/-!
# The logging handler

Any thread may `emit` or `close`, the periodic flush runs on the loop's own thread,
and they meet at the lock of the queue. An `emit` hands a full batch over to the
loop before it lets go of the lock; a flush and a `close` take their batch first and
hand it over afterwards. Nothing is lost before the loop stops, but a full batch can
overtake one that is still in a thread's hands.
-/

namespace IsaCloud.Loki

set_option autoImplicit false

open Support Support.Text

/-- A record whose message could be formatted. -/
structure LogRecord where
  levelname : Str
  name : Str
  message : Str
  /-- `int(record.created * 1_000_000_000)`. -/
  createdNs : Int

/-- An entry of the queue, numbered in the order in which the lock was taken. -/
structure Queued where
  number : Nat
  entry : BatchEntry

/-- Who takes a batch before handing it over. -/
inductive Holder where
  | flushing
  | closing (i : Nat)
  deriving DecidableEq

/-- Where a `close` is. -/
inductive Closer where
  | holding
  /-- Waits for the push of its batch. -/
  | waiting (push : Nat)
  /-- Waits for the `close` of the client. -/
  | closingClient
  | stopping

/-- `pending` is `_queue`, and `sent` the batches that `push_batch` was scheduled with. -/
structure LokiHandler extends Buffer Holder Queued where
  /-- Whether each push was answered with 204, once it has ended. -/
  outcomes : List (Option Bool)
  closers : List Closer
  stopRequested : Bool
  stopped : Bool

inductive HandlerEvent where
  /-- `none` is a record that cannot be formatted, which goes to `handleError`. -/
  | emit (record : Option LogRecord)
  /-- The periodic flush wakes up. -/
  | flush
  | close
  | handOver (holder : Holder)
  /-- A push on the loop ends. -/
  | finish (i : Nat) (noContent : Bool)
  /-- A `close` goes on; it waits for 5 seconds at most. -/
  | proceed (i : Nat) (timedOut : Bool)
  | stop

namespace LokiHandler

def start : LokiHandler := ⟨.empty, [], [], false, false⟩

/-- `{**self._default_labels, "level": ..., "logger": ...}` and the rest of the entry. -/
def entryOf (c : LokiConfig) (record : LogRecord) : BatchEntry where
  labels := some (c.defaultLabels.putAll [(lit "level", record.levelname), (lit "logger", record.name)])
  message := some record.message
  timestampNs := some record.createdNs

def enqueue (c : LokiConfig) (h : LokiHandler) (record : LogRecord) : LokiHandler :=
  { h with toBuffer := h.toBuffer.put ⟨h.filled.length, entryOf c record⟩ }

/-- The batch is taken and scheduled under the lock. -/
def push (h : LokiHandler) : LokiHandler := { h with toBuffer := h.toBuffer.flush, outcomes := h.outcomes ++ [none] }

def emit (c : LokiConfig) (h : LokiHandler) (record : LogRecord) : LokiHandler :=
  if c.batchSize ≤ (h.enqueue c record).pending.length then (h.enqueue c record).push else h.enqueue c record

/-- The loop's thread is between the two halves of `_do_flush`. -/
def flushing (h : LokiHandler) : Bool := h.holds .flushing

/-- The first half of `_do_flush`. -/
def flush (h : LokiHandler) : LokiHandler :=
  if h.stopped || h.flushing then h else { h with toBuffer := h.toBuffer.take .flushing }

/-- Without a batch, `close` goes on to the client at once. -/
def close (h : LokiHandler) : LokiHandler :=
  { h with
    toBuffer := h.toBuffer.take (.closing h.closers.length)
    closers := h.closers ++ [if h.pending = [] then .closingClient else .holding] }

/-- What a `close` waits for once its batch is with the loop. -/
def waitFor (h : LokiHandler) : Holder → List Closer
  | .flushing => h.closers
  | .closing i => h.closers.set i (.waiting h.sent.length)

def handOver (h : LokiHandler) (holder : Holder) : LokiHandler :=
  if h.holds holder then
    { h with toBuffer := h.toBuffer.send holder, outcomes := h.outcomes ++ [none], closers := h.waitFor holder }
  else h

/-- A stopped loop runs nothing any more, and during a flush its thread is busy. -/
def finish (h : LokiHandler) (i : Nat) (noContent : Bool) : LokiHandler :=
  if h.stopped || h.flushing then h
  else
    match h.outcomes[i]? with
    | some none => { h with outcomes := h.outcomes.set i (some noContent) }
    | _ => h

def finished (h : LokiHandler) (i : Nat) : Bool :=
  match h.outcomes[i]? with
  | some (some _) => true
  | _ => false

def proceed (h : LokiHandler) (i : Nat) (timedOut : Bool) : LokiHandler :=
  match h.closers[i]? with
  | some (.waiting push) =>
    if timedOut || h.finished push then { h with closers := h.closers.set i .closingClient } else h
  | some .closingClient => { h with closers := h.closers.set i .stopping, stopRequested := true }
  | _ => h

def stop (h : LokiHandler) : LokiHandler :=
  if h.stopRequested && !h.flushing then { h with stopped := true } else h

def step (c : LokiConfig) (h : LokiHandler) : HandlerEvent → LokiHandler
  | .emit (some record) => h.emit c record
  | .emit none => h
  | .flush => h.flush
  | .close => h.close
  | .handOver holder => h.handOver holder
  | .finish i noContent => h.finish i noContent
  | .proceed i timedOut => h.proceed i timedOut
  | .stop => h.stop

/-! ## What becomes of a record -/

/-- The records in the pushes with this outcome. -/
def withOutcome (h : LokiHandler) (outcome : Option Bool) : List Queued :=
  (h.sent.zip h.outcomes).flatMap fun p => if p.2 = outcome then p.1 else []

def inHands (h : LokiHandler) : List Queued := (h.hands.map Prod.snd).flatten

/-- How long a batch can get. -/
def capacity (c : LokiConfig) : Int := max 1 c.batchSize

/-- The payload of a push, when the clock reads `clock q` for an entry. -/
def streams (c : LokiConfig) (batch : List Queued) (clock : Queued → Int) : List LokiStream :=
  payload (pushBatchStreams c (batch.map fun q => (q.entry, clock q)))

/-- Every record is in exactly one place: queued, in a thread's hands, on its way, refused or accepted.
A push carries records that were emitted one after the other, no more than a batch, by their label sets. -/
structure Conserved (c : LokiConfig) (h : LokiHandler) : Prop where
  perm : h.filled.Perm (h.pending ++ h.inHands ++ h.withOutcome none ++ h.withOutcome (some false) ++
    h.withOutcome (some true))
  nodup : h.filled.Nodup
  short : (h.pending.length : Int) < capacity c
  batches : ∀ batch ∈ h.sent, batch ≠ [] ∧ (batch.length : Int) ≤ capacity c ∧ batch <:+: h.filled
  grouped : ∀ batch ∈ h.sent, ∀ clock : Queued → Int,
    Distinguished (fun q : Queued => q.entry.merged c) batch →
      Partition (fun q : Queued => q.entry.merged c) (fun q => [q.entry.value (clock q)]) batch (streams c batch clock)

/-- An `emit` that fills the batch finds nobody holding an older one, and of those who hold one the first
hands it over first. -/
def OnTime (c : LokiConfig) (h : LokiHandler) : HandlerEvent → Prop
  | .emit (some _) => c.batchSize ≤ h.pending.length + 1 → h.hands = []
  | .handOver holder => h.InTurn holder
  | _ => True

/-! ## One step -/

section Kept
variable {c : LokiConfig} {h : LokiHandler}

structure Inv (c : LokiConfig) (h : LokiHandler) : Prop where
  kept : h.Kept
  numbers : h.filled.map Queued.number = List.range h.filled.length
  short : (h.pending.length : Int) < capacity c
  fits : ∀ batch ∈ h.taken, (batch.length : Int) ≤ capacity c
  outcomes : h.outcomes.length = h.sent.length

theorem one_le_capacity (c : LokiConfig) : 1 ≤ capacity c := le_max_left ..

theorem inv_start : Inv c start := by
  refine ⟨Buffer.kept_empty, rfl, ?_, ?_, rfl⟩
  · have := one_le_capacity c
    show (0 : Int) < capacity c
    omega
  · intro batch hb
    cases hb

theorem Inv.nodup (hi : Inv c h) : h.filled.Nodup := by
  refine List.Nodup.of_map Queued.number ?_
  rw [hi.numbers]
  exact List.nodup_range

theorem enqueue_kept (hi : Inv c h) (record : LogRecord) :
    (h.enqueue c record).Kept ∧
      (h.enqueue c record).filled.map Queued.number = List.range (h.enqueue c record).filled.length ∧
      ((h.enqueue c record).pending.length : Int) ≤ capacity c := by
  refine ⟨hi.kept.put _, ?_, ?_⟩
  · show (h.filled ++ [_]).map Queued.number = List.range (h.filled ++ [_]).length
    rw [List.map_append, hi.numbers, List.length_append, List.length_singleton, List.range_succ]
    rfl
  · show ((h.pending ++ [_]).length : Int) ≤ capacity c
    rw [List.length_append, List.length_singleton]
    have := hi.short
    omega

theorem enqueue_pending (c : LokiConfig) (h : LokiHandler) (record : LogRecord) :
    (h.enqueue c record).pending ≠ [] := List.concat_ne_nil _ _

theorem push_buffer (hp : h.pending ≠ []) : h.push.toBuffer =
    { h.toBuffer with pending := [], sent := h.sent ++ [h.pending], taken := h.taken ++ [h.pending] } := if_neg hp

theorem emit_inv (hi : Inv c h) (record : LogRecord) : Inv c (h.emit c record) := by
  obtain ⟨hkept, hnumbers, hlength⟩ := enqueue_kept hi record
  have hcapacity := one_le_capacity c
  unfold emit
  split
  · have hbuffer := push_buffer (enqueue_pending c h record)
    refine ⟨hkept.flush, ?_, ?_, ?_, ?_⟩
    · rw [hbuffer]
      exact hnumbers
    · rw [hbuffer]
      show (0 : Int) < capacity c
      omega
    · rw [hbuffer]
      intro batch hb
      rcases List.mem_append.mp hb with hb | hb
      · exact hi.fits batch hb
      · rw [List.mem_singleton.mp hb]
        exact hlength
    · rw [hbuffer]
      show (h.outcomes ++ [none]).length = (h.sent ++ [_]).length
      rw [List.length_append, List.length_append, hi.outcomes]
      rfl
  · rename_i hnot
    refine ⟨hkept, hnumbers, ?_, hi.fits, hi.outcomes⟩
    have hle : c.batchSize ≤ capacity c := le_max_right ..
    have hcases : capacity c = 1 ∨ capacity c = c.batchSize := max_choice ..
    have hlen : 0 < (h.enqueue c record).pending.length := List.length_pos_iff.mpr (enqueue_pending c h record)
    omega

/-- Taking a batch touches nothing else. -/
theorem take_inv (hi : Inv c h) (o : Holder) {h' : LokiHandler} (hb : h'.toBuffer = h.toBuffer.take o)
    (ho : h'.outcomes = h.outcomes) : Inv c h' := by
  have hkept := hi.kept.take o
  by_cases hp : h.pending = []
  · have hsame : h.toBuffer.take o = h.toBuffer := if_pos hp
    rw [hsame] at hb
    exact ⟨hb ▸ hi.kept, hb ▸ hi.numbers, hb ▸ hi.short, hb ▸ hi.fits, by rw [ho, hb, hi.outcomes]⟩
  · have htaken : h.toBuffer.take o = { h.toBuffer with
        pending := [], hands := h.hands ++ [(o, h.pending)], taken := h.taken ++ [h.pending] } := if_neg hp
    refine ⟨hb ▸ hkept, ?_, ?_, ?_, ?_⟩
    · rw [hb, htaken]
      exact hi.numbers
    · rw [hb, htaken]
      have := one_le_capacity c
      show (0 : Int) < capacity c
      omega
    · rw [hb, htaken]
      intro batch hmem
      rcases List.mem_append.mp hmem with hmem | hmem
      · exact hi.fits batch hmem
      · rw [List.mem_singleton.mp hmem]
        exact Int.le_of_lt hi.short
    · rw [ho, hb, htaken]
      exact hi.outcomes

theorem handOver_inv (hi : Inv c h) (holder : Holder) : Inv c (h.handOver holder) := by
  unfold handOver
  split
  · rename_i hholds
    rcases h.send_cases holder with ⟨hfree, -⟩ | ⟨before, batch, after, -, -, -, hsend⟩
    · rw [hholds] at hfree
      cases hfree
    · refine ⟨hi.kept.send holder, ?_, ?_, ?_, ?_⟩
      · rw [hsend]
        exact hi.numbers
      · rw [hsend]
        exact hi.short
      · rw [hsend]
        exact hi.fits
      · rw [hsend]
        show (h.outcomes ++ [none]).length = (h.sent ++ [batch]).length
        rw [List.length_append, List.length_append, hi.outcomes]
        rfl
  · exact hi

/-- What the loop and a waiting `close` do leaves the batches where they are. -/
theorem Inv.of_buffer {h' : LokiHandler} (hi : Inv c h) (hb : h'.toBuffer = h.toBuffer)
    (ho : h'.outcomes.length = h.outcomes.length) : Inv c h' :=
  ⟨hb ▸ hi.kept, hb ▸ hi.numbers, hb ▸ hi.short, hb ▸ hi.fits, by rw [ho, hb, hi.outcomes]⟩

theorem finish_buffer (i : Nat) (noContent : Bool) : (h.finish i noContent).toBuffer = h.toBuffer ∧
    (h.finish i noContent).outcomes.length = h.outcomes.length := by
  unfold finish
  split
  · exact ⟨rfl, rfl⟩
  · split
    · exact ⟨rfl, List.length_set ..⟩
    · exact ⟨rfl, rfl⟩

theorem proceed_buffer (i : Nat) (timedOut : Bool) : (h.proceed i timedOut).toBuffer = h.toBuffer ∧
    (h.proceed i timedOut).outcomes = h.outcomes := by
  unfold proceed
  split
  · split
    · exact ⟨rfl, rfl⟩
    · exact ⟨rfl, rfl⟩
  · exact ⟨rfl, rfl⟩
  · exact ⟨rfl, rfl⟩

theorem stop_buffer : h.stop.toBuffer = h.toBuffer ∧ h.stop.outcomes = h.outcomes := by
  unfold stop
  split
  · exact ⟨rfl, rfl⟩
  · exact ⟨rfl, rfl⟩

theorem step_inv (h : LokiHandler) (e : HandlerEvent) (hi : Inv c h) : Inv c (step c h e) := by
  cases e with
  | emit record =>
    cases record with
    | none => exact hi
    | some record => exact emit_inv hi record
  | flush =>
    show Inv c h.flush
    unfold flush
    split
    · exact hi
    · exact take_inv hi .flushing rfl rfl
  | close => exact take_inv hi (.closing h.closers.length) rfl rfl
  | handOver holder => exact handOver_inv hi holder
  | finish i noContent => exact hi.of_buffer (finish_buffer i noContent).1 (finish_buffer i noContent).2
  | proceed i timedOut =>
    exact hi.of_buffer (proceed_buffer i timedOut).1 (congrArg List.length (proceed_buffer i timedOut).2)
  | stop => exact hi.of_buffer stop_buffer.1 (congrArg List.length stop_buffer.2)

/-! ## Conservation -/

/-- Each push has one outcome. -/
theorem outcomes_perm {batches : List (List Queued)} {outcomes : List (Option Bool)}
    (hlen : outcomes.length = batches.length) (f : Option Bool → List Queued)
    (hf : ∀ o, f o = (batches.zip outcomes).flatMap fun p => if p.2 = o then p.1 else []) :
    batches.flatten.Perm (f none ++ f (some false) ++ f (some true)) := by
  classical
  rw [hf, hf, hf]
  clear hf
  induction batches generalizing outcomes with
  | nil => exact .refl _
  | cons batch batches ih =>
    cases outcomes with
    | nil => cases hlen
    | cons o outcomes =>
      have hrest := List.perm_iff_count.mp (ih (Nat.succ.inj hlen))
      refine List.perm_iff_count.mpr fun q => ?_
      have hq := hrest q
      simp only [List.count_append] at hq
      rcases o with - | - | - <;>
        simp only [List.zip_cons_cons, List.flatMap_cons, List.flatten_cons, List.count_append, if_true, if_false,
          reduceCtorEq, Option.some.injEq, Bool.false_eq_true, Bool.true_eq_false, List.count_nil, hq] <;> omega

theorem Inv.perm (hi : Inv c h) : h.filled.Perm (h.pending ++ h.inHands ++ h.withOutcome none ++
    h.withOutcome (some false) ++ h.withOutcome (some true)) := by
  have hsent := outcomes_perm hi.outcomes h.withOutcome fun _ => rfl
  refine (hi.kept.perm.trans (hsent.append_left _)).trans (.of_eq ?_)
  simp only [inHands, List.append_assoc]

theorem streams_eq (c : LokiConfig) (batch : List Queued) (clock : Queued → Int) :
    streams c batch clock = payload (Grouping.collect (fun q : Queued => labelsToStr (q.entry.merged c))
      (fun q => q.entry.merged c) (fun q => [q.entry.value (clock q)]) batch) := by
  unfold streams pushBatchStreams
  rw [List.foldl_map]
  rfl

theorem Inv.conserved (hi : Inv c h) : Conserved c h := by
  refine ⟨hi.perm, hi.nodup, hi.short, ?_, ?_⟩
  · intro batch hb
    obtain ⟨hne, hinfix⟩ := hi.kept.infix_of_sent hb
    exact ⟨hne, hi.fits batch (hi.kept.placed.subset (List.mem_append_left _ hb)), hinfix⟩
  · intro batch _ clock hd
    rw [streams_eq]
    exact partition_of_distinguished hd

/-- Whatever the threads do and in whatever order, no record is lost or duplicated on its way to the loop. -/
theorem handler_conserves (c : LokiConfig) (es : List HandlerEvent) : Conserved c (run (step c) start es) :=
  (run_invariant (Inv c) step_inv es inv_start).conserved

/-! ## Order -/

theorem ordered_start : start.Ordered := List.prefix_rfl

theorem emit_ordered_iff (hi : Inv c h) (ho : h.Ordered) (record : LogRecord) :
    (h.emit c record).Ordered ↔ OnTime c h (.emit (some record)) := by
  have hlength : (h.enqueue c record).pending.length = h.pending.length + 1 := List.length_append
  unfold emit
  rw [hlength]
  split
  · rename_i hfull
    have henqueue : (h.enqueue c record).Ordered := ho
    have hnodup : (h.enqueue c record).filled.Nodup := by
      refine List.Nodup.of_map Queued.number ?_
      rw [(enqueue_kept hi record).2.1]
      exact List.nodup_range
    refine ((hi.kept.put _).ordered_flush_iff hnodup henqueue).trans ?_
    constructor
    · intro hfree _
      exact hfree (enqueue_pending c h record)
    · intro hfree _
      exact hfree (by omega)
  · rename_i hnot
    refine iff_of_true ho ?_
    intro hfull
    omega

theorem step_ordered_iff (hi : Inv c h) (ho : h.Ordered) (e : HandlerEvent) :
    (step c h e).Ordered ↔ OnTime c h e := by
  cases e with
  | emit record =>
    cases record with
    | none => exact iff_of_true ho trivial
    | some record => exact emit_ordered_iff hi ho record
  | flush =>
    refine iff_of_true ?_ trivial
    show h.flush.Ordered
    unfold flush
    split
    · exact ho
    · exact ho.take .flushing
  | close => exact iff_of_true (ho.take (.closing h.closers.length)) trivial
  | handOver holder =>
    show (h.handOver holder).Ordered ↔ h.InTurn holder
    unfold handOver
    split
    · exact hi.kept.ordered_send_iff hi.nodup ho holder
    · rename_i hfree
      exact iff_of_true ho fun hholds => absurd hholds hfree
  | finish i noContent =>
    refine iff_of_true ?_ trivial
    show (h.finish i noContent).toBuffer.Ordered
    rw [(finish_buffer i noContent).1]
    exact ho
  | proceed i timedOut =>
    refine iff_of_true ?_ trivial
    show (h.proceed i timedOut).toBuffer.Ordered
    rw [(proceed_buffer i timedOut).1]
    exact ho
  | stop =>
    refine iff_of_true ?_ trivial
    show h.stop.toBuffer.Ordered
    rw [stop_buffer.1]
    exact ho

end Kept

/-- A flush has taken its batch when two more records fill the next one. -/
example (r : LogRecord) : ¬ Guarded (step ⟨2, Dict.empty⟩) (OnTime ⟨2, Dict.empty⟩) start
    [.emit (some r), .flush, .emit (some r), .emit (some r)] := by
  intro h
  cases h.2.2.2.1 (Int.le_refl 2)

end LokiHandler

end IsaCloud.Loki
