import IsaCloud.Events.Pipeline
import IsaCloud.Events.Subscriber

/-!
# What the metrics account for

Each exit of `process_event` but one adds to one counter besides `events_received`. The
exit for an event without a handler adds to none.
-/

namespace IsaCloud.Events

set_option autoImplicit false

open Support Support.Text Support.Python Support.Encoding

/-! ## What a process can return -/

namespace Pipeline
variable {F Hd Out : Type} {sub : Subscriber Hd}

/-- Some answers to its awaits make the coroutine return `o`. -/
def Returns (p : Coroutine F Hd Out) (o : Out) : Prop := ∃ answers, p.feed answers = some o

theorem returns_ret {o o' : Out} (h : Returns (.ret o : Coroutine F Hd Out) o') : o' = o := by
  obtain ⟨answers, h⟩ := h
  exact (Proc.feed_ret h).2

theorem returns_call {a : Await F Hd} {k : Answer → Coroutine F Hd Out} {o : Out}
    (h : Returns (.call a k) o) : ∃ r, Returns (k r) o := by
  obtain ⟨answers, h⟩ := h
  obtain ⟨r, rest, -, hrest⟩ := Proc.feed_call h
  exact ⟨r, rest, hrest⟩

theorem returns_pause {attempt : Nat} {next : Coroutine F Hd Out} {failed : PyError → Coroutine F Hd Out}
    {o : Out} (h : Returns (pause sub attempt next failed) o) :
    Returns next o ∨ ∃ e, Returns (failed e) o := by
  unfold pause at h
  split_ifs at h
  · obtain ⟨r, hr⟩ := returns_call h
    cases r with
    | ok b => exact .inl hr
    | error e => exact .inr ⟨e, hr⟩
  · exact .inl h

/-- The loop ends with `True`, with `False` or with an exception. -/
theorem returns_executeFrom {handler : Hd} {event : Event F} {k : Answer → Coroutine F Hd Out} {o : Out}
    {left attempt : Nat} (h : Returns (executeFrom sub handler event k left attempt) o) :
    ∃ r, Returns (k r) o := by
  induction left generalizing attempt with
  | zero => exact ⟨_, h⟩
  | succ left ih =>
    obtain ⟨r, hr⟩ := returns_call h
    have hexcepted : Returns (pause sub attempt (executeFrom sub handler event k left (attempt + 1))
        fun e => k (.error e)) o → ∃ r, Returns (k r) o := fun h => by
      rcases returns_pause h with hnext | ⟨e, he⟩
      · exact ih hnext
      · exact ⟨_, he⟩
    rcases r with e | success
    · exact hexcepted hr
    · cases success with
      | true => exact ⟨_, hr⟩
      | false =>
        rcases returns_pause hr with hnext | ⟨-, hcaught⟩
        · exact ih hnext
        · exact hexcepted hcaught

/-- An exit that counts what it did. -/
def Counted (report : Report) : Prop := report = .failed ∨ report = .skipped ∨ report = .processed

theorem counted_finish {event : Event F} {report : Report}
    (h : Returns (finish event : Coroutine F Hd Report) report) : Counted report := by
  unfold finish at h
  split_ifs at h
  · exact .inr (.inr (returns_ret h))
  · obtain ⟨r, hr⟩ := returns_call h
    cases r with
    | ok b => exact .inr (.inr (returns_ret hr))
    | error e => exact .inl (returns_ret hr)

theorem counted_runHandler {event : Event F} {subject : Str} {report : Report} {handler : Hd}
    (hh : sub.handlers.get event.eventType = some handler)
    (h : Returns (runHandler sub event subject) report) : Counted report := by
  rw [runHandler, hh] at h
  obtain ⟨r, hr⟩ := returns_executeFrom h
  rcases r with e | success
  · exact .inl (returns_ret hr)
  · cases success with
    | true => exact counted_finish hr
    | false =>
      obtain ⟨-, hgave⟩ := returns_call hr
      exact .inl (returns_ret hgave)

theorem unhandled_runHandler {event : Event F} {subject : Str} {report : Report}
    (hh : sub.handlers.get event.eventType = none) {answers : List Answer}
    (h : (runHandler sub event subject).feed answers = some report) : answers = [] ∧ report = .unhandled := by
  rw [runHandler, hh] at h
  exact Proc.feed_ret h

end Pipeline

/-! ## One call -/

/-- A finished call of `process_event`: its arguments, the handlers it found registered, and what
its awaits handed back. -/
structure FinishedCall (Hd : Type) where
  nesting : Nat
  eventData : Bytes
  subject : Str
  handlers : Dict Str Hd
  answers : List Answer

section Calls
variable {F Hd : Type} [PyFloat F] [EventModels F]

variable (F) in
def Subscriber.Completed (sub : Subscriber Hd) (d : FinishedCall Hd) (report : Report) : Prop :=
  (Pipeline.processEvent (F := F) { sub with handlers := d.handlers } d.nesting d.eventData d.subject).feed
    d.answers = some report

variable (F) in
/-- The message is an event that the store did not report as a duplicate, and has no handler. -/
def FinishedCall.Unrouted (d : FinishedCall Hd) : Prop :=
  ∃ event : Event F, deserializeEvent d.nesting d.eventData = some event ∧
    d.handlers.get event.eventType = none ∧ (event.eventId = [] ∨ d.answers = [.ok false])

theorem completed_cases {sub : Subscriber Hd} {d : FinishedCall Hd} {report : Report}
    (h : sub.Completed F d report) :
    d.Unrouted F ∧ report = .unhandled ∨ ¬ d.Unrouted F ∧ Pipeline.Counted report := by
  unfold Subscriber.Completed Pipeline.processEvent at h
  unfold FinishedCall.Unrouted
  cases hevent : deserializeEvent (F := F) d.nesting d.eventData with
  | none =>
    simp only [hevent] at h
    exact .inr ⟨by simp, .inl (Proc.feed_ret h).2⟩
  | some event =>
    simp only [hevent] at h
    simp only [Option.some.injEq, exists_eq_left']
    unfold Pipeline.processDecoded at h
    cases hh : d.handlers.get event.eventType with
    | none =>
      by_cases hid : event.eventId = []
      · simp only [if_pos hid] at h
        exact .inl ⟨⟨rfl, .inl hid⟩, (Pipeline.unhandled_runHandler hh h).2⟩
      · simp only [if_neg hid] at h
        obtain ⟨r, rest, hanswers, hrest⟩ := Proc.feed_call h
        rcases r with e | duplicate
        · exact .inr ⟨by simp [hid, hanswers], .inl (Proc.feed_ret hrest).2⟩
        · cases duplicate with
          | true => exact .inr ⟨by simp [hid, hanswers], .inr (.inl (Proc.feed_ret hrest).2)⟩
          | false =>
            obtain ⟨rfl, hreport⟩ := Pipeline.unhandled_runHandler hh hrest
            exact .inl ⟨⟨rfl, .inr hanswers⟩, hreport⟩
    | some handler =>
      refine .inr ⟨by simp, ?_⟩
      by_cases hid : event.eventId = []
      · simp only [if_pos hid] at h
        exact Pipeline.counted_runHandler hh ⟨_, h⟩
      · simp only [if_neg hid] at h
        obtain ⟨r, rest, -, hrest⟩ := Proc.feed_call h
        rcases r with e | duplicate
        · exact .inl (Proc.feed_ret hrest).2
        · cases duplicate with
          | true => exact .inr (.inl (Proc.feed_ret hrest).2)
          | false => exact Pipeline.counted_runHandler hh ⟨_, hrest⟩

end Calls

/-! ## Any sequence of calls -/

def Metrics.add (m n : Metrics) : Metrics :=
  ⟨m.eventsReceived + n.eventsReceived, m.eventsProcessed + n.eventsProcessed,
    m.eventsFailed + n.eventsFailed, m.eventsSkippedDuplicate + n.eventsSkippedDuplicate⟩

/-- The metrics of a subscriber whose calls ended with these reports. -/
def metricsAfter : List Report → Metrics
  | [] => ⟨0, 0, 0, 0⟩
  | report :: reports => report.metrics.add (metricsAfter reports)

/-- Every event is in one of the three counters, and `True` was the answer for two of them. -/
structure Accounted (reports : List Report) : Prop where
  received : (metricsAfter reports).eventsReceived = (metricsAfter reports).eventsProcessed +
    (metricsAfter reports).eventsFailed + (metricsAfter reports).eventsSkippedDuplicate
  returnedTrue : reports.countP Report.result =
    (metricsAfter reports).eventsProcessed + (metricsAfter reports).eventsSkippedDuplicate

section Totals
variable {reports : List Report} (h : ∀ report ∈ reports, report = .unhandled ∨ Pipeline.Counted report)
include h

/-- The events in no counter are those without a handler. -/
theorem received_eq : (metricsAfter reports).eventsReceived = (metricsAfter reports).eventsProcessed +
    (metricsAfter reports).eventsFailed + (metricsAfter reports).eventsSkippedDuplicate +
    reports.count .unhandled := by
  induction reports with
  | nil => rfl
  | cons report reports ih =>
    have hrest := ih fun r hr => h r (List.mem_cons_of_mem _ hr)
    rcases h report List.mem_cons_self with rfl | rfl | rfl | rfl <;>
      simp [metricsAfter, Metrics.add, Report.unhandled, Report.failed, Report.skipped,
        Report.processed] at hrest ⊢ <;>
      omega

theorem returnedTrue_eq : reports.countP Report.result =
    (metricsAfter reports).eventsProcessed + (metricsAfter reports).eventsSkippedDuplicate := by
  induction reports with
  | nil => rfl
  | cons report reports ih =>
    have hrest := ih fun r hr => h r (List.mem_cons_of_mem _ hr)
    rw [List.countP_cons, hrest]
    rcases h report List.mem_cons_self with rfl | rfl | rfl | rfl <;>
      simp [metricsAfter, Metrics.add, Report.unhandled, Report.failed, Report.skipped, Report.processed] <;>
      omega

theorem accounted_iff : Accounted reports ↔ .unhandled ∉ reports := by
  rw [← List.count_eq_zero]
  have hsum := received_eq h
  constructor
  · intro ha
    have := ha.received
    omega
  · intro hzero
    exact ⟨by omega, returnedTrue_eq h⟩

end Totals

section Sequences
variable {F Hd : Type} [PyFloat F] [EventModels F] {sub : Subscriber Hd}

theorem unrouted_iff {d : FinishedCall Hd} {report : Report} (h : sub.Completed F d report) :
    d.Unrouted F ↔ report = .unhandled := by
  rcases completed_cases h with ⟨hun, rfl⟩ | ⟨hun, hcounted⟩
  · exact iff_of_true hun rfl
  · refine iff_of_false hun ?_
    rcases hcounted with rfl | rfl | rfl <;> decide

/-- The metrics account for every event exactly where every event that is no duplicate has a handler. -/
theorem metrics_accounted_iff {ds : List (FinishedCall Hd)} {reports : List Report}
    (h : List.Forall₂ (sub.Completed F) ds reports) : Accounted reports ↔ ∀ d ∈ ds, ¬ d.Unrouted F := by
  have hcases : ∀ report ∈ reports, report = .unhandled ∨ Pipeline.Counted report := by
    induction h with
    | nil => exact fun _ hr => absurd hr List.not_mem_nil
    | cons hd _ ih =>
      exact List.forall_mem_cons.mpr ⟨(completed_cases hd).imp And.right And.right, ih⟩
  rw [accounted_iff hcases]
  clear hcases
  induction h with
  | nil => simp
  | cons hd _ ih =>
    rw [List.mem_cons, not_or, List.forall_mem_cons]
    exact and_congr (not_congr (eq_comm.trans (unrouted_iff hd).symm)) ih

end Sequences

/-! ## An event nobody handles -/

section Examples
attribute [local instance] errorEventModels

/-- A call on a `billing.failed` event. -/
def failedCall (handlers : Dict Str Unit) (answers : List Answer) : FinishedCall Unit where
  nesting := 10
  eventData := failedMessage
  subject := lit "billing.failed"
  handlers := handlers
  answers := answers

theorem completed_failedCall {handlers : Dict Str Unit} {answers : List Answer} {report : Report}
    (h : (Pipeline.processDecoded { billingService with handlers := handlers } (failedEvent (F := Unit))
      (lit "billing.failed")).feed answers = some report) :
    billingService.Completed Unit (failedCall handlers answers) report := by
  show (Pipeline.processEvent (F := Unit) _ 10 failedMessage _).feed answers = some report
  rw [Pipeline.processEvent, deserialize_failedMessage]
  exact h

/-- The event is counted as received and nowhere else. -/
theorem unhandled_event_is_lost :
    List.Forall₂ (billingService.Completed Unit) [failedCall .empty [.ok false]] [.unhandled] ∧
    (metricsAfter [.unhandled]).eventsReceived = 1 ∧ (metricsAfter [.unhandled]).eventsProcessed = 0 ∧
    (metricsAfter [.unhandled]).eventsFailed = 0 ∧ (metricsAfter [.unhandled]).eventsSkippedDuplicate = 0 ∧
    ¬ Accounted [.unhandled] := by
  have hcall : billingService.Completed Unit (failedCall .empty [.ok false]) .unhandled :=
    completed_failedCall (by decide)
  exact ⟨.cons hcall .nil, rfl, rfl, rfl, rfl, fun h => absurd h.received (by decide)⟩

/-- One event handled, then met again, then lost to a store that raises: all three are accounted for. -/
theorem handled_events_accounted : ∃ reports,
    List.Forall₂ (billingService.Completed Unit)
      [failedCall billingService.handlers [.ok false, .ok true, .ok false],
        failedCall billingService.handlers [.ok true],
        failedCall billingService.handlers [.ok false, .ok true, .error intTooLarge]] reports ∧
    Accounted reports := by
  have hcalls : List.Forall₂ (billingService.Completed Unit)
      [failedCall billingService.handlers [.ok false, .ok true, .ok false],
        failedCall billingService.handlers [.ok true],
        failedCall billingService.handlers [.ok false, .ok true, .error intTooLarge]]
      [.processed, .skipped, .failed] :=
    .cons (completed_failedCall (by decide)) (.cons (completed_failedCall (by decide))
      (.cons (completed_failedCall (by decide)) .nil))
  refine ⟨_, hcalls, (metrics_accounted_iff hcalls).mpr fun d hd hun => ?_⟩
  obtain ⟨answers, rfl⟩ : ∃ answers, d = failedCall billingService.handlers answers := by
    simp only [List.mem_cons, List.not_mem_nil, or_false] at hd
    rcases hd with rfl | rfl | rfl <;> exact ⟨_, rfl⟩
  obtain ⟨event, hevent, hnone, -⟩ := hun
  have hsame : event = failedEvent := Option.some.inj (hevent.symm.trans deserialize_failedMessage)
  have hregistered : billingService.handlers.get (failedEvent (F := Unit)).eventType = none := hsame ▸ hnone
  exact absurd hregistered (by decide)

end Examples

end IsaCloud.Events
