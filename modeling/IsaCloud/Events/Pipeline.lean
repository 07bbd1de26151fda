import IsaCloud.Events.Subscriber
import IsaCloud.Support.Binary64

/-!
# The pipeline as its awaits

`process_event` and `_execute_with_retry` between one `await` and the next, with nothing
said about what is awaited: the store, the handler and `asyncio.sleep` each hand back a
value or raise. `implement` puts the store of a checker in their place, and what comes out
is the pipeline of the subscriber, for delays that `asyncio.sleep` takes.
-/

namespace IsaCloud.Events

set_option autoImplicit false

open Support Support.Text Support.Python Support.Encoding

inductive Await (F Hd : Type) where
  | isProcessed (eventId : Str)
  | handle (handler : Hd) (event : Event F)
  | sleep (seconds : Int)
  | markProcessed (eventId : Str)
  | moveToDlq (event : Event F) (subject reason : Str)

/-- What an await hands back: a value, of which only the truth counts, or an exception. -/
abbrev Answer := Except PyError Bool

def Outcome.answer : Outcome → Answer
  | success => .ok true
  | failure => .ok false
  | raised e => .error e

def intTooLarge : PyError := ⟨.overflowError, lit "int too large to convert to float"⟩

/-- `asyncio.sleep` adds a positive delay to the time of the loop, which is a float. -/
def asyncioSleep (seconds : Int) : Except PyError Unit :=
  if seconds ≤ 0 then .ok ()
  else if Binary64.ofInt seconds = Binary64.infinity then .error intTooLarge
  else .ok ()

/-- The least delay that rounds to infinity. -/
def sleepLimit : Nat := 2 ^ 1024 - 2 ^ 970

theorem ofInt_infinite_iff {n : Nat} : Binary64.ofInt n = Binary64.infinity ↔ sleepLimit ≤ n := by
  have hcast : Binary64.ofInt n = (Binary64.ofNat n : Int) := rfl
  rw [hcast, Int.ofNat_inj]
  constructor
  · intro h
    by_contra hlt
    have hle : n ≤ sleepLimit - 1 := Nat.le_sub_one_of_lt (Nat.lt_of_not_le hlt)
    have hmono := Binary64.ofNat_mono hle
    rw [h] at hmono
    have hfinite : Binary64.ofNat (sleepLimit - 1) < Binary64.infinity := by decide +kernel
    exact absurd hmono (Nat.not_le.mpr hfinite)
  · intro h
    have hmono := Binary64.ofNat_mono h
    have hinf : Binary64.ofNat sleepLimit = Binary64.infinity := by decide +kernel
    rw [hinf] at hmono
    exact Nat.le_antisymm (Nat.min_le_right _ _) hmono

theorem asyncioSleep_ok_iff {seconds : Int} : asyncioSleep seconds = .ok () ↔ seconds < sleepLimit := by
  unfold asyncioSleep
  by_cases hle : seconds ≤ 0
  · have hpos : (0 : Int) < sleepLimit := by decide +kernel
    rw [if_pos hle]
    exact iff_of_true rfl (Int.lt_of_le_of_lt hle hpos)
  · obtain ⟨n, rfl⟩ := Int.eq_ofNat_of_zero_le (Int.le_of_lt (Int.not_le.mp hle))
    rw [if_neg hle]
    by_cases hn : Binary64.ofInt n = Binary64.infinity
    · rw [if_pos hn]
      exact iff_of_false nofun (by exact_mod_cast Nat.not_lt.mpr (ofInt_infinite_iff.mp hn))
    · rw [if_neg hn]
      exact iff_of_true rfl (by exact_mod_cast Nat.lt_of_not_le (mt ofInt_infinite_iff.mpr hn))

theorem asyncioSleep_error {seconds : Int} (h : ¬ seconds < sleepLimit) :
    asyncioSleep seconds = .error intTooLarge := by
  have hne := mt asyncioSleep_ok_iff.mp h
  unfold asyncioSleep at hne ⊢
  split_ifs at hne ⊢
  · exact absurd rfl hne
  · rfl
  · exact absurd rfl hne

namespace Pipeline
variable {F Hd Out : Type} (sub : Subscriber Hd)

abbrev Coroutine (F Hd Out : Type) := Proc (Await F Hd) Answer Out

/-- The sleep after attempt `attempt`, unless that was the last one. -/
def pause (attempt : Nat) (next : Coroutine F Hd Out) (failed : PyError → Coroutine F Hd Out) :
    Coroutine F Hd Out :=
  if (attempt : Int) < sub.retryPolicy.maxRetries then
    .call (.sleep (sub.retryPolicy.getDelay attempt)) fun r =>
      match r with
      | .ok _ => next
      | .error e => failed e
  else next

/-- `_execute_with_retry` with `left` attempts to go. -/
def executeFrom (handler : Hd) (event : Event F) (k : Answer → Coroutine F Hd Out) :
    Nat → Nat → Coroutine F Hd Out
  | 0, _ => k (.ok false)
  | left + 1, attempt =>
    .call (.handle handler event) fun r =>
      let next := executeFrom handler event k left (attempt + 1)
      -- `except Exception` covers the handler and the sleep after `False`, not its own sleep.
      let excepted := pause sub attempt next fun e => k (.error e)
      match r with
      | .ok true => k (.ok true)
      | .ok false => pause sub attempt next fun _ => excepted
      | .error _ => excepted

def executeWithRetry (handler : Hd) (event : Event F) (k : Answer → Coroutine F Hd Out) :
    Coroutine F Hd Out := executeFrom sub handler event k sub.attempts 0

/-- After the handler succeeded. -/
def finish (event : Event F) : Coroutine F Hd Report :=
  if event.eventId = [] then .ret .processed
  else
    .call (.markProcessed event.eventId) fun r =>
      match r with
      | .ok _ => .ret .processed
      | .error _ => .ret .failed

/-- After the last attempt failed; `_move_to_dlq` raises nothing. -/
def giveUp (event : Event F) (subject : Str) : Coroutine F Hd Report :=
  .call (.moveToDlq event subject Subscriber.maxRetriesExceeded) fun _ => .ret .failed

def runHandler (event : Event F) (subject : Str) : Coroutine F Hd Report :=
  match sub.handlers.get event.eventType with
  | none => .ret .unhandled
  | some handler =>
    executeWithRetry sub handler event fun r =>
      match r with
      | .ok true => finish event
      | .ok false => giveUp event subject
      | .error _ => .ret .failed

def processDecoded (event : Event F) (subject : Str) : Coroutine F Hd Report :=
  if event.eventId = [] then runHandler sub event subject
  else
    .call (.isProcessed event.eventId) fun r =>
      match r with
      | .error _ => .ret .failed
      | .ok true => .ret .skipped
      | .ok false => runHandler sub event subject

def processEvent [PyFloat F] [EventModels F] (nesting : Nat) (eventData : Bytes) (subject : Str) :
    Coroutine F Hd Report :=
  match deserializeEvent nesting eventData with
  | none => .ret .failed
  | some event => processDecoded sub event subject

end Pipeline

/-! ## The subscriber's own store -/

section Implement
variable {F Hd Out : Type} [PyFloat F] (sub : Subscriber Hd)

/-- The awaits of a pipeline, answered by the subscriber's checker, handlers and loop. -/
def implement : Pipeline.Coroutine F Hd Out → Coroutine F Hd Out
  | .ret o => .ret o
  | .call (.isProcessed eventId) k => sub.idempotency.isProcessed eventId fun r => implement (k r)
  | .call (.handle handler event) k =>
    .call (.handle handler event) fun r => implement (k r.toOutcome.answer)
  | .call (.sleep seconds) k =>
    match asyncioSleep seconds with
    | .ok () => .call (.sleep seconds) fun _ => implement (k (.ok false))
    | .error e => implement (k (.error e))
  | .call (.markProcessed eventId) k =>
    sub.idempotency.markProcessed eventId fun r => implement (k (r.map fun _ => false))
  | .call (.moveToDlq event subject reason) k =>
    .call (.moveToDlq sub.serviceName event subject reason) fun _ => implement (k (.ok false))

variable {sub} (hsleep : ∀ attempt : Nat, (attempt : Int) < sub.retryPolicy.maxRetries →
  sub.retryPolicy.getDelay attempt < sleepLimit)
include hsleep

theorem implement_pause {attempt : Nat} {next : Pipeline.Coroutine F Hd Out}
    {failed : PyError → Pipeline.Coroutine F Hd Out} :
    implement sub (Pipeline.pause sub attempt next failed) =
      if (attempt : Int) < sub.retryPolicy.maxRetries then
        .call (.sleep (sub.retryPolicy.getDelay attempt)) fun _ => implement sub next
      else implement sub next := by
  unfold Pipeline.pause
  by_cases h : (attempt : Int) < sub.retryPolicy.maxRetries
  · rw [if_pos h, if_pos h, implement, asyncioSleep_ok_iff.mpr (hsleep attempt h)]
  · rw [if_neg h, if_neg h]

theorem implement_executeFrom (handler : Hd) (event : Event F) {k : Answer → Pipeline.Coroutine F Hd Out}
    {k' : Bool → Coroutine F Hd Out} (hk : ∀ b, implement sub (k (.ok b)) = k' b) (left attempt : Nat) :
    implement sub (Pipeline.executeFrom sub handler event k left attempt) =
      sub.executeFrom handler event k' left attempt := by
  induction left generalizing attempt with
  | zero => exact hk false
  | succ left ih =>
    rw [Pipeline.executeFrom, implement, Subscriber.executeFrom]
    congr 1
    funext r
    cases hr : r.toOutcome with
    | success => exact hk true
    | failure =>
      simp only [Outcome.answer, reduceCtorEq, if_false]
      rw [implement_pause hsleep, ih]
    | raised e =>
      simp only [Outcome.answer, reduceCtorEq, if_false]
      rw [implement_pause hsleep, ih]

theorem implement_runHandler (event : Event F) (subject : Str) :
    implement sub (Pipeline.runHandler sub event subject) = sub.runHandler event subject := by
  unfold Pipeline.runHandler Subscriber.runHandler
  cases sub.handlers.get event.eventType with
  | none => rfl
  | some handler =>
    refine implement_executeFrom hsleep handler event (fun b => ?_) _ _
    cases b with
    | false => rfl
    | true =>
      show implement sub (Pipeline.finish event) = sub.finish event
      unfold Pipeline.finish Subscriber.finish
      split_ifs with hid
      · rfl
      · rw [implement]
        congr 1
        funext r
        cases r <;> rfl

/-- With the subscriber's own store behind the awaits, this is the pipeline of the subscriber. -/
theorem implement_processEvent [EventModels F] (nesting : Nat) (eventData : Bytes) (subject : Str) :
    implement sub (Pipeline.processEvent (F := F) sub nesting eventData subject) =
      sub.processEvent nesting eventData subject := by
  unfold Pipeline.processEvent Subscriber.processEvent
  cases deserializeEvent (F := F) nesting eventData with
  | none => rfl
  | some event =>
    show implement sub (Pipeline.processDecoded sub event subject) = sub.processDecoded event subject
    unfold Pipeline.processDecoded Subscriber.processDecoded
    split_ifs with hid
    · exact implement_runHandler hsleep event subject
    · rw [implement]
      congr 1
      funext r
      rcases r with e | b
      · rfl
      · cases b with
        | true => rfl
        | false => exact implement_runHandler hsleep event subject

end Implement

end IsaCloud.Events
