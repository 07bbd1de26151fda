import IsaCloud.Support.Reconcile
import IsaCloud.Support.Runs
import IsaCloud.Support.Text

/-!
# The batches of the Loki client

`push_log`, `flush`, the auto-flush task and `close`, which switch at every await.
A flush takes the pending batch before it sends it, tries twice and then counts
what it drops. Entries are numbered in the order of the `push_log` calls.
-/

namespace IsaCloud.Loki

set_option autoImplicit false

open Support Support.Text

structure LogEntry where
  number : Nat
  labels : Dict Str Str
  values : List (Str × Str)
  deriving DecidableEq

/-- A batch in the hands of a `_flush_batch`. -/
structure Flush where
  batch : List LogEntry
  attempt : Nat
  /-- In the pause before the next attempt. -/
  pausing : Bool

inductive LokiCall where
  /-- `flush`, or `push_log` with a full batch. -/
  | flushing (f : Flush)
  | returned (ok : Bool)
  /-- `close` waits for the cancelled task. -/
  | awaitingTask
  /-- `close` flushes what is left. -/
  | lastFlush (f : Flush)
  | closingSession
  /-- `close` has returned, and so many entries had been accepted by then. -/
  | closed (accepted : Nat)

/-- `_flush_task`. -/
inductive FlushTask where
  | none
  | asleep
  | flushing (f : Flush)

structure LokiConfig where
  batchSize : Int
  defaultLabels : Dict Str Str

def maxFlushRetries : Nat := 2

/-- What happened to the entries: `_batch`, `_dropped_entries`, and an account of them. -/
structure Ledger where
  batch : List LogEntry
  droppedEntries : Nat
  accepted : List LogEntry
  acked : List LogEntry
  dropped : List LogEntry

namespace Ledger
variable (g : Ledger)

def push (labels : Dict Str Str) (value : Str × Str) : Ledger :=
  { g with
    batch := g.batch ++ [⟨g.accepted.length, labels, [value]⟩]
    accepted := g.accepted ++ [⟨g.accepted.length, labels, [value]⟩] }

def take : Ledger := { g with batch := [] }

def ack (batch : List LogEntry) : Ledger := { g with acked := g.acked ++ batch }

def drop (batch : List LogEntry) : Ledger :=
  { g with
    droppedEntries := g.droppedEntries + (batch.map fun e => e.values.length).sum
    dropped := g.dropped ++ batch }

end Ledger

structure LokiState extends Ledger where
  connected : Bool
  task : FlushTask
  calls : List LokiCall

inductive LokiEvent where
  | pushLog (message : Str) (labels : Option (Dict Str Str)) (timestampNs : Option Int) (clock : Int)
  | flush
  | startAutoFlush
  /-- Any other operation, which connects. -/
  | operation
  | close
  /-- A call goes on; `noContent` says whether the request it waits for was answered with 204. -/
  | resume (i : Nat) (noContent : Bool)
  /-- The background task goes on. -/
  | tick (noContent : Bool)

namespace LokiState

def start : LokiState := ⟨⟨[], 0, [], [], []⟩, false, .none, []⟩

def call (s : LokiState) (c : LokiCall) : LokiState := { s with calls := s.calls ++ [c] }

def put (s : LokiState) (i : Nat) (c : LokiCall) : LokiState := { s with calls := s.calls.set i c }

/-- The batch is taken, and the first attempt connects the client. -/
def take (s : LokiState) : LokiState := { s with toLedger := s.toLedger.take, connected := true }

def firstAttempt (s : LokiState) : Flush := ⟨s.batch, 0, false⟩

/-- Where a flush is after its next await: on its way, or done with what it returns. -/
inductive Progress where
  | going (f : Flush)
  | done (ok : Bool)

def advance (s : LokiState) (f : Flush) (noContent : Bool) : LokiState × Progress :=
  if f.pausing then ({ s with connected := true }, .going { f with attempt := f.attempt + 1, pausing := false })
  else if noContent then ({ s with toLedger := s.toLedger.ack f.batch }, .done true)
  else if f.attempt < maxFlushRetries - 1 then (s, .going { f with pausing := true })
  else ({ s with toLedger := s.toLedger.drop f.batch }, .done false)

/-- `timestamp_ns or time.time_ns()`. -/
def timestamp (timestampNs : Option Int) (clock : Int) : Int :=
  match timestampNs with
  | some t => if t = 0 then clock else t
  | none => clock

def pushLog (c : LokiConfig) (s : LokiState) (message : Str) (labels : Option (Dict Str Str))
    (timestampNs : Option Int) (clock : Int) : LokiState :=
  let merged := c.defaultLabels.putAll ((labels.map Dict.entries).getD [])
  let s := { s with toLedger := s.toLedger.push merged (intText (timestamp timestampNs clock), message) }
  if c.batchSize ≤ s.batch.length then s.take.call (.flushing s.firstAttempt) else s.call (.returned true)

def flush (s : LokiState) : LokiState :=
  if s.batch = [] then s.call (.returned true) else s.take.call (.flushing s.firstAttempt)

def startAutoFlush (s : LokiState) : LokiState :=
  match s.task with
  | .none => { s with task := .asleep }
  | _ => s

/-- The rest of `_disconnect`, once the task has ended. -/
def afterTask (s : LokiState) : LokiState × LokiCall :=
  if s.batch = [] then (s, .closingSession) else (s.take, .lastFlush s.firstAttempt)

/-- Cancelling the task ends it where it is. -/
def close (s : LokiState) : LokiState :=
  if s.connected then
    match s.task with
    | .none => s.afterTask.1.call s.afterTask.2
    | _ => { s with task := .none }.call .awaitingTask
  else s.call (.closed s.accepted.length)

def resume (s : LokiState) (i : Nat) (noContent : Bool) : LokiState :=
  match s.calls[i]? with
  | some (.flushing f) =>
    match s.advance f noContent with
    | (s', .going f') => s'.put i (.flushing f')
    | (s', .done ok) => s'.put i (.returned ok)
  | some .awaitingTask => s.afterTask.1.put i s.afterTask.2
  | some (.lastFlush f) =>
    match s.advance f noContent with
    | (s', .going f') => s'.put i (.lastFlush f')
    | (s', .done _) => s'.put i .closingSession
  | some .closingSession => { s with connected := false }.put i (.closed s.accepted.length)
  | _ => s

def tick (s : LokiState) (noContent : Bool) : LokiState :=
  match s.task with
  | .none => s
  | .asleep => if s.batch = [] then s else { s.take with task := .flushing s.firstAttempt }
  | .flushing f =>
    match s.advance f noContent with
    | (s', .going f') => { s' with task := .flushing f' }
    | (s', .done _) => { s' with task := .asleep }

def step (c : LokiConfig) (s : LokiState) : LokiEvent → LokiState
  | .pushLog message labels timestampNs clock => s.pushLog c message labels timestampNs clock
  | .flush => s.flush
  | .startAutoFlush => s.startAutoFlush
  | .operation => { s with connected := true }
  | .close => s.close
  | .resume i noContent => s.resume i noContent
  | .tick noContent => s.tick noContent

/-! ## Conservation -/

end LokiState

def LokiCall.held : LokiCall → List LogEntry
  | .flushing f => f.batch
  | .lastFlush f => f.batch
  | _ => []

def LokiCall.Closing : LokiCall → Prop
  | .awaitingTask => True
  | .lastFlush _ => True
  | .closingSession => True
  | _ => False

instance : DecidablePred LokiCall.Closing
  | .awaitingTask => .isTrue trivial
  | .lastFlush _ => .isTrue trivial
  | .closingSession => .isTrue trivial
  | .flushing _ => .isFalse id
  | .returned _ => .isFalse id
  | .closed _ => .isFalse id

def FlushTask.held : FlushTask → List LogEntry
  | .flushing f => f.batch
  | _ => []

namespace LokiState

/-- The entries in the batches that are being sent. -/
def sending (s : LokiState) : List LogEntry := s.calls.flatMap LokiCall.held ++ s.task.held

def places (s : LokiState) : List LogEntry := s.batch ++ s.sending ++ s.acked ++ s.dropped

/-- Every accepted entry is in exactly one place, and none is pending or on its way that was
accepted before a `close` returned. -/
structure Conserved (s : LokiState) : Prop where
  perm : s.accepted.Perm s.places
  nodup : s.places.Nodup
  counted : s.droppedEntries = s.dropped.length
  closed : ∀ n, LokiCall.closed n ∈ s.calls → ∀ e ∈ s.batch ++ s.sending, n ≤ e.number

/-- No `close` is under way. -/
def Open (s : LokiState) : Prop := ∀ c ∈ s.calls, ¬ c.Closing

instance (s : LokiState) : Decidable s.Open := inferInstanceAs (Decidable (∀ c ∈ s.calls, ¬ c.Closing))

/-- A `close` begins while no batch is being sent, on a client that is connected or has nothing
pending, and nothing else is called until it returns. -/
def Orderly (s : LokiState) : LokiEvent → Prop
  | .pushLog _ _ _ _ => s.Open
  | .flush => s.Open
  | .startAutoFlush => s.Open
  | .close => s.Open ∧ s.sending = [] ∧ (s.connected = true ∨ s.batch = [])
  | _ => True

end LokiState

end IsaCloud.Loki
