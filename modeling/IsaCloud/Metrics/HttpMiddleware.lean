import IsaCloud.Support.PyBuiltins
import IsaCloud.Support.Runs

/-!
# The HTTP metrics middleware

`metrics_middleware` counts a request as in progress, awaits the application and
then records the outcome. The await is the only point where other requests run and
where the request can be cancelled; a cancellation is not an `Exception`, so no
handler of the middleware sees it. How a path is normalized is a parameter, and the
measured times are left out.
-/

namespace IsaCloud.Metrics

set_option autoImplicit false

open Support Support.Text Support.Python

structure HttpRequest where
  method : Str
  path : Str
  deriving DecidableEq

structure HttpResponse where
  statusCode : Nat
  /-- The `content-length` header. -/
  contentLength : Option Str
  deriving DecidableEq

/-- How `await call_next(request)` ends. -/
inductive Outcome where
  | response (r : HttpResponse)
  /-- Any exception that `except Exception` catches. -/
  | exception
  | cancelled
  deriving DecidableEq

/-- What is done to a metric, with the labels. -/
inductive MetricOp where
  | inProgressInc (method : Str)
  | inProgressDec (method : Str)
  | requestsTotal (method path statusCode : Str)
  | requestDuration (method path : Str)
  | responseSize (method path : Str) (bytes : Int)
  deriving DecidableEq

inductive Ending where
  | returned (r : HttpResponse)
  /-- The exception of the application goes on. -/
  | raised
  | cancelled
  /-- The header is no number. -/
  | failed (e : PyError)
  deriving DecidableEq

def excludedPaths : List Str :=
  [lit "/health", lit "/health/detailed", lit "/metrics", lit "/ready", lit "/live"]

/-- The request is not one of those passed on as they are. -/
def HttpRequest.measured (q : HttpRequest) : Bool := decide (q.path ∉ excludedPaths)

/-- The middleware up to `await call_next(request)`. -/
def beforeNext (q : HttpRequest) : List MetricOp := if q.measured then [.inProgressInc q.method] else []

section Middleware
variable [Unicode] (normalizePath : Str → Str)

/-- The last lines, for a response with this header. -/
def recordSize (method normalized : Str) (r : HttpResponse) : List MetricOp × Ending :=
  match r.contentLength with
  | none => ([], .returned r)
  | some contentLength =>
    if contentLength = [] then ([], .returned r)
    else
      match intOfStr contentLength with
      | .ok bytes => ([.responseSize method normalized bytes], .returned r)
      | .error e => ([], .failed e)

/-- The middleware from there on. -/
def afterNext (q : HttpRequest) (o : Outcome) : List MetricOp × Ending :=
  if q.measured then
    let normalized := normalizePath q.path
    match o with
    | .response r =>
      let rest := recordSize q.method normalized r
      (.requestsTotal q.method normalized (natText r.statusCode) :: .requestDuration q.method normalized ::
        .inProgressDec q.method :: rest.1, rest.2)
    | .exception => ([.requestsTotal q.method normalized (lit "500"), .inProgressDec q.method], .raised)
    | .cancelled => ([], .cancelled)
  else
    match o with
    | .response r => ([], .returned r)
    | .exception => ([], .raised)
    | .cancelled => ([], .cancelled)

/-- The requests that wait for the application, and all that was done to the metrics. -/
structure Server where
  running : List HttpRequest
  metrics : List MetricOp

inductive ServerEvent where
  | enter (q : HttpRequest)
  /-- The application is done with the `i`th waiting request, or its task is cancelled. -/
  | leave (i : Nat) (o : Outcome)

namespace Server

def start : Server := ⟨[], []⟩

def step (s : Server) : ServerEvent → Server
  | .enter q => ⟨s.running ++ [q], s.metrics ++ beforeNext q⟩
  | .leave i o =>
    match s.running[i]? with
    | some q => ⟨s.running.eraseIdx i, s.metrics ++ (afterNext normalizePath q o).1⟩
    | none => s

end Server

/-! ## The gauge -/

end Middleware

/-- What an operation does to the gauge of a method. -/
def MetricOp.delta (method : Str) : MetricOp → Int
  | .inProgressInc m => if m = method then 1 else 0
  | .inProgressDec m => if m = method then -1 else 0
  | _ => 0

/-- `http_requests_in_progress` of a method. -/
def inProgress (metrics : List MetricOp) (method : Str) : Int := (metrics.map (MetricOp.delta method)).sum

/-- What a request that is between entry and exit counts for. -/
def HttpRequest.counts (method : Str) (q : HttpRequest) : Bool := q.measured && decide (q.method = method)

namespace Server

/-- The measured requests of a method between entry and exit. -/
def requests (s : Server) (method : Str) : Nat := s.running.countP (HttpRequest.counts method)

def Balanced (s : Server) : Prop := ∀ method, inProgress s.metrics method = s.requests method

/-- No measured request is cancelled. -/
def Completes (s : Server) : ServerEvent → Prop
  | .enter _ => True
  | .leave i o => o = .cancelled → ∀ q, s.running[i]? = some q → q.measured = false

end Server

/-! ## One request -/

section Counting
variable {q : HttpRequest} {method : Str}

theorem inProgress_append (ops ops' : List MetricOp) :
    inProgress (ops ++ ops') method = inProgress ops method + inProgress ops' method := by
  rw [inProgress, List.map_append, List.sum_append, inProgress, inProgress]

theorem inProgress_cons (op : MetricOp) (ops : List MetricOp) :
    inProgress (op :: ops) method = op.delta method + inProgress ops method := by
  rw [inProgress, List.map_cons, List.sum_cons, inProgress]

theorem inProgress_beforeNext : inProgress (beforeNext q) method = if q.counts method then 1 else 0 := by
  rw [beforeNext, HttpRequest.counts]
  cases q.measured with
  | false => rfl
  | true => simp [inProgress, MetricOp.delta]

variable [Unicode] (normalizePath : Str → Str)

theorem inProgress_recordSize (q : HttpRequest) (method normalized : Str) (r : HttpResponse) :
    inProgress (recordSize q.method normalized r).1 method = 0 := by
  unfold recordSize
  split
  · rfl
  · split
    · rfl
    · split
      · rfl
      · rfl

/-- A request that ends is counted out, unless it is cancelled. -/
theorem inProgress_afterNext (q : HttpRequest) (method : Str) (o : Outcome) :
    inProgress (afterNext normalizePath q o).1 method =
      if o = .cancelled then 0 else if q.counts method then -1 else 0 := by
  unfold afterNext HttpRequest.counts
  cases q.measured with
  | false => cases o <;> rfl
  | true =>
    cases o with
    | cancelled => rfl
    | exception => simp [inProgress, MetricOp.delta]
    | response r =>
      have hrest := inProgress_recordSize q method (normalizePath q.path) r
      simp [inProgress_cons, hrest, MetricOp.delta]

end Counting

/-! ## One event -/

namespace Server
variable [Unicode] (normalizePath : Str → Str) {s : Server} {q : HttpRequest} {i : Nat}

theorem requests_enter (q : HttpRequest) (method : Str) :
    (s.step normalizePath (.enter q)).requests method = s.requests method + if q.counts method then 1 else 0 := by
  simp [step, requests, List.countP_append, List.countP_singleton]

theorem requests_leave (method : Str) (o : Outcome) (hq : s.running[i]? = some q) :
    (s.step normalizePath (.leave i o)).requests method + (if q.counts method then 1 else 0) = s.requests method := by
  obtain ⟨hi, hget⟩ := List.getElem?_eq_some_iff.mp hq
  have hperm := (List.getElem_cons_eraseIdx_perm hi).countP_eq (HttpRequest.counts method)
  rw [hget, List.countP_cons] at hperm
  simp only [step, hq, requests]
  exact hperm

/-- One event keeps the gauge right exactly when it cancels no measured request. -/
theorem balanced_step_iff (hs : s.Balanced) (e : ServerEvent) :
    (s.step normalizePath e).Balanced ↔ s.Completes e := by
  cases e with
  | enter q =>
    refine iff_of_true ?_ trivial
    intro method
    rw [requests_enter, step, inProgress_append, hs method, inProgress_beforeNext]
    split_ifs <;> rfl
  | leave i o =>
    cases hq : s.running[i]? with
    | none =>
      have hsame : s.step normalizePath (.leave i o) = s := by rw [step, hq]
      rw [hsame]
      exact iff_of_true hs fun _ q hsome => nomatch hq.symm.trans hsome
    | some q =>
      have hafter := fun method => inProgress_afterNext normalizePath q method o
      have hmetrics : (s.step normalizePath (.leave i o)).metrics = s.metrics ++ (afterNext normalizePath q o).1 := by
        rw [step, hq]
      constructor
      · intro hnext hcancelled q' hq'
        obtain rfl := Option.some.inj (hq.symm.trans hq')
        have hgauge := hnext q.method
        have hleave := requests_leave normalizePath q.method o hq
        rw [hmetrics, inProgress_append, hs, hafter, if_pos hcancelled] at hgauge
        cases hm : q.measured with
        | false => rfl
        | true =>
          have hcounts : q.counts q.method = true := by simp [HttpRequest.counts, hm]
          rw [if_pos hcounts] at hleave
          omega
      · intro hcompletes method
        have hleave := requests_leave normalizePath method o hq
        rw [hmetrics, inProgress_append, hs, hafter]
        by_cases hcancelled : o = .cancelled
        · have hcounts : q.counts method = false := by
            rw [HttpRequest.counts, hcompletes hcancelled q hq, Bool.false_and]
          rw [hcounts] at hleave
          rw [if_pos hcancelled]
          simp at hleave
          omega
        · rw [if_neg hcancelled]
          split_ifs at hleave ⊢
          · omega
          · omega

omit [Unicode] in
/-- With no measured request of a method under way its gauge is at 0. -/
theorem Balanced.idle {method : Str} (h : s.Balanced) (hidle : ∀ q ∈ s.running, q.counts method = false) :
    inProgress s.metrics method = 0 := by
  rw [h method, requests, List.countP_eq_zero.mpr]
  · rfl
  · intro q hq
    rw [hidle q hq]
    exact Bool.false_ne_true

/-! ## Every interleaving -/

/-- The gauge is right all along exactly when no measured request is cancelled. -/
theorem gauge_balanced_iff (events : List ServerEvent) :
    (∀ pre, pre <+: events → (run (step normalizePath) start pre).Balanced) ↔
      Guarded (step normalizePath) Completes start events :=
  invariant_along_iff Balanced (fun _ e hs => balanced_step_iff normalizePath hs e) fun _ => rfl

end Server

/-! ## A client that goes away -/

section Example

attribute [local instance] asciiUnicode

/-- The task of the only request is cancelled, and the gauge stays at 1. -/
theorem cancelled_request_stays_counted :
    ¬ ∀ pre, pre <+: [.enter ⟨lit "GET", lit "/orders"⟩, .leave 0 .cancelled] →
      (run (Server.step id) Server.start pre).Balanced := by
  intro h
  have hgauge := h _ List.prefix_rfl (lit "GET")
  have hone : inProgress [.inProgressInc (lit "GET")] (lit "GET") = 1 := by decide
  rw [Server.requests] at hgauge
  exact absurd (hone.symm.trans hgauge) (by decide)

end Example

end IsaCloud.Metrics
