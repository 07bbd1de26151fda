import IsaCloud.Support.Runs
import Mathlib.Data.List.Nodup
import Mathlib.Logic.Function.Basic

/-!
# Interleaved calls and linearizability

A `Pool` runs any number of processes against one server, command by command.
A run of complete calls is linearizable when some order of the calls, replayed
by a sequential specification, gives the same final value and the same answers,
and puts no call before one that had already returned when it was invoked.

`Linearizing` is the invariant behind such a proof: the calls that have taken
effect so far, in the order in which they did.
-/

namespace Support

set_option autoImplicit false

structure Call (Op Cmd Reply Out : Type) where
  op : Op
  /-- The calls that had returned when this one was invoked. -/
  before : List Nat
  proc : Proc Cmd Reply Out

structure Pool (S Op Cmd Reply Out : Type) where
  server : S
  next : Nat
  calls : Nat → Option (Call Op Cmd Reply Out)

inductive PoolAction (E Op : Type) where
  | env (e : E)
  | invoke (op : Op)
  | step (i : Nat)

/-- The server, what happens to it between commands, and the code of each call. -/
structure System (S E Op Cmd Reply Out : Type) where
  serve : S → Cmd → S × Reply
  env : S → E → S
  code : S → Op → Proc Cmd Reply Out

section Specification
variable {A Op Out : Type} (apply : A → Op → A × Out)

def replay (a : A) : List Op → A × List Out
  | [] => (a, [])
  | op :: ops =>
    ((replay (apply a op).1 ops).1, (apply a op).2 :: (replay (apply a op).1 ops).2)

variable {apply}

theorem replay_concat {a b : A} {ops : List Op} {outs : List Out}
    (h : replay apply a ops = (b, outs)) (op : Op) :
    replay apply a (ops ++ [op]) = ((apply b op).1, outs ++ [(apply b op).2]) := by
  induction ops generalizing a outs with
  | nil =>
    cases h
    rfl
  | cons op' ops ih =>
    have h1 : (replay apply (apply a op').1 ops).1 = b := congrArg Prod.fst h
    have h2 : (apply a op').2 :: (replay apply (apply a op').1 ops).2 = outs := congrArg Prod.snd h
    have := ih (a := (apply a op').1) (Prod.ext h1 rfl)
    rw [List.cons_append, replay, this, ← h2]
    rfl

end Specification

section Pool
variable {S E A Op Cmd Reply Out : Type}

namespace Pool

def init (s : S) : Pool S Op Cmd Reply Out := ⟨s, 0, fun _ => none⟩

def opOf (p : Pool S Op Cmd Reply Out) (i : Nat) : Option Op := (p.calls i).map Call.op

def outOf (p : Pool S Op Cmd Reply Out) (i : Nat) : Option Out :=
  (p.calls i).bind fun c => c.proc.output

def Complete (p : Pool S Op Cmd Reply Out) : Prop := ∀ i, i < p.next → (p.outOf i).isSome

/-- The pool after a command of call `i`. -/
def resume (p : Pool S Op Cmd Reply Out) (s : S) (i : Nat) (c : Call Op Cmd Reply Out)
    (proc : Proc Cmd Reply Out) : Pool S Op Cmd Reply Out :=
  { p with server := s, calls := Function.update p.calls i (some { c with proc := proc }) }

end Pool

def System.step (sys : System S E Op Cmd Reply Out) (p : Pool S Op Cmd Reply Out) :
    PoolAction E Op → Pool S Op Cmd Reply Out
  | .env e => { p with server := sys.env p.server e }
  | .invoke op =>
    { p with
      next := p.next + 1
      calls := Function.update p.calls p.next
        (some ⟨op, (List.range p.next).filter fun i => (p.outOf i).isSome, sys.code p.server op⟩) }
  | .step i =>
    match p.calls i with
    | some ⟨op, before, .call cmd k⟩ =>
      p.resume (sys.serve p.server cmd).1 i ⟨op, before, .call cmd k⟩ (k (sys.serve p.server cmd).2)
    | _ => p

section Step
variable (sys : System S E Op Cmd Reply Out) {p : Pool S Op Cmd Reply Out} {i : Nat}
  {c : Call Op Cmd Reply Out}

theorem System.step_call {cmd : Cmd} {k : Reply → Proc Cmd Reply Out} (hi : p.calls i = some c)
    (hc : c.proc = .call cmd k) :
    sys.step p (.step i) =
      p.resume (sys.serve p.server cmd).1 i c (k (sys.serve p.server cmd).2) := by
  cases c with
  | mk op before proc =>
    cases hc
    simp [System.step, hi]

theorem System.step_returned {o : Out} (hi : p.calls i = some c) (hc : c.proc = .ret o) :
    sys.step p (.step i) = p := by
  cases c with
  | mk op before proc =>
    cases hc
    simp [System.step, hi]

theorem System.step_missing (hi : p.calls i = none) : sys.step p (.step i) = p := by
  simp [System.step, hi]

/-- Nothing is left of the call, or its next command is served. -/
theorem System.step_cases (p : Pool S Op Cmd Reply Out) (i : Nat) :
    (sys.step p (.step i) = p ∧ ∀ c, p.calls i = some c → c.proc.output.isSome) ∨
    ∃ c cmd k, p.calls i = some c ∧ c.proc = .call cmd k ∧ sys.step p (.step i) =
      p.resume (sys.serve p.server cmd).1 i c (k (sys.serve p.server cmd).2) := by
  cases hi : p.calls i with
  | none => exact .inl ⟨sys.step_missing hi, fun c hc => nomatch hc⟩
  | some c =>
    cases hproc : c.proc with
    | ret o =>
      refine .inl ⟨sys.step_returned hi hproc, ?_⟩
      rintro _ ⟨⟩
      rw [hproc]
      rfl
    | call cmd k => exact .inr ⟨c, cmd, k, rfl, hproc, sys.step_call hi hproc⟩

theorem System.calls_invoke_of_ne {op : Op} (hi : i ≠ p.next) :
    (sys.step p (.invoke op)).calls i = p.calls i :=
  Function.update_of_ne hi _ _

/-- The new call, or one that was there. -/
theorem System.calls_invoke_cases {op : Op} (h : (sys.step p (.invoke op)).calls i = some c) :
    (i = p.next ∧ c = ⟨op, (List.range p.next).filter fun j => (p.outOf j).isSome, sys.code p.server op⟩) ∨
      (i ≠ p.next ∧ p.calls i = some c) := by
  by_cases hi : i = p.next
  · subst hi
    have hself : (sys.step p (.invoke op)).calls p.next = some _ := Function.update_self _ _ _
    rw [hself] at h
    exact .inl ⟨rfl, (Option.some.inj h).symm⟩
  · rw [sys.calls_invoke_of_ne hi] at h
    exact .inr ⟨hi, h⟩

end Step

namespace Pool
variable (apply : A → Op → A × Out) (a₀ : A)

/-- Replaying all calls in the given order gives the final value and the answers. -/
structure Explains (p : Pool S Op Cmd Reply Out) (a : A) (order : List Nat) : Prop where
  all_calls : order.Perm (List.range p.next)
  outcome : replay apply a₀ (order.filterMap p.opOf) = (a, order.filterMap p.outOf)

def RealTime (p : Pool S Op Cmd Reply Out) (order : List Nat) : Prop :=
  order.Pairwise fun i j => ∀ c, p.calls i = some c → j ∉ c.before

def Serializable (p : Pool S Op Cmd Reply Out) (a : A) : Prop :=
  ∃ order, p.Explains apply a₀ a order

def Linearizable (p : Pool S Op Cmd Reply Out) (a : A) : Prop :=
  ∃ order, p.Explains apply a₀ a order ∧ p.RealTime order

variable (later : Op → Out)

/-- The answer of a call that has taken effect: what it returned, or what it
will return. -/
def promised (p : Pool S Op Cmd Reply Out) (i : Nat) : Option Out :=
  (p.calls i).map fun c => c.proc.output.getD (later c.op)

structure Linearizing (p : Pool S Op Cmd Reply Out) (a : A) (order : List Nat) : Prop where
  nodup : order.Nodup
  invoked : ∀ i, (p.calls i).isSome ↔ i < p.next
  known : ∀ i ∈ order, i < p.next
  returned : ∀ i, (p.outOf i).isSome → i ∈ order
  before : ∀ i c, p.calls i = some c → ∀ j ∈ c.before, j ∈ order
  realTime : p.RealTime order
  trace : replay apply a₀ (order.filterMap p.opOf) = (a, order.filterMap (p.promised later))

variable {apply a₀ later}

theorem linearizing_init (s : S) :
    Linearizing apply a₀ later (init s : Pool S Op Cmd Reply Out) a₀ [] where
  nodup := List.nodup_nil
  invoked := by simp [init]
  known := by simp
  returned := by simp [init, outOf]
  before := by simp [init]
  realTime := List.Pairwise.nil
  trace := rfl

section Resume
variable {p : Pool S Op Cmd Reply Out} {s : S} {i : Nat} {c : Call Op Cmd Reply Out}
  {proc : Proc Cmd Reply Out}

@[simp] theorem calls_resume_self : (p.resume s i c proc).calls i = some { c with proc := proc } :=
  Function.update_self _ _ _

theorem calls_resume_of_ne {j : Nat} (hj : j ≠ i) : (p.resume s i c proc).calls j = p.calls j :=
  Function.update_of_ne hj _ _

/-- The call that goes on, or another one. -/
theorem calls_resume_cases {j : Nat} {d : Call Op Cmd Reply Out} (h : (p.resume s i c proc).calls j = some d) :
    (j = i ∧ d = { c with proc := proc }) ∨ (j ≠ i ∧ p.calls j = some d) := by
  by_cases hj : j = i
  · subst hj
    rw [calls_resume_self] at h
    exact .inl ⟨rfl, (Option.some.inj h).symm⟩
  · rw [calls_resume_of_ne hj] at h
    exact .inr ⟨hj, h⟩

/-- Every call stays the call of its operation. -/
theorem calls_resume_kept (hi : p.calls i = some c) {j : Nat} {d : Call Op Cmd Reply Out}
    (hj : p.calls j = some d) : ∃ d', (p.resume s i c proc).calls j = some d' ∧ d'.op = d.op := by
  by_cases hji : j = i
  · subst hji
    rw [hi] at hj
    cases hj
    exact ⟨_, calls_resume_self, rfl⟩
  · exact ⟨d, (calls_resume_of_ne hji).trans hj, rfl⟩

theorem opOf_resume (hi : p.calls i = some c) :
    (p.resume s i c proc).opOf = p.opOf := by
  funext j
  by_cases hj : j = i
  · subst hj
    simp [opOf, resume, hi]
  · simp [opOf, resume, hj]

theorem before_resume (hi : p.calls i = some c) {j : Nat}
    {d : Call Op Cmd Reply Out} (hj : (p.resume s i c proc).calls j = some d) :
    ∃ d₀, p.calls j = some d₀ ∧ d.before = d₀.before := by
  rcases calls_resume_cases hj with ⟨rfl, rfl⟩ | ⟨_, hj⟩
  · exact ⟨c, hi, rfl⟩
  · exact ⟨d, hj, rfl⟩

theorem realTime_resume (hi : p.calls i = some c) {order : List Nat}
    (h : p.RealTime order) : (p.resume s i c proc).RealTime order := by
  refine List.Pairwise.imp ?_ h
  intro j k hjk d hd
  obtain ⟨d₀, hd₀, hbefore⟩ := before_resume hi hd
  rw [hbefore]
  exact hjk d₀ hd₀

theorem promised_resume_of_ne {j : Nat} (hj : j ≠ i) :
    (p.resume s i c proc).promised later j = p.promised later j := by
  simp [promised, resume, hj]

theorem promised_resume_self :
    (p.resume s i c proc).promised later i = some (proc.output.getD (later c.op)) := by
  simp [promised, resume]

theorem invoked_resume (hi : p.calls i = some c) (h : ∀ j, (p.calls j).isSome ↔ j < p.next)
    (j : Nat) : ((p.resume s i c proc).calls j).isSome ↔ j < p.next := by
  by_cases hj : j = i
  · subst hj
    have := (h j).mp (by simp [hi])
    simp [resume, this]
  · simpa [resume, hj] using h j

theorem returned_resume {order : List Nat} (h : ∀ j, (p.outOf j).isSome → j ∈ order) {j : Nat}
    (hj : ((p.resume s i c proc).outOf j).isSome) : j ∈ order ∨ j = i := by
  by_cases hji : j = i
  · exact .inr hji
  · exact .inl (h j (by simpa [outOf, resume, hji] using hj))

variable {a : A} {order : List Nat}

/-- The command with which a call takes effect. -/
theorem Linearizing.effect (h : Linearizing apply a₀ later p a order) (hi : p.calls i = some c)
    (hnew : i ∉ order)
    (hout : proc.output.getD (later c.op) = (apply a c.op).2) :
    Linearizing apply a₀ later (p.resume s i c proc) (apply a c.op).1 (order ++ [i]) where
  nodup := by
    rw [List.nodup_append]
    refine ⟨h.nodup, List.nodup_singleton i, ?_⟩
    intro j hj k hk
    rw [List.mem_singleton] at hk
    intro hjk
    exact hnew (hk ▸ hjk ▸ hj)
  invoked := invoked_resume hi h.invoked
  known := by
    intro j hj
    rcases List.mem_append.mp hj with hj | hj
    · exact h.known j hj
    · rw [List.mem_singleton.mp hj]
      exact (h.invoked i).mp (by simp [hi])
  returned := by
    intro j hj
    rcases returned_resume h.returned hj with hj | hj
    · exact List.mem_append_left _ hj
    · exact List.mem_append_right _ (List.mem_singleton.mpr hj)
  before := by
    intro j d hd k hk
    obtain ⟨d₀, hd₀, hbefore⟩ := before_resume hi hd
    exact List.mem_append_left _ (h.before j d₀ hd₀ k (hbefore ▸ hk))
  realTime := by
    refine List.pairwise_append.mpr ⟨realTime_resume hi h.realTime, List.pairwise_singleton _ _, ?_⟩
    intro j _ k hk d hd hmem
    -- a call that has not taken effect has not returned, so nothing waited for it
    obtain ⟨d₀, hd₀, hbefore⟩ := before_resume hi hd
    rw [List.mem_singleton] at hk
    exact hnew (hk ▸ h.before j d₀ hd₀ k (hbefore ▸ hmem))
  trace := by
    have hold : order.filterMap ((p.resume s i c proc).promised later) =
        order.filterMap (p.promised later) := by
      apply List.filterMap_congr
      intro j hj
      exact promised_resume_of_ne (fun hji => hnew (hji ▸ hj))
    have hself : (p.opOf i) = some c.op := by simp [opOf, hi]
    rw [opOf_resume hi, List.filterMap_append, List.filterMap_append, hold]
    simp only [List.filterMap_cons, List.filterMap_nil, hself, promised_resume_self, hout]
    exact replay_concat h.trace c.op

/-- A later command of a call that has already taken effect. -/
theorem Linearizing.silent (h : Linearizing apply a₀ later p a order) (hi : p.calls i = some c)
    (hold : i ∈ order)
    (hout : proc.output.getD (later c.op) = c.proc.output.getD (later c.op)) :
    Linearizing apply a₀ later (p.resume s i c proc) a order where
  nodup := h.nodup
  invoked := invoked_resume hi h.invoked
  known := h.known
  returned := by
    intro j hj
    rcases returned_resume h.returned hj with hj | hj
    · exact hj
    · exact hj ▸ hold
  before := by
    intro j d hd k hk
    obtain ⟨d₀, hd₀, hbefore⟩ := before_resume hi hd
    exact h.before j d₀ hd₀ k (hbefore ▸ hk)
  realTime := realTime_resume hi h.realTime
  trace := by
    have hsame : (p.resume s i c proc).promised later = p.promised later := by
      funext j
      by_cases hj : j = i
      · subst hj
        rw [promised_resume_self, hout]
        simp [promised, hi]
      · exact promised_resume_of_ne hj
    rw [opOf_resume hi, hsame]
    exact h.trace

end Resume

section Runs
variable {p : Pool S Op Cmd Reply Out} {a : A} {order : List Nat}

theorem Linearizing.env (h : Linearizing apply a₀ later p a order) (s : S) :
    Linearizing apply a₀ later { p with server := s } a order :=
  ⟨h.nodup, h.invoked, h.known, h.returned, h.before, h.realTime, h.trace⟩

/-- A new call that has not returned at once. -/
theorem Linearizing.invoke (h : Linearizing apply a₀ later p a order)
    (sys : System S E Op Cmd Reply Out) (op : Op) (hcode : (sys.code p.server op).output = none) :
    Linearizing apply a₀ later (sys.step p (.invoke op)) a order := by
  have hnew : p.next ∉ order := fun hm => Nat.lt_irrefl _ (h.known _ hm)
  have hne : ∀ j ∈ order, j ≠ p.next := fun j hj heq => hnew (heq ▸ hj)
  constructor
  · exact h.nodup
  · intro i
    by_cases hi : i = p.next
    · simp [System.step, hi]
    · have := h.invoked i
      simp only [System.step, Function.update_of_ne hi, this]
      omega
  · intro i hi
    exact Nat.lt_succ_of_lt (h.known i hi)
  · intro i hi
    by_cases hin : i = p.next
    · subst hin
      simp [System.step, outOf, hcode] at hi
    · exact h.returned i (by simpa [System.step, outOf, hin] using hi)
  · intro i c hc j hj
    rcases sys.calls_invoke_cases hc with ⟨_, rfl⟩ | ⟨_, hc⟩
    · exact h.returned j (by simpa using (List.mem_filter.mp hj).2)
    · exact h.before i c hc j hj
  · refine List.Pairwise.imp_of_mem ?_ h.realTime
    intro i j hi _ hij c hc
    rw [sys.calls_invoke_of_ne (hne i hi)] at hc
    exact hij c hc
  · have hops : order.filterMap (sys.step p (.invoke op)).opOf = order.filterMap p.opOf := by
      apply List.filterMap_congr
      intro j hj
      simp [System.step, opOf, hne j hj]
    have houts : order.filterMap ((sys.step p (.invoke op)).promised later) =
        order.filterMap (p.promised later) := by
      apply List.filterMap_congr
      intro j hj
      simp [System.step, promised, hne j hj]
    rw [hops, houts]
    exact h.trace

theorem Linearizing.linearizable (h : Linearizing apply a₀ later p a order) (hdone : p.Complete) :
    p.Linearizable apply a₀ a := by
  have hmem : ∀ i, i ∈ order ↔ i < p.next := fun i =>
    ⟨h.known i, fun hi => h.returned i (hdone i hi)⟩
  refine ⟨order, ⟨?_, ?_⟩, h.realTime⟩
  · rw [List.perm_ext_iff_of_nodup h.nodup List.nodup_range]
    intro i
    rw [hmem, List.mem_range]
  · rw [h.trace]
    congr 1
    apply List.filterMap_congr
    intro i hi
    obtain ⟨o, ho⟩ := Option.isSome_iff_exists.mp (hdone i (h.known i hi))
    obtain ⟨c, hc, hout⟩ := Option.bind_eq_some_iff.mp ho
    simp [promised, outOf, hc, hout]

end Runs

end Pool

section Invariants
variable (sys : System S E Op Cmd Reply Out) (Inv : S → Prop) (Le : S → S → Prop)
  (Underway : S → Proc Cmd Reply Out → Prop)

/-- The server is in order, and so is what is left of every call. -/
structure InOrder (p : Pool S Op Cmd Reply Out) : Prop where
  server : Inv p.server
  calls : ∀ i c, p.calls i = some c → Underway p.server c.proc

variable {sys Inv Le Underway}

/-- A rule for every interleaving: each command keeps the server in order, moves
it along `Le`, and leaves a process whose rest is in order; moving along `Le`
does not disturb the others. -/
theorem run_inOrder (henv : ∀ s e, Inv s → Inv (sys.env s e) ∧ Le s (sys.env s e))
    (hcode : ∀ s op, Inv s → Underway s (sys.code s op))
    (hadvance : ∀ s q, Inv s → Underway s q → Inv (q.advance sys.serve s).1 ∧
      Le s (q.advance sys.serve s).1 ∧
      Underway (q.advance sys.serve s).1 (q.advance sys.serve s).2)
    (hmono : ∀ s s' q, Le s s' → Underway s q → Underway s' q)
    {p : Pool S Op Cmd Reply Out} (h : InOrder Inv Underway p) (actions : List (PoolAction E Op)) :
    InOrder Inv Underway (run sys.step p actions) := by
  refine run_invariant (InOrder Inv Underway) ?_ actions h
  intro p a h
  cases a with
  | env e =>
    obtain ⟨hinv, hle⟩ := henv p.server e h.server
    exact ⟨hinv, fun i c hi => hmono _ _ _ hle (h.calls i c hi)⟩
  | invoke op =>
    refine ⟨h.server, ?_⟩
    intro i c hi
    rcases sys.calls_invoke_cases hi with ⟨_, rfl⟩ | ⟨_, hi⟩
    · exact hcode p.server op h.server
    · exact h.calls i c hi
  | step i =>
    rcases sys.step_cases p i with ⟨hidle, _⟩ | ⟨c, cmd, k, hi, hc, hstep⟩
    · rw [hidle]
      exact h
    · obtain ⟨hinv, hle, hrest⟩ := hadvance p.server c.proc h.server (h.calls i c hi)
      rw [hc] at hinv hle hrest
      rw [hstep]
      refine ⟨hinv, ?_⟩
      intro j d hj
      rcases Pool.calls_resume_cases hj with ⟨rfl, rfl⟩ | ⟨_, hj⟩
      · exact hrest
      · exact hmono _ _ _ hle (h.calls j d hj)

end Invariants

end Pool

end Support
