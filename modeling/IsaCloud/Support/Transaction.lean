import IsaCloud.Support.Pool

/-!
# One connection, one transaction

A connection holds the committed database and, inside a transaction, the one the
transaction works on. Outside a transaction every statement commits itself. A
statement that fails changes nothing and leaves a transaction open.

Calls share the connection command by command. `Guest` describes a call that
either sends one statement or brackets its statements with `begin` and a commit
or rollback. As long as nobody else sends a statement, a commit or a rollback
into a transaction, the calls that succeed are serialized and the others leave
nothing behind.
-/

namespace Support.Transaction

set_option autoImplicit false

variable {D Q R E : Type}

/-- What statements do to a database, what a commit checks, and the errors of a `begin` inside
and of a commit or rollback outside a transaction. -/
structure Engine (D Q R E : Type) where
  apply : Q → D → Except E (D × R)
  commitError : D → Option E
  nested : E
  inactive : E

structure Conn (D : Type) where
  durable : D
  working : Option D

inductive Command (Q : Type) where
  | statement (q : Q)
  | begin
  | commit
  | rollback
  /-- A commit that does nothing outside a transaction. -/
  | commitIfOpen

abbrev Answer (R E : Type) := Except E (Option R)

namespace Engine
variable (e : Engine D Q R E)

def commit (c : Conn D) (w : D) : Conn D × Answer R E :=
  match e.commitError w with
  | none => (⟨w, none⟩, .ok none)
  | some x => (c, .error x)

def serve (c : Conn D) : Command Q → Conn D × Answer R E
  | .statement q =>
    match c.working with
    | some w =>
      match e.apply q w with
      | .ok (w', r) => (⟨c.durable, some w'⟩, .ok (some r))
      | .error x => (c, .error x)
    | none =>
      match e.apply q c.durable with
      | .ok (d, r) =>
        match e.commitError d with
        | none => (⟨d, none⟩, .ok (some r))
        | some x => (c, .error x)
      | .error x => (c, .error x)
  | .begin =>
    match c.working with
    | some _ => (c, .error e.nested)
    | none => (⟨c.durable, some c.durable⟩, .ok none)
  | .commit =>
    match c.working with
    | some w => e.commit c w
    | none => (c, .error e.inactive)
  | .rollback =>
    match c.working with
    | some _ => (⟨c.durable, none⟩, .ok none)
    | none => (c, .error e.inactive)
  | .commitIfOpen =>
    match c.working with
    | some w => e.commit c w
    | none => (c, .ok none)

variable {e}

theorem serve_idle_statement (q : Q) (d : D) :
    ∃ d' a, e.serve ⟨d, none⟩ (.statement q) = (⟨d', none⟩, a) ∧ ∀ x, a = .error x → d' = d := by
  cases hq : e.apply q d with
  | error x => exact ⟨d, .error x, by simp [serve, hq], fun _ _ => rfl⟩
  | ok r =>
    obtain ⟨d', r⟩ := r
    cases hc : e.commitError d' with
    | none => exact ⟨d', .ok (some r), by simp [serve, hq, hc], fun _ h => nomatch h⟩
    | some x => exact ⟨d, .error x, by simp [serve, hq, hc], fun _ _ => rfl⟩

end Engine

/-! ## Well-behaved calls -/

section Calls
variable {Out : Type} (e : Engine D Q R E) (Failed : Out → Prop)

abbrev Code (Q R E Out : Type) := Proc (Command Q) (Answer R E) Out

/-- What is left of the call does nothing to a connection without a transaction. -/
def Settled (o : Out) : Code Q R E Out → Prop
  | .ret o' => o' = o
  | .call c k => ∀ d, ∃ a, e.serve ⟨d, none⟩ c = (⟨d, none⟩, a) ∧ Settled o (k a)

/-- The call is inside its transaction. -/
def Within : Code Q R E Out → Prop
  | .ret _ => False
  | .call c k => c ≠ .begin ∧ ∀ d w, match e.serve ⟨d, some w⟩ c with
    | (⟨_, some _⟩, a) => Within (k a)
    | (⟨d', none⟩, a) => ∃ o, Settled e o (k a) ∧ (Failed o → d' = d)

/-- The whole code of a call. -/
def Guest : Code Q R E Out → Prop
  | .ret _ => True
  | .call (.statement _) k => ∀ a, ∃ o, Settled e o (k a) ∧ (Failed o → ∃ x, a = .error x)
  | .call .begin k => (∀ x, ∃ o, k (.error x) = .ret o ∧ Failed o) ∧ Within e Failed (k (.ok none))
  | .call _ _ => False

variable {e Failed}

theorem Settled.exec {o : Out} {p : Code Q R E Out} (h : Settled e o p) (d : D) :
    Proc.exec e.serve p ⟨d, none⟩ = (⟨d, none⟩, o) := by
  induction p with
  | ret o' => exact Prod.ext rfl h
  | call c k ih =>
    obtain ⟨a, hserve, hrest⟩ := h d
    rw [Proc.exec_call, hserve]
    exact ih a hrest

theorem Settled.not_begin {o : Out} {k : Answer R E → Code Q R E Out} (h : Settled e o (.call .begin k)) (d : D) :
    False := by
  obtain ⟨a, hserve, _⟩ := h d
  cases congrArg (fun x => x.1.working) hserve

/-- A transaction that stays open has not touched the committed database. -/
theorem Engine.serve_stays_open {c : Command Q} {d w w' : D} (h : (e.serve ⟨d, some w⟩ c).1.working = some w') :
    (e.serve ⟨d, some w⟩ c).1.durable = d := by
  have hcommit : (e.commit (⟨d, some w⟩ : Conn D) w).1.working = some w' →
      (e.commit (⟨d, some w⟩ : Conn D) w).1.durable = d := by
    rw [commit]
    cases e.commitError w with
    | none => exact fun h => nomatch h
    | some x => exact fun _ => rfl
  cases c with
  | statement q => cases hq : e.apply q w <;> simp [serve, hq]
  | begin => rfl
  | commit => exact hcommit h
  | rollback => rfl
  | commitIfOpen => exact hcommit h

end Calls

/-! ## Calls sharing the connection -/

section Shared
variable {Op Out : Type} (e : Engine D Q R E) (prog : Op → Code Q R E Out) (Failed : Out → Prop)

abbrev ConnPool (D Op Q R E Out : Type) := Pool (Conn D) Op (Command Q) (Answer R E) Out

def system : System (Conn D) Empty Op (Command Q) (Answer R E) Out where
  serve := e.serve
  env := fun _ x => nomatch x
  code := fun _ op => prog op

/-- The calls, and the one that has begun the open transaction. -/
structure Shared (D Op Q R E Out : Type) where
  pool : ConnPool D Op Q R E Out
  owner : Option Nat

def stepper : PoolAction Empty Op → Option Nat
  | .step i => some i
  | _ => none

def Shared.step (s : Shared D Op Q R E Out) (a : PoolAction Empty Op) : Shared D Op Q R E Out where
  pool := (system e prog).step s.pool a
  owner :=
    match ((system e prog).step s.pool a).server.working, s.pool.server.working with
    | none, _ => none
    | some _, some _ => s.owner
    | some _, none => stepper a

def Shared.start (d : D) : Shared D Op Q R E Out := ⟨Pool.init ⟨d, none⟩, none⟩

/-- Inside a transaction, nobody but its owner sends more than a `begin`. -/
def Undisturbed (s : Shared D Op Q R E Out) : PoolAction Empty Op → Prop
  | .step i => ∀ c cmd k, s.pool.calls i = some c → c.proc = .call cmd k →
      s.pool.server.working = none ∨ s.owner = some i ∨ cmd = .begin
  | _ => True

/-- One call by itself. -/
def serial (d : D) (op : Op) : D × Out :=
  ((Proc.exec e.serve (prog op) ⟨d, none⟩).1.durable, (Proc.exec e.serve (prog op) ⟨d, none⟩).2)

/-- Where a call is that is not inside the transaction. -/
inductive Place (done : List (Nat × Out)) (i : Nat) (c : Call Op (Command Q) (Answer R E) Out) : Prop where
  | waiting (hi : i ∉ done.map Prod.fst) (hc : c.proc = prog c.op) (hout : c.proc.output = none)
  | done (o : Out) (hi : (i, o) ∈ done) (hs : Settled e o c.proc) (hf : ¬ Failed o)
  | failed (o : Out) (hi : i ∉ done.map Prod.fst) (hs : Settled e o c.proc) (hf : Failed o)

/-- The call that owns the open transaction: the rest of it ends as the whole would alone. -/
def Holds (s : Shared D Op Q R E Out) (done : List (Nat × Out)) (i : Nat) : Prop :=
  ∃ c w, s.pool.calls i = some c ∧ s.pool.server.working = some w ∧ i ∉ done.map Prod.fst ∧
    Within e Failed c.proc ∧
      Proc.exec e.serve c.proc s.pool.server = Proc.exec e.serve (prog c.op) ⟨s.pool.server.durable, none⟩

structure Serializing (d₀ : D) (s : Shared D Op Q R E Out) (done : List (Nat × Out)) : Prop where
  nodup : (done.map Prod.fst).Nodup
  invoked : ∀ i, (s.pool.calls i).isSome ↔ i < s.pool.next
  known : ∀ x ∈ done, x.1 < s.pool.next
  trace : replay (serial e prog) d₀ (done.filterMap fun x => s.pool.opOf x.1) =
    (s.pool.server.durable, done.map Prod.snd)
  place : ∀ i c, s.pool.calls i = some c → s.owner = some i ∨ Place e prog Failed done i c
  held : ∀ i, s.owner = some i → Holds e prog Failed s done i

variable {e prog Failed}

theorem serializing_start (d : D) : Serializing e prog Failed d (Shared.start d : Shared D Op Q R E Out) [] where
  nodup := List.nodup_nil
  invoked := by simp [Shared.start, Pool.init]
  known := fun _ h => nomatch h
  trace := rfl
  place := fun _ _ h => nomatch h
  held := fun _ h => nomatch h

section Resume
variable {d₀ : D} {s : Shared D Op Q R E Out} {done : List (Nat × Out)} {i : Nat}
  {c : Call Op (Command Q) (Answer R E) Out} {proc : Code Q R E Out}

theorem Place.of_append {j : Nat} {c : Call Op (Command Q) (Answer R E) Out} {o : Out} (hj : j ≠ i)
    (h : Place e prog Failed done j c) : Place e prog Failed (done ++ [(i, o)]) j c := by
  have hmem : j ∉ done.map Prod.fst → j ∉ (done ++ [(i, o)]).map Prod.fst := by
    intro hn hm
    rw [List.map_append, List.mem_append] at hm
    rcases hm with hm | hm
    · exact hn hm
    · exact hj (List.mem_singleton.mp hm)
  cases h with
  | waiting hi hc hout => exact .waiting (hmem hi) hc hout
  | done o' hi hs hf => exact .done o' (List.mem_append_left _ hi) hs hf
  | failed o' hi hs hf => exact .failed o' (hmem hi) hs hf

theorem nobody_else {j : Nat} (ho : s.owner = none ∨ s.owner = some i) (hj : j ≠ i) : s.owner ≠ some j := by
  rintro h
  rcases ho with ho | ho
  · rw [ho] at h
    cases h
  · rw [ho] at h
    exact hj (Option.some.inj h).symm

/-- A command that leaves the connection as it was. -/
theorem Serializing.keep (h : Serializing e prog Failed d₀ s done) (hi : s.pool.calls i = some c)
    (hne : s.owner ≠ some i) (hp : Place e prog Failed done i { c with proc := proc }) :
    Serializing e prog Failed d₀ ⟨s.pool.resume s.pool.server i c proc, s.owner⟩ done where
  nodup := h.nodup
  invoked := Pool.invoked_resume hi h.invoked
  known := h.known
  trace := by
    rw [Pool.opOf_resume hi]
    exact h.trace
  place := by
    intro j c' hj
    rcases Pool.calls_resume_cases hj with ⟨rfl, rfl⟩ | ⟨_, hj⟩
    · exact Or.inr hp
    · exact h.place j c' hj
  held := by
    intro j hj
    obtain ⟨c', w, hc', hw, hnew, hwithin, hexec⟩ := h.held j hj
    have hji : j ≠ i := fun heq => hne (heq ▸ hj)
    exact ⟨c', w, (Pool.calls_resume_of_ne hji).trans hc', hw, hnew, hwithin, hexec⟩

/-- A command after which the call is inside its transaction. -/
theorem Serializing.hold (h : Serializing e prog Failed d₀ s done) (hi : s.pool.calls i = some c)
    (hnew : i ∉ done.map Prod.fst) (ho : s.owner = none ∨ s.owner = some i) {w : D}
    (hwithin : Within e Failed proc)
    (hexec : Proc.exec e.serve proc ⟨s.pool.server.durable, some w⟩ =
      Proc.exec e.serve (prog c.op) ⟨s.pool.server.durable, none⟩) :
    Serializing e prog Failed d₀ ⟨s.pool.resume ⟨s.pool.server.durable, some w⟩ i c proc, some i⟩ done where
  nodup := h.nodup
  invoked := Pool.invoked_resume hi h.invoked
  known := h.known
  trace := by
    rw [Pool.opOf_resume hi]
    exact h.trace
  place := by
    intro j c' hj
    rcases Pool.calls_resume_cases hj with ⟨hji, _⟩ | ⟨hji, hj⟩
    · exact Or.inl (congrArg some hji.symm)
    · exact Or.inr ((h.place j c' hj).resolve_left (nobody_else ho hji))
  held := by
    intro j hj
    cases hj
    exact ⟨_, w, Pool.calls_resume_self, rfl, hnew, hwithin, hexec⟩

/-- The command with which a call ends its transaction, or is done without one. -/
theorem Serializing.finish (h : Serializing e prog Failed d₀ s done) (hi : s.pool.calls i = some c)
    (hnew : i ∉ done.map Prod.fst) (ho : s.owner = none ∨ s.owner = some i) {d : D} {o : Out}
    (hserial : serial e prog s.pool.server.durable c.op = (d, o)) (hs : Settled e o proc)
    (hf : Failed o → d = s.pool.server.durable) :
    ∃ done', Serializing e prog Failed d₀ ⟨s.pool.resume ⟨d, none⟩ i c proc, none⟩ done' := by
  have hplace : ∀ j c', j ≠ i → s.pool.calls j = some c' → Place e prog Failed done j c' := by
    intro j c' hji hj
    exact (h.place j c' hj).resolve_left (nobody_else ho hji)
  by_cases hfail : Failed o
  · refine ⟨done, h.nodup, Pool.invoked_resume hi h.invoked, h.known, ?_, ?_, fun _ hj => nomatch hj⟩
    · rw [Pool.opOf_resume hi, h.trace, hf hfail]
      rfl
    · intro j c' hj
      rcases Pool.calls_resume_cases hj with ⟨rfl, rfl⟩ | ⟨hji, hj⟩
      · exact Or.inr (.failed o hnew hs hfail)
      · exact Or.inr (hplace j c' hji hj)
  · refine ⟨done ++ [(i, o)], ?_, Pool.invoked_resume hi h.invoked, ?_, ?_, ?_, fun _ hj => nomatch hj⟩
    · rw [List.map_append, List.map_singleton, List.nodup_append]
      refine ⟨h.nodup, List.nodup_singleton i, ?_⟩
      intro a ha b hb
      rintro rfl
      rw [List.mem_singleton.mp hb] at ha
      exact hnew ha
    · intro x hx
      rcases List.mem_append.mp hx with hx | hx
      · exact h.known x hx
      · rw [List.mem_singleton.mp hx]
        exact (h.invoked i).mp (by rw [hi]; rfl)
    · have hop : s.pool.opOf i = some c.op := by rw [Pool.opOf, hi]; rfl
      have hone : [(i, o)].filterMap (fun x => s.pool.opOf x.1) = [c.op] := by
        simp [hop]
      rw [Pool.opOf_resume hi, List.filterMap_append, hone, replay_concat h.trace, hserial, List.map_append,
        List.map_singleton]
      rfl
    · intro j c' hj
      rcases Pool.calls_resume_cases hj with ⟨rfl, rfl⟩ | ⟨hji, hj⟩
      · exact Or.inr (.done o (List.mem_append_right _ (List.mem_singleton_self _)) hs hfail)
      · exact Or.inr ((hplace j c' hji hj).of_append hji)

end Resume

section Steps
variable {d₀ : D} {s : Shared D Op Q R E Out} {done : List (Nat × Out)}

theorem Shared.step_idle (a : PoolAction Empty Op) (hp : (system e prog).step s.pool a = s.pool)
    (ho : s.pool.server.working = none → s.owner = none) : s.step e prog a = s := by
  have howner : (s.step e prog a).owner = s.owner := by
    rw [Shared.step]
    dsimp only
    rw [hp]
    cases hw : s.pool.server.working with
    | none => exact (ho hw).symm
    | some w => rfl
  calc
    s.step e prog a = ⟨(s.step e prog a).pool, (s.step e prog a).owner⟩ := rfl
    _ = ⟨s.pool, s.owner⟩ := congrArg₂ Shared.mk hp howner

theorem Serializing.no_owner (h : Serializing e prog Failed d₀ s done) (hw : s.pool.server.working = none) :
    s.owner = none := by
  cases ho : s.owner with
  | none => rfl
  | some i =>
    obtain ⟨_, w, _, hw', _⟩ := h.held i ho
    rw [hw] at hw'
    cases hw'

theorem Serializing.owner_invoke (h : Serializing e prog Failed d₀ s done) (op : Op) :
    (s.step e prog (.invoke op)).owner = s.owner := by
  cases hw : s.pool.server.working with
  | none => simp [Shared.step, System.step, hw, h.no_owner hw]
  | some w => simp [Shared.step, System.step, hw]

theorem Serializing.next_not_mem (h : Serializing e prog Failed d₀ s done) : s.pool.next ∉ done.map Prod.fst := by
  intro hm
  obtain ⟨x, hx, heq⟩ := List.mem_map.mp hm
  exact Nat.lt_irrefl _ (heq ▸ h.known x hx)

theorem Serializing.trace_invoke (h : Serializing e prog Failed d₀ s done) (op : Op) :
    replay (serial e prog) d₀ (done.filterMap fun x => (s.step e prog (.invoke op)).pool.opOf x.1) =
      (s.pool.server.durable, done.map Prod.snd) := by
  rw [← h.trace]
  congr 1
  apply List.filterMap_congr
  intro x hx
  have hne : x.1 ≠ s.pool.next := fun heq => Nat.lt_irrefl _ (heq ▸ h.known x hx)
  rw [Pool.opOf, Shared.step, System.calls_invoke_of_ne _ hne]
  rfl

/-- The new call, with `extra` of it done at once. -/
theorem Serializing.invoke_of (h : Serializing e prog Failed d₀ s done) (op : Op) {extra : List (Nat × Out)}
    (hextra : ∀ x ∈ extra, x.1 = s.pool.next) (hnodup : (extra.map Prod.fst).Nodup)
    (htrace : replay (serial e prog) d₀
      ((done ++ extra).filterMap fun x => (s.step e prog (.invoke op)).pool.opOf x.1) =
        (s.pool.server.durable, (done ++ extra).map Prod.snd))
    (hplace : ∀ c, (s.step e prog (.invoke op)).pool.calls s.pool.next = some c →
      Place e prog Failed (done ++ extra) s.pool.next c) :
    Serializing e prog Failed d₀ (s.step e prog (.invoke op)) (done ++ extra) := by
  have hnew := h.next_not_mem
  have hmem : ∀ j, j ≠ s.pool.next → j ∉ done.map Prod.fst → j ∉ (done ++ extra).map Prod.fst := by
    intro j hj hn hm
    rw [List.map_append, List.mem_append] at hm
    rcases hm with hm | hm
    · exact hn hm
    · obtain ⟨x, hx, rfl⟩ := List.mem_map.mp hm
      exact hj (hextra x hx)
  refine ⟨?_, ?_, ?_, htrace, ?_, ?_⟩
  · rw [List.map_append, List.nodup_append]
    refine ⟨h.nodup, hnodup, ?_⟩
    intro a ha b hb
    rintro rfl
    obtain ⟨x, hx, rfl⟩ := List.mem_map.mp hb
    rw [hextra x hx] at ha
    exact hnew ha
  · intro j
    by_cases hj : j = s.pool.next
    · simp [Shared.step, System.step, hj]
    · rw [Shared.step, System.calls_invoke_of_ne _ hj, h.invoked j]
      show j < s.pool.next ↔ j < s.pool.next + 1
      omega
  · intro x hx
    rcases List.mem_append.mp hx with hx | hx
    · exact Nat.lt_succ_of_lt (h.known x hx)
    · rw [hextra x hx]
      exact Nat.lt_succ_self _
  · intro j c hj
    rw [h.owner_invoke]
    by_cases hjn : j = s.pool.next
    · subst hjn
      exact Or.inr (hplace c hj)
    · rw [Shared.step, System.calls_invoke_of_ne _ hjn] at hj
      refine (h.place j c hj).imp_right ?_
      intro hp
      cases hp with
      | waiting hi hc hout => exact .waiting (hmem j hjn hi) hc hout
      | done o hi hs hf => exact .done o (List.mem_append_left _ hi) hs hf
      | failed o hi hs hf => exact .failed o (hmem j hjn hi) hs hf
  · intro j hj
    rw [h.owner_invoke] at hj
    obtain ⟨c, w, hc, hw, hni, hrest⟩ := h.held j hj
    have hne : j ≠ s.pool.next := by
      rintro rfl
      have hlt := (h.invoked s.pool.next).mp (by rw [hc]; rfl)
      exact Nat.lt_irrefl _ hlt
    exact ⟨c, w, (System.calls_invoke_of_ne _ hne).trans hc, hw, hmem j hne hni, hrest⟩

theorem Serializing.invoke (h : Serializing e prog Failed d₀ s done) (op : Op) :
    ∃ done', Serializing e prog Failed d₀ (s.step e prog (.invoke op)) done' := by
  have hnew := h.next_not_mem
  have hcall : ∀ c, (s.step e prog (.invoke op)).pool.calls s.pool.next = some c → c.op = op ∧ c.proc = prog op := by
    intro c hc
    rcases System.calls_invoke_cases _ hc with ⟨_, rfl⟩ | ⟨hne, _⟩
    · exact ⟨rfl, rfl⟩
    · exact absurd rfl hne
  have hplain : (∀ c, (s.step e prog (.invoke op)).pool.calls s.pool.next = some c →
      Place e prog Failed done s.pool.next c) →
        ∃ done', Serializing e prog Failed d₀ (s.step e prog (.invoke op)) done' := by
    intro hplace
    have htrace := h.trace_invoke op
    rw [← List.append_nil done] at htrace hplace
    have hnone : ∀ x ∈ ([] : List (Nat × Out)), x.1 = s.pool.next := fun _ hx => nomatch hx
    exact ⟨_, h.invoke_of op hnone List.nodup_nil htrace hplace⟩
  cases hp : prog op with
  | call cmd k =>
    refine hplain ?_
    intro c hc
    obtain ⟨hop, hproc⟩ := hcall c hc
    exact .waiting hnew (by rw [hproc, hop]) (by rw [hproc, hp]; rfl)
  | ret o =>
    by_cases hfail : Failed o
    · refine hplain ?_
      intro c hc
      exact .failed o hnew (by rw [(hcall c hc).2, hp]; rfl) hfail
    · refine ⟨done ++ [(s.pool.next, o)], h.invoke_of op ?_ (List.nodup_singleton _) ?_ ?_⟩
      · intro x hx
        rw [List.mem_singleton.mp hx]
      · have hop : (s.step e prog (.invoke op)).pool.opOf s.pool.next = some op := by
          simp [Shared.step, System.step, Pool.opOf]
        have hserial : serial e prog s.pool.server.durable op = (s.pool.server.durable, o) := by rw [serial, hp]; rfl
        have hone : [(s.pool.next, o)].filterMap (fun x => (s.step e prog (.invoke op)).pool.opOf x.1) = [op] := by
          simp [hop]
        rw [List.filterMap_append, hone, replay_concat (h.trace_invoke op), hserial, List.map_append, List.map_singleton]
      · intro c hc
        exact .done o (List.mem_append_right _ (List.mem_singleton_self _)) (by rw [(hcall c hc).2, hp]; rfl) hfail

section Served
variable {i : Nat} {c : Call Op (Command Q) (Answer R E) Out} {cmd : Command Q}
  {k : Answer R E → Code Q R E Out}

/-- The next command of a call: the connection after it, and who is inside a transaction then. -/
theorem Shared.step_served {x : Conn D} {a : Answer R E} (hc : s.pool.calls i = some c)
    (hp : c.proc = .call cmd k) (hserve : e.serve s.pool.server cmd = (x, a)) :
    s.step e prog (.step i) = ⟨s.pool.resume x i c (k a),
      match x.working, s.pool.server.working with
      | none, _ => none
      | some _, some _ => s.owner
      | some _, none => some i⟩ := by
  have hpool : (system e prog).step s.pool (.step i) = s.pool.resume x i c (k a) := by
    rw [(system e prog).step_call hc hp]
    show s.pool.resume (e.serve s.pool.server cmd).1 i c (k (e.serve s.pool.server cmd).2) = _
    rw [hserve]
  rw [Shared.step, hpool]
  rfl

/-- The owner of the open transaction goes on. -/
theorem Serializing.step_owner (h : Serializing e prog Failed d₀ s done) (ho : s.owner = some i) :
    ∃ done', Serializing e prog Failed d₀ (s.step e prog (.step i)) done' := by
  obtain ⟨c, w, hc, hw, hnew, hwithin, hexec⟩ := h.held i ho
  cases hp : c.proc with
  | ret o =>
    rw [hp] at hwithin
    exact hwithin.elim
  | call cmd k =>
    have hserver : s.pool.server = ⟨s.pool.server.durable, some w⟩ := by rw [← hw]
    rw [hp] at hwithin
    have hafter := hwithin.2 s.pool.server.durable w
    rw [← hserver] at hafter
    have hrun := Proc.exec_advance e.serve s.pool.server c.proc
    rw [hp] at hrun
    rw [hp] at hexec
    have hrest : Proc.exec e.serve (k (e.serve s.pool.server cmd).2) (e.serve s.pool.server cmd).1 =
        Proc.exec e.serve (prog c.op) ⟨s.pool.server.durable, none⟩ := hrun.trans hexec
    cases hres : e.serve s.pool.server cmd with
    | mk x a =>
      obtain ⟨d, work⟩ := x
      rw [hres] at hafter hrest
      rw [Shared.step_served hc hp hres]
      cases work with
      | some w' =>
        have hd : d = s.pool.server.durable := by
          have hopen : (e.serve ⟨s.pool.server.durable, some w⟩ cmd).1.working = some w' := by rw [← hserver, hres]
          have hstay := Engine.serve_stays_open hopen
          rw [← hserver, hres] at hstay
          exact hstay
        subst hd
        simp only [hw, ho]
        exact ⟨done, h.hold hc hnew (Or.inr ho) hafter hrest⟩
      | none =>
        obtain ⟨o, hsettled, hf⟩ := hafter
        refine h.finish hc hnew (Or.inr ho) ?_ hsettled hf
        rw [serial, ← hrest, hsettled.exec]

/-- A `begin` into the open transaction of another call, which the connection refuses. -/
theorem Serializing.step_nested (h : Serializing e prog Failed d₀ s done)
    (hguest : ∀ op, Guest e Failed (prog op)) (hc : s.pool.calls i = some c) (hp : c.proc = .call .begin k)
    (ho : s.owner ≠ some i) {w : D} (hw : s.pool.server.working = some w) :
    ∃ done', Serializing e prog Failed d₀ (s.step e prog (.step i)) done' := by
  have hserve : e.serve s.pool.server .begin = (s.pool.server, .error e.nested) := by rw [Engine.serve, hw]
  rw [Shared.step_served hc hp hserve]
  simp only [hw]
  refine ⟨done, h.keep hc ho ?_⟩
  cases (h.place i c hc).resolve_left ho with
  | waiting hi hcode hout =>
    have hg := hguest c.op
    rw [← hcode, hp] at hg
    obtain ⟨o, hret, hfail⟩ := hg.1 e.nested
    exact .failed o hi (by rw [hret]; rfl) hfail
  | done o hi hs hf =>
    rw [hp] at hs
    exact (hs.not_begin w).elim
  | failed o hi hs hf =>
    rw [hp] at hs
    exact (hs.not_begin w).elim

/-- A settled call changes nothing. -/
theorem Serializing.step_settled (h : Serializing e prog Failed d₀ s done) (hc : s.pool.calls i = some c)
    (hp : c.proc = .call cmd k) (ho : s.owner ≠ some i) (hw : s.pool.server.working = none) {o : Out}
    (hs : Settled e o c.proc) (hplace : ∀ p, Settled e o p → Place e prog Failed done i { c with proc := p }) :
    ∃ done', Serializing e prog Failed d₀ (s.step e prog (.step i)) done' := by
  have hserver : s.pool.server = ⟨s.pool.server.durable, none⟩ := by rw [← hw]
  rw [hp] at hs
  obtain ⟨a, hserve, hrest⟩ := hs s.pool.server.durable
  rw [← hserver] at hserve
  rw [Shared.step_served hc hp hserve]
  simp only [hw]
  have hkept := h.keep hc ho (hplace (k a) hrest)
  rw [h.no_owner hw] at hkept
  exact ⟨done, hkept⟩

/-- The first command of a call, while no transaction is open. -/
theorem Serializing.step_first (h : Serializing e prog Failed d₀ s done)
    (hguest : ∀ op, Guest e Failed (prog op)) (hc : s.pool.calls i = some c) (hp : c.proc = .call cmd k)
    (hw : s.pool.server.working = none) (hi : i ∉ done.map Prod.fst) (hcode : c.proc = prog c.op) :
    ∃ done', Serializing e prog Failed d₀ (s.step e prog (.step i)) done' := by
  have hserver : s.pool.server = ⟨s.pool.server.durable, none⟩ := by rw [← hw]
  have hnone := h.no_owner hw
  have hcall : prog c.op = .call cmd k := hcode.symm.trans hp
  have hg := hguest c.op
  rw [hcall] at hg
  cases cmd with
  | statement q =>
    obtain ⟨d, a, hserve, herr⟩ := Engine.serve_idle_statement (e := e) q s.pool.server.durable
    obtain ⟨o, hs, hf⟩ := hg a
    have hserve' := hserve
    rw [← hserver] at hserve'
    rw [Shared.step_served hc hp hserve']
    refine h.finish hc hi (Or.inl hnone) ?_ hs ?_
    · rw [serial, hcall, Proc.exec_call, hserve, hs.exec]
    · intro hfail
      obtain ⟨x, hx⟩ := hf hfail
      exact herr x hx
  | begin =>
    have hserve : e.serve s.pool.server .begin =
        (⟨s.pool.server.durable, some s.pool.server.durable⟩, .ok none) := by
      rw [hserver]
      rfl
    rw [Shared.step_served hc hp hserve]
    simp only [hw]
    refine ⟨done, h.hold hc hi (Or.inl hnone) hg.2 ?_⟩
    rw [hcall]
    rfl
  | commit => exact hg.elim
  | rollback => exact hg.elim
  | commitIfOpen => exact hg.elim

/-- Another call, while no transaction is open or with a `begin` into the open one. -/
theorem Serializing.step_other (h : Serializing e prog Failed d₀ s done) (hguest : ∀ op, Guest e Failed (prog op))
    (hc : s.pool.calls i = some c) (hp : c.proc = .call cmd k) (ho : s.owner ≠ some i)
    (hclear : s.pool.server.working = none ∨ cmd = .begin) :
    ∃ done', Serializing e prog Failed d₀ (s.step e prog (.step i)) done' := by
  cases hw : s.pool.server.working with
  | some w =>
    rcases hclear with hw' | rfl
    · rw [hw] at hw'
      cases hw'
    · exact h.step_nested hguest hc hp ho hw
  | none =>
    cases (h.place i c hc).resolve_left ho with
    | waiting hi hcode hout => exact h.step_first hguest hc hp hw hi hcode
    | done o hi hs hf => exact h.step_settled hc hp ho hw hs fun p hp => .done o hi hp hf
    | failed o hi hs hf => exact h.step_settled hc hp ho hw hs fun p hp => .failed o hi hp hf

end Served

theorem Serializing.step (h : Serializing e prog Failed d₀ s done) (hguest : ∀ op, Guest e Failed (prog op))
    {a : PoolAction Empty Op} (ha : Undisturbed s a) :
    ∃ done', Serializing e prog Failed d₀ (s.step e prog a) done' := by
  cases a with
  | env x => exact nomatch x
  | invoke op => exact h.invoke op
  | step i =>
    rcases (system e prog).step_cases s.pool i with ⟨hidle, _⟩ | ⟨c, cmd, k, hi, hp, _⟩
    · rw [Shared.step_idle _ hidle h.no_owner]
      exact ⟨done, h⟩
    by_cases ho : s.owner = some i
    · exact h.step_owner ho
    · refine h.step_other hguest hi hp ho ?_
      rcases ha c cmd k hi hp with hw | hown | hbegin
      · exact Or.inl hw
      · exact absurd hown ho
      · exact Or.inr hbegin

/-- Every run of calls that do not disturb a transaction is serialized. -/
theorem serializing_run (hguest : ∀ op, Guest e Failed (prog op)) {acts : List (PoolAction Empty Op)}
    (h : Serializing e prog Failed d₀ s done) (hg : Guarded (Shared.step e prog) Undisturbed s acts) :
    ∃ done', Serializing e prog Failed d₀ (run (Shared.step e prog) s acts) done' := by
  induction acts generalizing s done with
  | nil => exact ⟨done, h⟩
  | cons a acts ih =>
    obtain ⟨done', h'⟩ := h.step hguest hg.1
    exact ih h' hg.2

/-- The committed database is that of the successful calls, one after the other; a call that
reported success is among them with its answer, a call that reported failure is not. -/
structure Serialized (prog : Op → Code Q R E Out) (Failed : Out → Prop) (d₀ : D)
    (p : ConnPool D Op Q R E Out) (done : List (Nat × Out)) : Prop where
  nodup : (done.map Prod.fst).Nodup
  trace : replay (serial e prog) d₀ (done.filterMap fun x => p.opOf x.1) = (p.server.durable, done.map Prod.snd)
  success : ∀ x ∈ done, ¬ Failed x.2 ∧ ∀ o, p.outOf x.1 = some o → o = x.2
  reported : ∀ i o, p.outOf i = some o → (i ∈ done.map Prod.fst ↔ ¬ Failed o)

theorem Serializing.mem_done (h : Serializing e prog Failed d₀ s done) {i : Nat} {o : Out} (hi : (i, o) ∈ done)
    {c : Call Op (Command Q) (Answer R E) Out} (hc : s.pool.calls i = some c) : Settled e o c.proc ∧ ¬ Failed o := by
  have hmem : i ∈ done.map Prod.fst := List.mem_map_of_mem hi
  rcases h.place i c hc with ho | hp
  · obtain ⟨_, _, _, _, hnew, _⟩ := h.held i ho
    exact absurd hmem hnew
  · cases hp with
    | waiting hi' _ _ => exact absurd hmem hi'
    | failed _ hi' _ _ => exact absurd hmem hi'
    | done o' hi' hs hf =>
      have heq : o = o' := congrArg Prod.snd (List.inj_on_of_nodup_map h.nodup hi hi' rfl)
      rw [heq]
      exact ⟨hs, hf⟩

theorem Serializing.serialized (h : Serializing e prog Failed d₀ s done) :
    Serialized (e := e) prog Failed d₀ s.pool done where
  nodup := h.nodup
  trace := h.trace
  success := by
    rintro ⟨i, o⟩ hx
    obtain ⟨c, hc⟩ := Option.isSome_iff_exists.mp ((h.invoked i).mpr (h.known _ hx))
    obtain ⟨hs, hf⟩ := h.mem_done hx hc
    refine ⟨hf, ?_⟩
    intro o' ho'
    rw [Pool.outOf, hc] at ho'
    cases hp : c.proc with
    | ret o'' =>
      rw [hp] at hs
      rw [Option.bind_some, hp] at ho'
      exact (Option.some.inj ho').symm.trans hs
    | call cmd k =>
      rw [Option.bind_some, hp] at ho'
      cases ho'
  reported := by
    intro i o ho
    obtain ⟨c, hc, hout⟩ := Option.bind_eq_some_iff.mp ho
    cases hp : c.proc with
    | call cmd k =>
      rw [hp] at hout
      cases hout
    | ret o' =>
      have heq : o' = o := by
        rw [hp] at hout
        exact Option.some.inj hout
      subst heq
      rcases h.place i c hc with hown | hplace
      · obtain ⟨c', _, hc', _, _, hwithin, _⟩ := h.held i hown
        rw [hc] at hc'
        cases hc'
        rw [hp] at hwithin
        exact hwithin.elim
      · cases hplace with
        | waiting _ _ hnone =>
          rw [hnone] at hout
          cases hout
        | done o hi hs hf =>
          rw [hp] at hs
          have hoo : o' = o := hs
          exact ⟨fun _ => hoo ▸ hf, fun _ => List.mem_map_of_mem hi⟩
        | failed o hi hs hf =>
          rw [hp] at hs
          have hoo : o' = o := hs
          exact ⟨fun hm => absurd hm hi, fun hn => absurd (hoo ▸ hf) hn⟩

end Steps

end Shared

end Support.Transaction
