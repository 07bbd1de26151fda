import Mathlib.Data.List.Basic

/-!
# Runs of a state machine and of client processes

`run` folds a step function over a list of actions; `Guarded` says that every
action of the run met a condition on the state it was taken in. A `Proc` is a
piece of client code seen from a shared server: it either returns or sends one
atomic command and waits for the reply. `Proc.exec` runs one process to its end
(serial execution).
-/

namespace Support

set_option autoImplicit false

universe u v w

section Runs
variable {S : Type u} {A : Type v}

def run (step : S → A → S) (s : S) (as : List A) : S := as.foldl step s

@[simp] theorem run_nil (step : S → A → S) (s : S) : run step s [] = s := rfl

@[simp] theorem run_cons (step : S → A → S) (s : S) (a : A) (as : List A) :
    run step s (a :: as) = run step (step s a) as := rfl

theorem run_append (step : S → A → S) (s : S) (as bs : List A) :
    run step s (as ++ bs) = run step (run step s as) bs := by
  simp [run, List.foldl_append]

/-- Every action of the run meets `C` in the state it is taken in. -/
def Guarded (step : S → A → S) (C : S → A → Prop) : S → List A → Prop
  | _, [] => True
  | s, a :: as => C s a ∧ Guarded step C (step s a) as

theorem guarded_append {step : S → A → S} {C : S → A → Prop} {s : S} {as bs : List A} :
    Guarded step C s (as ++ bs) ↔ Guarded step C s as ∧ Guarded step C (run step s as) bs := by
  induction as generalizing s with
  | nil => simp [Guarded]
  | cons a as ih => simp [Guarded, ih, and_assoc]

theorem guarded_and {step : S → A → S} {C D : S → A → Prop} {s : S} {as : List A}
    (hc : Guarded step C s as) (hd : Guarded step D s as) : Guarded step (fun s a => C s a ∧ D s a) s as := by
  induction as generalizing s with
  | nil => trivial
  | cons a as ih => exact ⟨⟨hc.1, hd.1⟩, ih hc.2 hd.2⟩

/-- A property kept by every guarded step holds at the end of every guarded run. -/
theorem guarded_invariant {step : S → A → S} {C : S → A → Prop} (Inv : S → Prop)
    (keep : ∀ s a, C s a → Inv s → Inv (step s a)) {s : S} {as : List A}
    (hg : Guarded step C s as) (h0 : Inv s) : Inv (run step s as) := by
  induction as generalizing s with
  | nil => exact h0
  | cons a as ih => exact ih hg.2 (keep s a hg.1 h0)

theorem run_invariant {step : S → A → S} (Inv : S → Prop)
    (keep : ∀ s a, Inv s → Inv (step s a)) {s : S} (as : List A)
    (h0 : Inv s) : Inv (run step s as) := by
  induction as generalizing s with
  | nil => exact h0
  | cons a as ih => exact ih (keep s a h0)

/-- A run is guarded when each of its steps is, in the state that the steps before it lead to. -/
theorem guarded_iff {step : S → A → S} {C : S → A → Prop} {s : S} {as : List A} :
    Guarded step C s as ↔ ∀ pre a post, as = pre ++ a :: post → C (run step s pre) a := by
  constructor
  · rintro h pre a post rfl
    exact (guarded_append.mp h).2.1
  · intro h
    induction as generalizing s with
    | nil => trivial
    | cons a as ih =>
      refine ⟨h [] a as rfl, ih ?_⟩
      rintro pre b post rfl
      exact h (a :: pre) b post rfl

/-- If a step keeps an invariant exactly when it meets the condition, the invariant holds all along a run
exactly when the run is guarded. -/
theorem invariant_along_iff {step : S → A → S} {C : S → A → Prop} (Inv : S → Prop)
    (keep : ∀ s a, Inv s → (Inv (step s a) ↔ C s a)) {s : S} {as : List A} (h0 : Inv s) :
    (∀ pre, pre <+: as → Inv (run step s pre)) ↔ Guarded step C s as := by
  constructor
  · intro h
    induction as generalizing s with
    | nil => trivial
    | cons a as ih =>
      have hnext : Inv (step s a) := h [a] (List.prefix_append [a] as)
      refine ⟨(keep s a h0).mp hnext, ih hnext ?_⟩
      intro pre hpre
      exact h (a :: pre) (List.cons_prefix_cons.mpr ⟨rfl, hpre⟩)
  · rintro h pre ⟨post, rfl⟩
    exact guarded_invariant Inv (fun s a hc hs => (keep s a hs).mpr hc) (guarded_append.mp h).1 h0

/-- Two conditions that agree as long as an invariant holds, which the first one keeps, guard the same runs. -/
theorem guarded_congr {step : S → A → S} {C D : S → A → Prop} (Inv : S → Prop)
    (keep : ∀ s a, Inv s → C s a → Inv (step s a)) (same : ∀ s a, Inv s → (C s a ↔ D s a)) {s : S} {as : List A}
    (h0 : Inv s) : Guarded step C s as ↔ Guarded step D s as := by
  induction as generalizing s with
  | nil => exact Iff.rfl
  | cons a as ih =>
    constructor
    · rintro ⟨hc, hrest⟩
      exact ⟨(same s a h0).mp hc, (ih (keep s a h0 hc)).mp hrest⟩
    · rintro ⟨hd, hrest⟩
      have hc := (same s a h0).mpr hd
      exact ⟨hc, (ih (keep s a h0 hc)).mpr hrest⟩

/-- A run that is not guarded has a first step that is not. -/
theorem not_guarded_split {step : S → A → S} {C : S → A → Prop} {s : S} {as : List A}
    (h : ¬ Guarded step C s as) : ∃ pre a post, as = pre ++ a :: post ∧ ¬ C (run step s pre) a := by
  induction as generalizing s with
  | nil => exact absurd trivial h
  | cons a as ih =>
    by_cases ha : C s a
    · obtain ⟨pre, b, post, rfl, hb⟩ := ih (fun hg => h ⟨ha, hg⟩)
      exact ⟨a :: pre, b, post, rfl, hb⟩
    · exact ⟨[], a, as, rfl, ha⟩

end Runs

/-- Client code between two commands to the server. -/
inductive Proc (Cmd Reply Out : Type u) where
  | ret (o : Out)
  | call (c : Cmd) (k : Reply → Proc Cmd Reply Out)

namespace Proc
variable {S : Type v} {Cmd Reply Out : Type u}

/-- Serial execution: all commands of the process, with nothing in between. -/
def exec (serve : S → Cmd → S × Reply) : Proc Cmd Reply Out → S → S × Out
  | .ret o, s => (s, o)
  | .call c k, s => exec serve (k (serve s c).2) (serve s c).1

@[simp] theorem exec_ret (serve : S → Cmd → S × Reply) (o : Out) (s : S) :
    exec serve (.ret o : Proc Cmd Reply Out) s = (s, o) := rfl

@[simp] theorem exec_call (serve : S → Cmd → S × Reply) (c : Cmd)
    (k : Reply → Proc Cmd Reply Out) (s : S) :
    exec serve (.call c k) s = exec serve (k (serve s c).2) (serve s c).1 := rfl

/-- The next command of a process, if it has one. -/
def advance (serve : S → Cmd → S × Reply) (s : S) :
    Proc Cmd Reply Out → S × Proc Cmd Reply Out
  | .ret o => (s, .ret o)
  | .call c k => ((serve s c).1, k (serve s c).2)

theorem exec_advance (serve : S → Cmd → S × Reply) (s : S) (p : Proc Cmd Reply Out) :
    exec serve (p.advance serve s).2 (p.advance serve s).1 = exec serve p s := by
  cases p <;> rfl

def output : Proc Cmd Reply Out → Option Out
  | .ret o => some o
  | .call _ _ => none

/-- What the process returns if these are the replies to its commands, first to last. -/
def feed : Proc Cmd Reply Out → List Reply → Option Out
  | .ret o, [] => some o
  | .call _ k, r :: rs => feed (k r) rs
  | _, _ => none

theorem feed_ret {o o' : Out} {rs : List Reply} (h : (ret o : Proc Cmd Reply Out).feed rs = some o') :
    rs = [] ∧ o' = o := by
  cases rs with
  | nil => exact ⟨rfl, (Option.some.inj h).symm⟩
  | cons r rs => cases h

theorem feed_call {c : Cmd} {k : Reply → Proc Cmd Reply Out} {o : Out} {rs : List Reply}
    (h : (call c k).feed rs = some o) : ∃ r rest, rs = r :: rest ∧ (k r).feed rest = some o := by
  cases rs with
  | nil => cases h
  | cons r rest => exact ⟨r, rest, rfl, h⟩

def map {Out' : Type u} (f : Out → Out') : Proc Cmd Reply Out → Proc Cmd Reply Out'
  | .ret o => .ret (f o)
  | .call c k => .call c fun r => map f (k r)

@[simp] theorem map_ret {Out' : Type u} (f : Out → Out') (o : Out) :
    map f (.ret o : Proc Cmd Reply Out) = .ret (f o) := rfl

@[simp] theorem map_call {Out' : Type u} (f : Out → Out') (c : Cmd)
    (k : Reply → Proc Cmd Reply Out) : map f (.call c k) = .call c fun r => map f (k r) := rfl

/-- A local computation that may raise: on an exception the process returns it
without a further command. -/
def attempt {E X Y : Type u} (x : Except E X) (k : X → Proc Cmd Reply (Except E Y)) :
    Proc Cmd Reply (Except E Y) :=
  match x with
  | .ok a => k a
  | .error e => .ret (.error e)

@[simp] theorem attempt_ok {E X Y : Type u} (a : X) (k : X → Proc Cmd Reply (Except E Y)) :
    attempt (.ok a) k = k a := rfl

@[simp] theorem attempt_error {E X Y : Type u} (e : E) (k : X → Proc Cmd Reply (Except E Y)) :
    attempt (.error e) k = .ret (.error e) := rfl

end Proc

/-! ## Unwinding

Some actions of a state machine are hidden from an observer. If a relation on
states is kept when one side takes a hidden action, and kept with equal outputs
when both sides take a visible one, then the observer cannot tell a run from the
run without its hidden actions.
-/

section Unwinding
variable {S : Type u} {A : Type v} {O : Type w} (step : S → A → S) (output : S → A → O)
  (hidden : A → Bool)

/-- What the observer sees of a run. -/
def observe : S → List A → List O
  | _, [] => []
  | s, a :: as => if hidden a then observe (step s a) as else output s a :: observe (step s a) as

variable {step output hidden}

theorem observe_filter {R : S → S → Prop} {P : A → Prop}
    (respects : ∀ s s' a, hidden a = true → P a → R s s' → R (step s a) s')
    (consistent : ∀ s s' a, hidden a = false → R s s' →
      output s a = output s' a ∧ R (step s a) (step s' a))
    {as : List A} (hP : ∀ a ∈ as, P a) {s s' : S} (hR : R s s') :
    observe step output hidden s as =
      observe step output hidden s' (as.filter fun a => !hidden a) := by
  induction as generalizing s s' with
  | nil => rfl
  | cons a as ih =>
    have hP' : ∀ x ∈ as, P x := fun x hx => hP x (List.mem_cons_of_mem a hx)
    cases ha : hidden a with
    | true =>
      have hR' := respects s s' a ha (hP a List.mem_cons_self) hR
      simp only [observe, ha, if_true, List.filter_cons, Bool.not_true, Bool.false_eq_true, if_false]
      exact ih hP' hR'
    | false =>
      obtain ⟨ho, hR'⟩ := consistent s s' a ha hR
      simp only [observe, ha, Bool.false_eq_true, if_false, List.filter_cons, Bool.not_false, if_true, ho]
      exact congrArg _ (ih hP' hR')

/-- The states the two runs end in are related too. -/
theorem run_filter {R : S → S → Prop} (respects : ∀ s s' a, hidden a = true → R s s' → R (step s a) s')
    (consistent : ∀ s s' a, hidden a = false → R s s' → R (step s a) (step s' a)) (as : List A) {s s' : S}
    (hR : R s s') : R (run step s as) (run step s' (as.filter fun a => !hidden a)) := by
  induction as generalizing s s' with
  | nil => exact hR
  | cons a as ih =>
    cases ha : hidden a with
    | true =>
      rw [List.filter_cons_of_neg (by simp [ha])]
      exact ih (respects s s' a ha hR)
    | false =>
      rw [List.filter_cons_of_pos (by simp [ha])]
      exact ih (consistent s s' a ha hR)

end Unwinding

end Support
