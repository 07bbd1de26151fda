import IsaCloud.Support.Runs
import Mathlib.Logic.Function.Basic

/-!
# Clients confined to their own keys

Several owners run processes against one server. What a command answers and
changes lies under the keys it touches. If every owner's code touches keys of
the owner's own domain only, and no two domains meet, then no owner can tell the
commands of the others from idle time: its calls return what they would have
returned had the others never called, lost and unanswered commands included.
-/

namespace Support

set_option autoImplicit false

/-- A server with keys. `Same k` relates states that no command on the key `k` tells apart, now or later. -/
structure KeyedServer (S E K Cmd Reply : Type) where
  serve : S → Cmd → S × Reply
  env : S → E → S
  Touches : Cmd → K → Prop
  Same : K → S → S → Prop
  refl : ∀ k s, Same k s s
  symm : ∀ {k s t}, Same k s t → Same k t s
  trans : ∀ {k s t u}, Same k s t → Same k t u → Same k s u
  frame : ∀ {s c k}, ¬ Touches c k → Same k (serve s c).1 s
  reply : ∀ {s t c}, (∀ k, Touches c k → Same k s t) → (serve s c).2 = (serve t c).2
  effect : ∀ {s t c k}, (∀ k, Touches c k → Same k s t) → Touches c k → Same k (serve s c).1 (serve t c).1
  passing : ∀ {k s t} (e : E), Same k s t → Same k (env s e) (env t e)

/-- What becomes of a command: it is answered, it does not reach the server, or its answer is lost. -/
inductive Delivery where
  | answered
  | unsent
  | unanswered
  deriving DecidableEq, Repr

/-- Code that touches keys of a domain only, whatever it is answered. -/
inductive Confined {K Cmd Reply Out : Type} (Touches : Cmd → K → Prop) (D : K → Prop) : Proc Cmd Reply Out → Prop where
  | ret (o : Out) : Confined Touches D (.ret o)
  | call {c : Cmd} {k : Reply → Proc Cmd Reply Out} (within : ∀ key, Touches c key → D key)
      (rest : ∀ r, Confined Touches D (k r)) : Confined Touches D (.call c k)

namespace Confined
variable {K Cmd Reply : Type} {Touches : Cmd → K → Prop} {D : K → Prop}

theorem attempt {X Y Err : Type} {x : Except Err X} {k : X → Proc Cmd Reply (Except Err Y)}
    (h : ∀ a, x = .ok a → Confined Touches D (k a)) : Confined Touches D (Proc.attempt x k) := by
  cases x with
  | error e => exact .ret _
  | ok a => exact h a rfl

theorem map {Out Out' : Type} (f : Out → Out') {p : Proc Cmd Reply Out} (h : Confined Touches D p) :
    Confined Touches D (p.map f) := by
  induction h with
  | ret o => exact .ret _
  | call within _ ih => exact .call within ih

end Confined

structure Tenants (S O Cmd Reply Out : Type) where
  server : S
  calls : O → Nat → Option (Proc Cmd Reply Out)

/-- A call is known by its owner and a number. A number used again abandons the call it had. -/
inductive TenantAction (E O Op : Type) where
  | env (e : E)
  | invoke (o : O) (i : Nat) (op : Op)
  | step (o : O) (i : Nat) (d : Delivery)

/-- The server, the code of each owner's calls, and the reply that stands for a failed command. -/
structure TenantSystem (S E K O Op Cmd Reply Out : Type) extends KeyedServer S E K Cmd Reply where
  code : O → Op → Proc Cmd Reply Out
  failure : Reply

namespace TenantSystem
variable {S E K O Op Cmd Reply Out : Type} (sys : TenantSystem S E K O Op Cmd Reply Out)

def deliver (s : S) (c : Cmd) : Delivery → S × Reply
  | .answered => sys.serve s c
  | .unsent => (s, sys.failure)
  | .unanswered => ((sys.serve s c).1, sys.failure)

theorem deliver_frame {s : S} {c : Cmd} {k : K} (h : ¬ sys.Touches c k) (d : Delivery) :
    sys.Same k (sys.deliver s c d).1 s := by
  cases d with
  | answered => exact sys.frame h
  | unsent => exact sys.refl k s
  | unanswered => exact sys.frame h

theorem deliver_reply {s t : S} {c : Cmd} (h : ∀ k, sys.Touches c k → sys.Same k s t) (d : Delivery) :
    (sys.deliver s c d).2 = (sys.deliver t c d).2 := by
  cases d with
  | answered => exact sys.reply h
  | unsent => rfl
  | unanswered => rfl

/-- States that agree where a command looks agree afterwards wherever they did before. -/
theorem deliver_same {s t : S} {c : Cmd} {k : K} (h : ∀ k, sys.Touches c k → sys.Same k s t)
    (hk : sys.Same k s t) (d : Delivery) : sys.Same k (sys.deliver s c d).1 (sys.deliver t c d).1 := by
  have hserve : sys.Same k (sys.serve s c).1 (sys.serve t c).1 := by
    by_cases ht : sys.Touches c k
    · exact sys.effect h ht
    · exact sys.trans (sys.frame ht) (sys.trans hk (sys.symm (sys.frame ht)))
  cases d with
  | answered => exact hserve
  | unsent => exact hk
  | unanswered => exact hserve

end TenantSystem

section Tenants
variable {S E K O Op Cmd Reply Out : Type} [DecidableEq O]

def Tenants.put (w : Tenants S O Cmd Reply Out) (s : S) (o : O) (i : Nat) (p : Proc Cmd Reply Out) :
    Tenants S O Cmd Reply Out :=
  ⟨s, Function.update w.calls o (Function.update (w.calls o) i (some p))⟩

def Tenants.init (s : S) : Tenants S O Cmd Reply Out := ⟨s, fun _ _ => none⟩

namespace TenantSystem
variable (sys : TenantSystem S E K O Op Cmd Reply Out)

def step (w : Tenants S O Cmd Reply Out) : TenantAction E O Op → Tenants S O Cmd Reply Out
  | .env e => { w with server := sys.env w.server e }
  | .invoke o i op => w.put w.server o i (sys.code o op)
  | .step o i d =>
    match w.calls o i with
    | some (.call c k) => w.put (sys.deliver w.server c d).1 o i (k (sys.deliver w.server c d).2)
    | _ => w

/-- What a call has returned after the action. -/
def returned (w : Tenants S O Cmd Reply Out) (a : TenantAction E O Op) : Option Out :=
  match a with
  | .env _ => none
  | .invoke o i _ => ((sys.step w a).calls o i).bind Proc.output
  | .step o i _ => ((sys.step w a).calls o i).bind Proc.output

end TenantSystem

/-- The actions of the other owners. -/
def TenantAction.foreign (o : O) : TenantAction E O Op → Bool
  | .env _ => false
  | .invoke o' _ _ => o' ≠ o
  | .step o' _ _ => o' ≠ o

theorem Tenants.calls_put_self (w : Tenants S O Cmd Reply Out) (s : S) (o : O) (i : Nat) (p : Proc Cmd Reply Out) :
    (w.put s o i p).calls o = Function.update (w.calls o) i (some p) :=
  Function.update_self _ _ _

theorem Tenants.calls_put_of_ne (w : Tenants S O Cmd Reply Out) (s : S) {o o' : O} (i : Nat)
    (p : Proc Cmd Reply Out) (h : o' ≠ o) : (w.put s o i p).calls o' = w.calls o' :=
  Function.update_of_ne h _ _

/-- A call after another one was put in: the new one, or one that was there. -/
theorem Tenants.calls_put_cases {w : Tenants S O Cmd Reply Out} {s : S} {o o' : O} {i j : Nat}
    {p q : Proc Cmd Reply Out} (h : (w.put s o i p).calls o' j = some q) :
    (o' = o ∧ q = p) ∨ w.calls o' j = some q := by
  by_cases ho : o' = o
  · subst ho
    rw [w.calls_put_self] at h
    by_cases hj : j = i
    · subst hj
      rw [Function.update_self] at h
      exact .inl ⟨rfl, (Option.some.inj h).symm⟩
    · rw [Function.update_of_ne hj] at h
      exact .inr h
  · rw [w.calls_put_of_ne s i p ho] at h
    exact .inr h

namespace TenantSystem
variable (sys : TenantSystem S E K O Op Cmd Reply Out) {w w' : Tenants S O Cmd Reply Out} {o : O}
  {a : TenantAction E O Op}

variable {sys} in
theorem step_call {i : Nat} {c : Cmd} {k : Reply → Proc Cmd Reply Out} (h : w.calls o i = some (.call c k))
    (d : Delivery) : sys.step w (.step o i d) =
      w.put (sys.deliver w.server c d).1 o i (k (sys.deliver w.server c d).2) := by
  simp only [step, h]

variable {sys} in
/-- Nothing is left to do of a call that has returned, or that there is not. -/
theorem step_idle {i : Nat} (h : ¬ ∃ c k, w.calls o i = some (.call c k)) (d : Delivery) :
    sys.step w (.step o i d) = w := by
  cases hcall : w.calls o i with
  | none => simp only [step, hcall]
  | some p =>
    cases p with
    | ret out => simp only [step, hcall]
    | call c k => exact absurd ⟨c, k, hcall⟩ h

variable (D : O → K → Prop)

/-- Every call under way is confined to its owner's domain. -/
def Tame (w : Tenants S O Cmd Reply Out) : Prop :=
  ∀ o i p, w.calls o i = some p → Confined sys.Touches (D o) p

/-- The owner cannot tell the two apart. -/
structure Alike (o : O) (w w' : Tenants S O Cmd Reply Out) : Prop where
  server : ∀ k, D o k → sys.Same k w.server w'.server
  calls : w.calls o = w'.calls o

variable {D} {sys}

theorem tame_put (h : sys.Tame D w) {s : S} {i : Nat} {p : Proc Cmd Reply Out}
    (hp : Confined sys.Touches (D o) p) : sys.Tame D (w.put s o i p) := by
  intro o' j q hq
  rcases Tenants.calls_put_cases hq with ⟨rfl, rfl⟩ | hold
  · exact hp
  · exact h o' j q hold

theorem tame_step (hcode : ∀ o op, Confined sys.Touches (D o) (sys.code o op)) (h : sys.Tame D w)
    (a : TenantAction E O Op) : sys.Tame D (sys.step w a) := by
  cases a with
  | env e => exact h
  | invoke o i op => exact tame_put h (hcode o op)
  | step o i d =>
    by_cases hcall : ∃ c k, w.calls o i = some (.call c k)
    · obtain ⟨c, k, hcall⟩ := hcall
      rw [step_call hcall]
      cases h o i _ hcall with
      | call _ hrest => exact tame_put h (hrest _)
    · rwa [step_idle hcall]

/-- An action of another owner. -/
theorem alike_foreign (hapart : ∀ o o' k, D o k → D o' k → o = o') (htame : sys.Tame D w)
    (h : sys.Alike D o w w') {a : TenantAction E O Op} (ha : a.foreign o = true) :
    sys.Alike D o (sys.step w a) w' := by
  cases a with
  | env e => cases ha
  | invoke o' i op =>
    have hne : o ≠ o' := (of_decide_eq_true ha).symm
    exact ⟨h.server, (w.calls_put_of_ne _ i _ hne).trans h.calls⟩
  | step o' i d =>
    have hne : o ≠ o' := (of_decide_eq_true ha).symm
    by_cases hcall : ∃ c k, w.calls o' i = some (.call c k)
    · obtain ⟨c, k, hcall⟩ := hcall
      rw [step_call hcall]
      refine ⟨?_, (w.calls_put_of_ne _ i _ hne).trans h.calls⟩
      intro key hkey
      cases htame o' i _ hcall with
      | call hwithin _ =>
        have huntouched : ¬ sys.Touches c key := fun ht => hne (hapart o o' key hkey (hwithin key ht))
        exact sys.trans (sys.deliver_frame huntouched d) (h.server key hkey)
    · rwa [step_idle hcall]

theorem alike_put (h : sys.Alike D o w w') {s s' : S} (hs : ∀ k, D o k → sys.Same k s s') (i : Nat)
    (p : Proc Cmd Reply Out) : sys.Alike D o (w.put s o i p) (w'.put s' o i p) := by
  refine ⟨hs, ?_⟩
  rw [w.calls_put_self, w'.calls_put_self, h.calls]

/-- An action of the owner itself, or of nobody. -/
theorem alike_own (htame : sys.Tame D w) (h : sys.Alike D o w w') {a : TenantAction E O Op}
    (ha : a.foreign o = false) : sys.Alike D o (sys.step w a) (sys.step w' a) := by
  cases a with
  | env e => exact ⟨fun k hk => sys.passing e (h.server k hk), h.calls⟩
  | invoke o' i op =>
    obtain rfl : o' = o := by simpa [TenantAction.foreign] using ha
    exact alike_put h h.server i _
  | step o' i d =>
    obtain rfl : o' = o := by simpa [TenantAction.foreign] using ha
    have hcalls := congrFun h.calls i
    by_cases hcall : ∃ c k, w.calls o' i = some (.call c k)
    · obtain ⟨c, k, hcall⟩ := hcall
      rw [step_call hcall, step_call (hcalls.symm.trans hcall)]
      cases htame o' i _ hcall with
      | call hwithin _ =>
        have hlocal : ∀ key, sys.Touches c key → sys.Same key w.server w'.server :=
          fun key hkey => h.server key (hwithin key hkey)
        rw [sys.deliver_reply hlocal]
        exact alike_put h (fun key hkey => sys.deliver_same hlocal (h.server key hkey) d) i _
    · have hcall' := hcall
      rw [hcalls] at hcall'
      rwa [step_idle hcall, step_idle hcall']

theorem returned_alike (h : sys.Alike D o (sys.step w a) (sys.step w' a)) (ha : a.foreign o = false) :
    sys.returned w a = sys.returned w' a := by
  cases a with
  | env e => rfl
  | invoke o' i op =>
    obtain rfl : o' = o := by simpa [TenantAction.foreign] using ha
    exact congrArg (Option.bind · Proc.output) (congrFun h.calls i)
  | step o' i d =>
    obtain rfl : o' = o := by simpa [TenantAction.foreign] using ha
    exact congrArg (Option.bind · Proc.output) (congrFun h.calls i)

/-- An owner's calls return what they return when the others stay away, and leave the same behind. -/
theorem alone (hapart : ∀ o o' k, D o k → D o' k → o = o')
    (hcode : ∀ o op, Confined sys.Touches (D o) (sys.code o op)) (htame : sys.Tame D w) (htame' : sys.Tame D w')
    (h : sys.Alike D o w w') (as : List (TenantAction E O Op)) :
    observe sys.step sys.returned (TenantAction.foreign o) w as =
        observe sys.step sys.returned (TenantAction.foreign o) w' (as.filter fun a => !a.foreign o) ∧
      sys.Alike D o (run sys.step w as) (run sys.step w' (as.filter fun a => !a.foreign o)) := by
  have respects : ∀ v v' (a : TenantAction E O Op), a.foreign o = true →
      sys.Tame D v ∧ sys.Tame D v' ∧ sys.Alike D o v v' →
      sys.Tame D (sys.step v a) ∧ sys.Tame D v' ∧ sys.Alike D o (sys.step v a) v' :=
    fun v v' a ha ⟨hv, hv', hvv⟩ => ⟨tame_step hcode hv a, hv', alike_foreign hapart hv hvv ha⟩
  have consistent : ∀ v v' (a : TenantAction E O Op), a.foreign o = false →
      sys.Tame D v ∧ sys.Tame D v' ∧ sys.Alike D o v v' →
      sys.Tame D (sys.step v a) ∧ sys.Tame D (sys.step v' a) ∧ sys.Alike D o (sys.step v a) (sys.step v' a) :=
    fun v v' a ha ⟨hv, hv', hvv⟩ => ⟨tame_step hcode hv a, tame_step hcode hv' a, alike_own hv hvv ha⟩
  constructor
  · refine observe_filter (P := fun _ => True) (fun v v' a ha _ hR => respects v v' a ha hR) ?_
      (fun _ _ => trivial) ⟨htame, htame', h⟩
    intro v v' a ha hR
    have hnext := consistent v v' a ha hR
    exact ⟨returned_alike hnext.2.2 ha, hnext⟩
  · exact (run_filter respects consistent as ⟨htame, htame', h⟩).2.2

omit [DecidableEq O] in
theorem tame_init (s : S) : sys.Tame D (Tenants.init s) := by
  intro o i p hp
  cases hp

end TenantSystem
end Tenants

end Support
