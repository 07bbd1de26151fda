import IsaCloud.Support.Runs
import Mathlib.Logic.Function.Basic

/-!
# Two processes on one server

A `Race` is run by a schedule that names, step by step, the process whose next
command is served. Once one of the two has returned, what is left of a complete
schedule is the serial execution of the other.
-/

namespace Support

set_option autoImplicit false

universe u v

variable {S : Type v} {Cmd Reply Out : Type u}

structure Race (S : Type v) (Cmd Reply Out : Type u) where
  server : S
  proc : Bool → Proc Cmd Reply Out

namespace Race
variable (serve : S → Cmd → S × Reply)

def step (r : Race S Cmd Reply Out) (b : Bool) : Race S Cmd Reply Out :=
  ⟨((r.proc b).advance serve r.server).1,
    Function.update r.proc b ((r.proc b).advance serve r.server).2⟩

/-- Both processes have returned. -/
def Done (r : Race S Cmd Reply Out) : Prop := ∀ b, (r.proc b).output.isSome

variable {serve}

@[simp] theorem step_server (r : Race S Cmd Reply Out) (b : Bool) :
    (r.step serve b).server = ((r.proc b).advance serve r.server).1 := rfl

@[simp] theorem step_proc_self (r : Race S Cmd Reply Out) (b : Bool) :
    (r.step serve b).proc b = ((r.proc b).advance serve r.server).2 := by
  simp [step]

theorem step_proc_of_ne (r : Race S Cmd Reply Out) {b c : Bool} (h : c ≠ b) :
    (r.step serve b).proc c = r.proc c := by
  simp [step, h]

/-- The rest of a complete schedule once process `b` has returned. -/
theorem run_of_returned {r : Race S Cmd Reply Out} {b : Bool} {o : Out} (hb : r.proc b = .ret o)
    {schedule : List Bool} (hdone : (run (step serve) r schedule).Done) :
    (run (step serve) r schedule).server = (Proc.exec serve (r.proc !b) r.server).1 ∧
    (run (step serve) r schedule).proc b = .ret o ∧
    (run (step serve) r schedule).proc (!b) = .ret (Proc.exec serve (r.proc !b) r.server).2 := by
  induction schedule generalizing r with
  | nil =>
    have hother := hdone (!b)
    rw [run_nil] at hother ⊢
    cases hp : r.proc (!b) with
    | call c k =>
      rw [hp] at hother
      cases hother
    | ret o' => exact ⟨rfl, hb, rfl⟩
  | cons x schedule ih =>
    rw [run_cons] at hdone ⊢
    by_cases hx : x = b
    · subst hx
      have hself : (r.step serve x).proc x = .ret o := by
        rw [step_proc_self, hb]
        rfl
      have hserver : (r.step serve x).server = r.server := by
        rw [step_server, hb]
        rfl
      have hother : (r.step serve x).proc (!x) = r.proc (!x) :=
        step_proc_of_ne r (Bool.not_eq_self x).mp
      have := ih hself hdone
      rwa [hserver, hother] at this
    · have hxb : x = !b := Bool.eq_not.mpr hx
      subst hxb
      have hself : (r.step serve (!b)).proc b = .ret o := by
        rw [step_proc_of_ne r (Ne.symm (Bool.not_eq_self b).mp), hb]
      have := ih hself hdone
      rwa [step_server, step_proc_self, Proc.exec_advance] at this

/-- At most one command left. -/
def Short (serve : S → Cmd → S × Reply) (p : Proc Cmd Reply Out) : Prop :=
  ∀ s, ∃ o, (p.advance serve s).2 = .ret o

theorem exec_of_short {p : Proc Cmd Reply Out} (hp : Short serve p) (s : S) :
    (p.advance serve s).1 = (Proc.exec serve p s).1 ∧
    (p.advance serve s).2 = .ret (Proc.exec serve p s).2 := by
  obtain ⟨o, ho⟩ := hp s
  rw [← Proc.exec_advance serve s p, ho]
  exact ⟨rfl, rfl⟩

/-- With one command left to each, one of the two comes first. -/
theorem run_of_short {r : Race S Cmd Reply Out} (hshort : ∀ b, Short serve (r.proc b))
    {schedule : List Bool} (hdone : (run (step serve) r schedule).Done) :
    ∃ x, (run (step serve) r schedule).server =
        (Proc.exec serve (r.proc !x) (Proc.exec serve (r.proc x) r.server).1).1 ∧
      (run (step serve) r schedule).proc x = .ret (Proc.exec serve (r.proc x) r.server).2 ∧
      (run (step serve) r schedule).proc (!x) =
        .ret (Proc.exec serve (r.proc !x) (Proc.exec serve (r.proc x) r.server).1).2 := by
  cases schedule with
  | nil =>
    have hret : ∀ b, ∃ o, r.proc b = .ret o := by
      intro b
      have := hdone b
      rw [run_nil] at this
      cases hb : r.proc b with
      | ret o => exact ⟨o, rfl⟩
      | call c k =>
        rw [hb] at this
        cases this
    obtain ⟨o, ho⟩ := hret false
    obtain ⟨o', ho'⟩ := hret true
    refine ⟨false, ?_⟩
    rw [run_nil, Bool.not_false, ho, ho']
    exact ⟨rfl, rfl, rfl⟩
  | cons x schedule =>
    rw [run_cons] at hdone ⊢
    obtain ⟨hserver, hproc⟩ := exec_of_short (hshort x) r.server
    have hself : (r.step serve x).proc x = .ret (Proc.exec serve (r.proc x) r.server).2 := by
      rw [step_proc_self, hproc]
    have hother : (r.step serve x).proc (!x) = r.proc (!x) :=
      step_proc_of_ne r (Bool.not_eq_self x).mp
    have hrest := run_of_returned hself hdone
    rw [step_server, hserver, hother] at hrest
    exact ⟨x, hrest⟩

end Race

end Support
