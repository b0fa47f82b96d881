import MachDebug.Program.Interference
import Mathlib.Data.Nat.Notation

/-!
# Programs inside larger programs

A program can be taken as one over more operations, and a failed assertion can be taken as an
exception of its own, so that the postcondition for exceptions speaks about it. Both leave the steps
of the program as they are.

## Main definitions

* `Prog.lift f p`: the program `p` over the operations that `f` maps to
* `Prog.reveal p`: the program `p`, which throws `none` where an assertion fails
* `Prog.repeated n p`: the program `p`, `n` times

## Main results

* `Prog.lift_bind`, `Prog.reveal_bind`: both keep sequences
* `Prog.Step.reveal`: both programs take the same steps
-/

namespace Program

universe u

variable {Op Op' : Type → Type} {ε α γ : Type} {σ : Type u}

namespace Prog

/-- The program over other operations. -/
def lift (f : {β : Type} → Op β → Op' β) : Prog Op ε α → Prog Op' ε α
  | .ret a => .ret a
  | .throw e => .throw e
  | .abort => .abort
  | .op o k => .op (f o) fun b => (k b).lift f
  | .spin o k => .spin (f o) (k.lift f)

/-- The program that throws `none` where an assertion fails. -/
def reveal : Prog Op ε α → Prog Op (Option ε) α
  | .ret a => .ret a
  | .throw e => .throw (some e)
  | .abort => .throw none
  | .op o k => .op o fun b => (k b).reveal
  | .spin o k => .spin o k.reveal

/-- The program, `n` times. -/
def repeated : ℕ → Prog Op ε Unit → Prog Op ε Unit
  | 0, _ => .ret ()
  | n + 1, p => p.bind fun _ => repeated n p

theorem lift_bind (f : {β : Type} → Op β → Op' β) (p : Prog Op ε α) (g : α → Prog Op ε γ) :
    (p.bind g).lift f = (p.lift f).bind fun a => (g a).lift f := by
  induction p with
  | ret a => rfl
  | throw e => rfl
  | abort => rfl
  | op o k ih => exact congrArg (Prog.op (f o)) (funext ih)
  | spin o k ih => exact congrArg (Prog.spin (f o)) ih

theorem reveal_bind (p : Prog Op ε α) (g : α → Prog Op ε γ) :
    (p.bind g).reveal = p.reveal.bind fun a => (g a).reveal := by
  induction p with
  | ret a => rfl
  | throw e => rfl
  | abort => rfl
  | op o k ih => exact congrArg (Prog.op o) (funext ih)
  | spin o k ih => exact congrArg (Prog.spin o) ih

theorem Uses.lift {P : {β : Type} → Op' β → Prop} {f : {β : Type} → Op β → Op' β}
    {p : Prog Op ε α} (h : p.Uses fun o => P (f o)) : (p.lift f).Uses P := by
  induction p with
  | ret a => trivial
  | throw e => trivial
  | abort => trivial
  | op o k ih => exact ⟨h.1, fun b => ih b (h.2 b)⟩
  | spin o k ih => exact ⟨h.1, ih h.2⟩

theorem Uses.reveal {P : {β : Type} → Op β → Prop} {p : Prog Op ε α} (h : p.Uses P) :
    p.reveal.Uses P := by
  induction p with
  | ret a => trivial
  | throw e => trivial
  | abort => trivial
  | op o k ih => exact ⟨h.1, fun b => ih b (h.2 b)⟩
  | spin o k ih => exact ⟨h.1, ih h.2⟩

theorem Uses.repeated {P : {β : Type} → Op β → Prop} {p : Prog Op ε Unit} (hp : p.Uses P)
    (n : ℕ) : (repeated n p).Uses P := by
  induction n with
  | zero => trivial
  | succ n ih => exact hp.bind fun _ => ih

/-- **A step of the program** is one of the program that reveals its assertions. -/
theorem Step.reveal {H : Handler Op σ} {p p' : Prog Op ε α} {s s' : σ} (h : p.Step H s p' s') :
    p.reveal.PermittedStep H (fun _ _ _ => True) s p'.reveal s' := by
  cases h with
  | op he => exact .op he trivial
  | again he => exact .again he trivial
  | leave he => exact .leave he trivial

end Prog

end Program
