import MachDebug.Threads.System

/-!
# Disciplines of the two threads

A discipline gives both threads assertions about a view of the shared state: an invariant, what
each thread relies on the other for, and what holds where a thread is between two calls or between
two messages. Once every program is shown to keep its part of the discipline, the assertions hold
throughout every run.

## Main definitions

* `Discipline V`: the assertions of both threads
* `Discipline.Sound`: every program and every other step keeps the discipline

## Main results

* `Discipline.Sound.step`, `Discipline.Sound.runs`: the assertions hold throughout every run
-/

namespace MachDebug

open Program

/-- The assertions of both threads about a view of the shared state. -/
structure Discipline (V : Type) where
  view : Traced → V
  inv : V → Prop
  /-- What the exception thread and the target side do, as the controller sees it. -/
  ctlRely : V → V → Prop
  /-- What the controller and the target side do, as the exception thread sees it. -/
  excRely : V → V → Prop
  ctl_refl : ∀ v, ctlRely v v
  ctl_trans : ∀ v v' v'', ctlRely v v' → ctlRely v' v'' → ctlRely v v''
  exc_refl : ∀ v, excRely v v
  exc_trans : ∀ v v' v'', excRely v v' → excRely v' v'' → excRely v v''
  /-- Between two calls. -/
  idle : V → Prop
  /-- When a call has returned. -/
  returned : Call → V → Prop
  /-- Between two messages. -/
  waiting : V → Prop
  /-- When a message has been fetched. -/
  offered : Message → V → Prop
  /-- When a message has been handed over. -/
  ready : Message → V → Prop

namespace Discipline

variable {V : Type} (D : Discipline V) (sdk : Sdk) (rule : Rule)

/-- The terms of the controller. -/
def ctlTerms : Terms V where
  inv := D.inv
  rely := D.ctlRely
  guar := D.excRely
  rely_refl := D.ctl_refl
  rely_trans := D.ctl_trans

/-- The terms of the exception thread. -/
def excTerms : Terms V where
  inv := D.inv
  rely := D.excRely
  guar := D.ctlRely
  rely_refl := D.exc_refl
  rely_trans := D.exc_trans

/-- A program of the controller keeps the discipline. -/
abbrev CtlSafe {α : Type} (Q : α → V → Prop) (p : Code α) (t : Traced) : Prop :=
  D.ctlTerms.Safe D.view (rule .controller) (traced .controller) Q D.idle p t

/-- A program of the exception thread keeps the discipline. -/
abbrev ExcSafe {α : Type} (Q : α → V → Prop) (p : Code α) (t : Traced) : Prop :=
  D.excTerms.Safe D.view (rule .exception) (traced .exception) Q (fun _ => True) p t

/-- What a fetch ends with. -/
def Ends (r : Option Message × ExceptionThread.Turn) (v : V) : Prop :=
  match r.1 with
  | some m => D.offered m v
  | none => D.waiting v

/-- The assertions are justified: every program keeps the discipline, and so does every other
step. -/
structure Sound : Prop where
  idle_stable : D.ctlTerms.Stable D.idle
  returned_idle : ∀ c v, D.inv v → D.returned c v → D.idle v
  waiting_stable : D.excTerms.Stable D.waiting
  call : ∀ c ≠ .detach, ∀ t, D.inv (D.view t) → D.idle (D.view t) →
    D.CtlSafe rule (fun _ => D.returned c) (c.code sdk) t
  fetch : ∀ l t, D.inv (D.view t) → D.waiting (D.view t) →
    D.ExcSafe rule D.Ends (ExceptionThread.fetch sdk l) t
  hand : ∀ m t, D.inv (D.view t) → D.offered m (D.view t) →
    D.inv (D.view (t.hand m)) ∧ D.ctlRely (D.view t) (D.view (t.hand m)) ∧
      D.ready m (D.view (t.hand m))
  deliver : ∀ m t, D.inv (D.view t) → D.ready m (D.view t) →
    D.ExcSafe rule (fun _ => D.waiting) (MachProcess.exceptionMessageReceived m) t
  event : ∀ e t, Kernel.Event.Enabled t.world.kern e → D.inv (D.view t) →
    D.inv (D.view (t.event e)) ∧ D.ctlRely (D.view t) (D.view (t.event e)) ∧
      D.excRely (D.view t) (D.view (t.event e))

/-- What holds for the controller. -/
def CtlHolds (t : Traced) : Controller → Prop
  | .idle => D.idle (D.view t)
  | .inside c p => D.CtlSafe rule (fun _ => D.returned c) p t

/-- What holds for the exception thread. -/
def ExcHolds (t : Traced) : Exception → Prop
  | .absent => D.waiting (D.view t)
  | .fetching p => D.ExcSafe rule D.Ends p t
  | .delivering p _ => D.ExcSafe rule (fun _ => D.waiting) p t
  | .ended => True

/-- The assertions hold in a state of the two threads. -/
structure Holds (s : System) : Prop where
  inv : D.inv (D.view s.state)
  ctl : D.CtlHolds rule s.state s.ctl
  exc : D.ExcHolds rule s.state s.exc

variable {D sdk rule} {t t' : Traced}

/-- The assertions of the controller survive the other side. -/
theorem Sound.ctl_rely (hD : D.Sound sdk rule) (ht : D.inv (D.view t)) (ht' : D.inv (D.view t'))
    (hr : D.ctlRely (D.view t) (D.view t')) {c : Controller} (h : D.CtlHolds rule t c) :
    D.CtlHolds rule t' c := by
  cases c with
  | idle => exact hD.idle_stable _ _ ht ht' hr h
  | inside c p => exact Prog.Safe.rely h fun _ => ⟨ht', hr⟩

/-- The assertions of the exception thread survive the other side. -/
theorem Sound.exc_rely (hD : D.Sound sdk rule) (ht : D.inv (D.view t)) (ht' : D.inv (D.view t'))
    (hr : D.excRely (D.view t) (D.view t')) {e : Exception} (h : D.ExcHolds rule t e) :
    D.ExcHolds rule t' e := by
  cases e with
  | absent => exact hD.waiting_stable _ _ ht ht' hr h
  | fetching p => exact Prog.Safe.rely h fun _ => ⟨ht', hr⟩
  | delivering p next => exact Prog.Safe.rely h fun _ => ⟨ht', hr⟩
  | ended => trivial

/-- Starting the exception thread reads the task port and fetches. -/
theorem Sound.start (hD : D.Sound sdk rule) (ht : D.inv (D.view t)) (h : D.waiting (D.view t)) :
    D.ExcSafe rule D.Ends (ExceptionThread.start sdk) t := by
  refine Terms.Safe.op hD.waiting_stable (fun u b u' he _ hu hw => ?_) ht h
  obtain ⟨-, rfl⟩ := Prod.mk.inj (Option.some.inj he)
  exact ⟨⟨hu, D.ctl_refl _⟩, hD.fetch _ u hu hw⟩

theorem Sound.next (hD : D.Sound sdk rule) (ht : D.inv (D.view t)) (h : D.waiting (D.view t))
    (next : ExceptionThread.Turn) : D.ExcHolds rule t (.next sdk next) := by
  cases next with
  | again l => exact hD.fetch l t ht h
  | exit => trivial

/-- A step within the rule keeps the assertions. -/
theorem Sound.step (hD : D.Sound sdk rule) {s s' : System} (hs : System.Step sdk rule s s')
    (h : D.Holds rule s) : D.Holds rule s' := by
  obtain ⟨hinv, hctl, hexc⟩ := h
  cases hs with
  | call hc => exact ⟨hinv, hD.call _ hc _ hinv hctl, hexc⟩
  -- an operation of one thread is interference for the other
  | ctl hstep =>
    obtain ⟨hg, hp⟩ :=
      Prog.Safe.step (C := D.ctlTerms.contract D.view (rule .controller)) hctl hstep
    obtain ⟨hinv', hr⟩ := hg hinv
    exact ⟨hinv', hp, hD.exc_rely hinv hinv' hr hexc⟩
  | @ret c e t =>
    have hsafe : D.CtlSafe rule (fun _ => D.returned c) (.ret ()) t := hctl
    exact ⟨hinv, hD.returned_idle c _ hinv hsafe.ret_post, hexc⟩
  | @throw c x e t =>
    have hsafe : D.CtlSafe rule (fun _ => D.returned c) (.throw x : Code Unit) t := hctl
    exact ⟨hinv, hsafe.throw_post, hexc⟩
  | start _ => exact ⟨hinv, hctl, hD.start hinv hexc⟩
  | fetch hstep =>
    obtain ⟨hg, hp⟩ := Prog.Safe.step (C := D.excTerms.contract D.view (rule .exception)) hexc hstep
    obtain ⟨hinv', hr⟩ := hg hinv
    exact ⟨hinv', hD.ctl_rely hinv hinv' hr hctl, hp⟩
  | @hand c m next t =>
    have hsafe : D.ExcSafe rule D.Ends (.ret (some m, next)) t := hexc
    obtain ⟨hinv', hr, hready⟩ := hD.hand m t hinv hsafe.ret_post
    exact ⟨hinv', hD.ctl_rely hinv hinv' hr hctl, hD.deliver _ _ hinv' hready⟩
  | @skip c next t =>
    have hsafe : D.ExcSafe rule D.Ends (.ret (none, next)) t := hexc
    exact ⟨hinv, hctl, hD.next hinv hsafe.ret_post next⟩
  | deliver hstep =>
    obtain ⟨hg, hp⟩ := Prog.Safe.step (C := D.excTerms.contract D.view (rule .exception)) hexc hstep
    obtain ⟨hinv', hr⟩ := hg hinv
    exact ⟨hinv', hD.ctl_rely hinv hinv' hr hctl, hp⟩
  | @delivered c next t =>
    have hsafe : D.ExcSafe rule (fun _ => D.waiting) (.ret ()) t := hexc
    exact ⟨hinv, hctl, hD.next hinv hsafe.ret_post next⟩
  | event he =>
    obtain ⟨hinv', hr, hr'⟩ := hD.event _ _ he hinv
    exact ⟨hinv', hD.ctl_rely hinv hinv' hr hctl, hD.exc_rely hinv hinv' hr' hexc⟩

/-- **The assertions of a discipline** hold throughout every run within the rule. -/
theorem Sound.runs (hD : D.Sound sdk rule) {s s' : System} (hs : System.Runs sdk rule s s')
    (h : D.Holds rule s) : D.Holds rule s' := by
  induction hs with
  | refl => exact h
  | tail _ hstep ih => exact hD.step hstep ih

end Discipline

end MachDebug
