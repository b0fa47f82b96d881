import MachDebug.Debugger.Run
import MachDebug.Threads.View

/-!
# The order of accesses that stops and steps need

`m_status` is written by the controller and the target is suspended by the exception thread. The
two agree in every interleaving in which `STOP` is written only when a message is queued, the list
is not cleared between the exception thread's test of it and its `push_back`, and the tracked task
does not change while a suspension is owed. For a single step it is enough that it starts with a
message queued and `STOP` does not come before the message that ended it; in addition, no hand-over
may find the flag up while older messages are queued, and `Resume` may not resume the task for a
message that it has not taken off the list.

## Main definitions

* `SysOp.answer`, `callsSucceed`: kernel calls succeed
* `InOrder`, `stopRule`: the order of accesses to the members
* `stopDiscipline`: the assertions of both threads
* `CtlSafe`, `ExcSafe`: a program of a thread keeps the discipline, with the rules for one operation
-/

namespace MachDebug

open Program

/-! ## The rule -/

/-- The return code in an answer; `0` where there is none, and for a receive. -/
def SysOp.answer : {β : Type} → SysOp β → β → KernReturn
  | _, .getpgid _, e => e
  | _, .taskForPid _, r => r.1
  | _, .taskInfo _, r => r.1
  | _, .machPortAllocate, r => r.1
  | _, .machPortInsertRight _, e => e
  | _, .machPortDeallocate _, e => e
  | _, .taskGetExceptionPorts _ _, r => r.1
  | _, .taskSetExceptionPorts _ _ _, e => e
  | _, .pthreadCreate, e => e
  | _, .pthreadCancel, e => e
  | _, .pthreadJoin, e => e
  | _, .ptAttachExc _, e => e
  | _, .ptDetach _, e => e
  | _, .ptThUpdate _ _ _, e => e
  | _, .kill _ _, e => e
  | _, .taskSuspend _, e => e
  | _, .taskResume _, e => e
  | _, .taskThreads _, r => r.1
  | _, .threadGetState _, r => r.1
  | _, .threadSetState _ _, e => e
  | _, .pidForTask _, r => r.1
  | _, .machMsgSend _ _, e => e
  | _, .pthreadTestcancel, _ => 0
  | _, .usleep _, _ => 0
  | _, .machMsgReceive _ _, _ => 0

/-- Kernel calls succeed, except for the exception thread's probes of a task that may be dead. -/
def Succeeds : Thread → {β : Type} → Op β → β → Prop
  | .exception, _, .sys (.taskInfo _), _ => True
  | _, _, .sys o, b => o.answer b = 0
  | _, _, .member _, _ => True

/-- The rule that kernel calls succeed. -/
def callsSucceed : Rule := fun who _ o _ b => Succeeds who o b

/-- The order of accesses: the list is cleared outside the exception thread's test and `push_back`,
and the tracked task changes while no suspension is owed. `STOP` is written with a message queued;
for single steps, it is written with no step's last message pending, a step starts with a message
queued, the controller does not resume the task for a message that is on the list or held, and the
exception thread finds the flag up only while the list is empty. -/
def InOrder (strict : Prop) : Thread → {β : Type} → Op β → Traced → β → Prop
  | .controller, _, .member (.setStatus .stop), t, _ =>
    (¬ strict → t.view.msgs ≠ []) ∧ (strict → ¬ t.view.EnderPending)
  | .controller, _, .member (.setSingleStep true), t, _ => strict → t.view.msgs ≠ []
  | .controller, _, .member .clearMessages, t, _ => t.view.tested = false
  | .controller, _, .sys (.taskResume _), t, _ => strict → t.view.ResumesOwn
  | _, _, .member (.setTaskPort _), t, _ =>
    t.view.msgs = [] ∧ t.view.tested = false ∧ t.view.resuming = false
  | .exception, _, .member .singleStep, t, true => strict → t.view.msgs = []
  | _, _, _, _, _ => True

/-- The rule: kernel calls succeed, and accesses are in order. -/
def stopRule (strict : Prop) : Rule :=
  fun who _ o t b => Succeeds who o b ∧ InOrder strict who o t b

instance (who : Thread) {β : Type} (o : Op β) (b : β) : Decidable (Succeeds who o b) := by
  cases who <;> cases o with
  | member o => exact isTrue trivial
  | sys o => cases o <;> first | exact isTrue trivial | exact inferInstanceAs (Decidable (_ = _))

instance (who : Thread) {β : Type} (o : Op β) (t : Traced) (b : β) :
    Decidable (callsSucceed who o t b) :=
  inferInstanceAs (Decidable (Succeeds who o b))

instance (strict : Prop) [Decidable strict] (who : Thread) {β : Type} (o : Op β) (t : Traced)
    (b : β) : Decidable (InOrder strict who o t b) := by
  cases who <;> cases o with
  | sys o =>
    cases o
    case taskResume p =>
      first | exact isTrue trivial | exact inferInstanceAs (Decidable (strict → View.ResumesOwn _))
    all_goals exact isTrue trivial
  | member o =>
    cases o
    case setStatus v =>
      cases v <;> first | exact isTrue trivial | exact inferInstanceAs (Decidable
        ((¬ strict → _ ≠ []) ∧ (strict → ¬ View.EnderPending _)))
    case setSingleStep v =>
      cases v <;> first | exact isTrue trivial | exact inferInstanceAs (Decidable (strict → _ ≠ []))
    case setTaskPort p => exact inferInstanceAs (Decidable (_ = [] ∧ _ = false ∧ _ = false))
    case singleStep =>
      cases b <;> first | exact isTrue trivial | exact inferInstanceAs (Decidable (strict → _ = []))
    case clearMessages =>
      first | exact isTrue trivial | exact inferInstanceAs (Decidable (_ = false))
    all_goals exact isTrue trivial

instance (strict : Prop) [Decidable strict] (who : Thread) {β : Type} (o : Op β) (t : Traced)
    (b : β) : Decidable (stopRule strict who o t b) :=
  inferInstanceAs (Decidable (_ ∧ _))

/-! ## The discipline -/

/-- Between two calls; without the rules for single steps, `STOP` means that a message is queued. -/
def View.Idle (strict : Prop) (v : View) : Prop :=
  v.resuming = false ∧ (¬ strict → v.status = .stop → v.msgs ≠ [])

/-- The exception thread is between two messages. -/
def View.Waiting (v : View) : Prop := v.inFlight = none ∧ v.tested = false

/-- The assertions of both threads. -/
def stopDiscipline (strict : Prop) : Discipline View where
  view := Traced.view
  inv := View.Inv
  ctlRely := View.CtlRely strict
  excRely := View.ExcRely strict
  ctl_refl := .refl strict
  ctl_trans _ _ _ := .trans
  exc_refl := .refl strict
  exc_trans _ _ _ := .trans
  idle := View.Idle strict
  returned c v := v.Idle strict ∧ (c = .singleStep → strict → v.msgs ≠ [] ∧ v.Ended)
  waiting := View.Waiting
  offered _ := View.Waiting
  ready m v := v.inFlight = some m ∧ v.tested = false

section Rules

variable (strict : Prop)

/-- A program of the controller keeps the discipline. -/
abbrev CtlSafe {α : Type} (p : Code α) (Q : α → View → Prop) (t : Traced) : Prop :=
  (stopDiscipline strict).CtlSafe (stopRule strict) Q p t

/-- A program of the exception thread keeps the discipline. -/
abbrev ExcSafe {α : Type} (p : Code α) (Q : α → View → Prop) (t : Traced) : Prop :=
  (stopDiscipline strict).ExcSafe (stopRule strict) Q p t

/-- An assertion of the controller that the other side leaves alone. -/
abbrev CtlStable (P : View → Prop) : Prop :=
  ∀ v v', v.Inv → v'.Inv → v.CtlRely strict v' → P v → P v'

/-- An assertion of the exception thread that the other side leaves alone. -/
abbrev ExcStable (P : View → Prop) : Prop :=
  ∀ v v', v.Inv → v'.Inv → v.ExcRely strict v' → P v → P v'

/-- An operation of the controller keeps an assertion, and the discipline. -/
abbrev CtlKeeps {β : Type} (P : View → Prop) (o : Op β) : Prop :=
  ∀ t b t', (traced .controller).exec o t = some (b, t') → stopRule strict .controller o t b →
    t.view.Inv → P t.view → (t'.view.Inv ∧ t.view.ExcRely strict t'.view) ∧ P t'.view

variable {strict} {α β : Type} {P : View → Prop} {t : Traced}

/-- One operation of the controller. -/
theorem CtlSafe.op {o : Op β} {k : β → Code α} {Q : α → View → Prop} (hP : CtlStable strict P)
    (h : ∀ u b u', (traced .controller).exec o u = some (b, u') →
      stopRule strict .controller o u b → u.view.Inv → P u.view →
      (u'.view.Inv ∧ u.view.ExcRely strict u'.view) ∧ CtlSafe strict (k b) Q u')
    (hinv : t.view.Inv) (ht : P t.view) : CtlSafe strict (.op o k) Q t :=
  Terms.Safe.op hP h hinv ht

/-- One operation of the controller that leaves the view alone. -/
theorem CtlSafe.read {o : Op β} {k : β → Code α} {Q : α → View → Prop} (hP : CtlStable strict P)
    (ho : ∀ x ∈ o.part, x ∈ Part.hidden)
    (h : ∀ u b u', (traced .controller).exec o u = some (b, u') →
      stopRule strict .controller o u b → u.view.Inv → P u.view → u'.view = u.view →
      CtlSafe strict (k b) Q u')
    (hinv : t.view.Inv) (ht : P t.view) : CtlSafe strict (.op o k) Q t :=
  Terms.Safe.read (View.ExcRely.refl strict) hP (fun _ _ _ he => view_controller he ho) h hinv ht

theorem CtlSafe.ret {a : α} {Q : α → View → Prop} (hP : CtlStable strict P)
    (hQ : ∀ v, v.Inv → P v → Q a v) (hinv : t.view.Inv) (ht : P t.view) :
    CtlSafe strict (.ret a) Q t :=
  Terms.Safe.ret hP hQ hinv ht

theorem CtlSafe.throw {e : RuntimeError} {Q : α → View → Prop} (hP : CtlStable strict P)
    (hE : ∀ v, P v → v.Idle strict) (hinv : t.view.Inv) (ht : P t.view) :
    CtlSafe strict (.throw e) Q t :=
  Terms.Safe.throw hP (fun v _ => hE v) hinv ht

/-- A busy wait of the controller. -/
theorem CtlSafe.spin {o : Op Bool} {k : Code α} {Q : α → View → Prop} (hP : CtlStable strict P)
    (h : ∀ u b u', (traced .controller).exec o u = some (b, u') →
      stopRule strict .controller o u b → u.view.Inv → P u.view →
      (u'.view.Inv ∧ u.view.ExcRely strict u'.view) ∧
        if b then P u'.view else CtlSafe strict k Q u')
    (hinv : t.view.Inv) (ht : P t.view) : CtlSafe strict (.spin o k) Q t :=
  Terms.Safe.spin hP h hinv ht

/-- A program of the controller whose operations keep an assertion, and what follows it. -/
theorem CtlSafe.bind_uses {p : Code α} {f : α → Code β} {Q : β → View → Prop}
    {R : {β : Type} → Op β → Prop} (hp : p.Uses R) (hP : CtlStable strict P)
    (hR : ∀ {β : Type} (o : Op β), R o → CtlKeeps strict P o) (hidle : ∀ v, P v → v.Idle strict)
    (hf : ∀ a (u : Traced), u.view.Inv → P u.view → CtlSafe strict (f a) Q u) (hinv : t.view.Inv)
    (ht : P t.view) : CtlSafe strict (p.bind f) Q t :=
  Terms.Safe.bind_uses hp hP hR hidle hf hinv ht

/-- An operation on hidden parts keeps every assertion. -/
theorem CtlKeeps.hidden {o : Op β} (ho : ∀ x ∈ o.part, x ∈ Part.hidden) : CtlKeeps strict P o :=
  Terms.Keeps.of_view (T := (stopDiscipline strict).ctlTerms) (View.ExcRely.refl strict)
    fun _ _ _ he => view_controller he ho

/-- One operation of the exception thread. -/
theorem ExcSafe.op {o : Op β} {k : β → Code α} {Q : α → View → Prop} (hP : ExcStable strict P)
    (h : ∀ u b u', (traced .exception).exec o u = some (b, u') →
      stopRule strict .exception o u b → u.view.Inv → P u.view →
      (u'.view.Inv ∧ u.view.CtlRely strict u'.view) ∧ ExcSafe strict (k b) Q u')
    (hinv : t.view.Inv) (ht : P t.view) : ExcSafe strict (.op o k) Q t :=
  Terms.Safe.op (T := (stopDiscipline strict).excTerms) (E := fun _ => True) hP h hinv ht

/-- One operation of the exception thread that leaves the view alone. -/
theorem ExcSafe.read {o : Op β} {k : β → Code α} {Q : α → View → Prop} (hP : ExcStable strict P)
    (ho : ∀ x ∈ o.part, x ∈ Part.hidden) (htest : o.isTest = false)
    (h : ∀ u b u', (traced .exception).exec o u = some (b, u') →
      stopRule strict .exception o u b → u.view.Inv → P u.view → u'.view = u.view →
      ExcSafe strict (k b) Q u')
    (hinv : t.view.Inv) (ht : P t.view) : ExcSafe strict (.op o k) Q t :=
  Terms.Safe.read (T := (stopDiscipline strict).excTerms) (E := fun _ => True)
    (View.CtlRely.refl strict) hP (fun _ _ _ he => view_exception he ho htest) h hinv ht

theorem ExcSafe.ret {a : α} {Q : α → View → Prop} (hP : ExcStable strict P)
    (hQ : ∀ v, v.Inv → P v → Q a v) (hinv : t.view.Inv) (ht : P t.view) :
    ExcSafe strict (.ret a) Q t :=
  Terms.Safe.ret (T := (stopDiscipline strict).excTerms) (E := fun _ => True) hP hQ hinv ht

end Rules

end MachDebug
