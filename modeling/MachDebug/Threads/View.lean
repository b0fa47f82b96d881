import MachDebug.Debugger.Run
import MachDebug.Threads.Discipline

/-!
# Stopping and stepping, abstractly

A view of the two threads: the members and the kernel state that decide whether the target is
stopped and whether a step has ended, with the part of the record that goes with them. Every
operation of a thread changes the view in one of a few ways, and what holds throughout an
interleaving is shown for these.

## Main definitions

* `View`: what stopping and stepping depend on
* `View.Inv`: the debugger holds as many suspensions as it owes
* `View.EnderPending`, `View.ResumesOwn`: what the order of accesses looks at for single steps
* `View.CtlRely`, `View.ExcRely`: what each thread relies on the other for
* `Traced.view`: the view of a state

## Main results

* `View.Inv.suspend`, `View.Inv.push`, `View.Inv.clear`, `View.Inv.resumed`: the changes of the
  view that pay and owe suspensions
* `view_controller`, `view_exception`: all other operations leave the view alone
-/

namespace MachDebug

open Program

/-- What stopping and stepping depend on. -/
@[ext] structure View where
  status : ProcessStatus
  task : Port
  msgs : List Message
  flag : Bool
  count : Port → ℕ
  threads : Port → List Port
  debug : Port → ArmDebugState64
  inFlight : Option Message
  tested : Bool
  suspended : Bool
  ender : Option Message
  resuming : Bool

namespace View

/-- The number of suspensions that the debugger owes: one for messages that are queued or about to
be, and one for a list that was cleared before the task is resumed. -/
def owed (v : View) : ℕ :=
  (if v.msgs = [] ∧ v.suspended = false then 0 else 1) + if v.resuming = true then 1 else 0

/-- The tracked task is suspended as often as the debugger owes. -/
structure Inv (v : View) : Prop where
  queued : v.suspended = true → v.tested = true ∧ v.msgs = []
  owed : v.owed ≤ v.count v.task
  task : v.owed ≠ 0 → v.task ≠ 0

/-- No thread of the tracked task is armed for a single step. -/
def Disarmed (v : View) : Prop :=
  ∀ th ∈ v.threads v.task, (v.debug th).mdscrEl1.getLsbD 0 = false

/-- A step has ended: the message that ended it is queued or about to be, the task is suspended and
disarmed. -/
def Ended (v : View) : Prop :=
  ∃ m, v.ender = some m ∧ (m ∈ v.msgs ∨ v.inFlight = some m ∧ v.msgs = []) ∧
    (v.msgs ≠ [] ∨ v.suspended = true) ∧ v.Disarmed

/-- The message that ended a step is about to be queued, and no other message is there. -/
def EnderPending (v : View) : Prop := v.msgs = [] ∧ v.ender.isSome = true ∧ v.inFlight = v.ender

instance (v : View) : Decidable v.EnderPending := inferInstanceAs (Decidable (_ ∧ _))

/-- The controller resumes what it has suspended, or what nothing is suspended for. -/
def ResumesOwn (v : View) : Prop := v.resuming = true ∨ v.msgs = [] ∧ v.suspended = false

instance (v : View) : Decidable v.ResumesOwn := inferInstanceAs (Decidable (_ ∨ _))

/-- What the controller relies on; the last three are about single steps. -/
structure CtlRely (strict : Prop) (v v' : View) : Prop where
  status : v'.status = v.status
  resuming : v'.resuming = v.resuming
  msgs : v.msgs ≠ [] → v'.msgs ≠ []
  task : v.owed ≠ 0 → v'.task = v.task ∧ v'.owed ≠ 0
  flag : strict → v.msgs ≠ [] → v.flag = true → v'.flag = true
  wait : strict → v.flag = true → v'.flag = true ∨ v'.Ended
  ended : strict → v.Ended → v'.Ended

/-- What the exception thread relies on; the last one is about single steps. -/
structure ExcRely (strict : Prop) (v v' : View) : Prop where
  inFlight : v'.inFlight = v.inFlight
  tested : v'.tested = v.tested
  suspended : v'.suspended = v.suspended
  queued : v.tested = true → v.msgs ≠ [] → v'.msgs ≠ []
  empty : v.msgs = [] → v'.msgs = []
  task : v.tested = true → v'.task = v.task
  armed : strict → v.suspended = true →
    v'.debug = v.debug ∧ v'.threads v'.task = v.threads v.task

variable {strict : Prop} {v v' v'' : View}

theorem CtlRely.refl (strict : Prop) (v : View) : CtlRely strict v v :=
  ⟨rfl, rfl, id, fun h => ⟨rfl, h⟩, fun _ _ => id, fun _ => .inl, fun _ => id⟩

theorem CtlRely.trans (h : CtlRely strict v v') (h' : CtlRely strict v' v'') :
    CtlRely strict v v'' where
  status := h'.status.trans h.status
  resuming := h'.resuming.trans h.resuming
  msgs hm := h'.msgs (h.msgs hm)
  task ho := ⟨(h'.task (h.task ho).2).1.trans (h.task ho).1, (h'.task (h.task ho).2).2⟩
  flag hs hm hf := h'.flag hs (h.msgs hm) (h.flag hs hm hf)
  wait hs hf := (h.wait hs hf).elim (h'.wait hs) fun he => .inr (h'.ended hs he)
  ended hs he := h'.ended hs (h.ended hs he)

theorem ExcRely.refl (strict : Prop) (v : View) : ExcRely strict v v :=
  ⟨rfl, rfl, rfl, fun _ => id, id, fun _ => rfl, fun _ _ => ⟨rfl, rfl⟩⟩

theorem ExcRely.trans (h : ExcRely strict v v') (h' : ExcRely strict v' v'') :
    ExcRely strict v v'' where
  inFlight := h'.inFlight.trans h.inFlight
  tested := h'.tested.trans h.tested
  suspended := h'.suspended.trans h.suspended
  queued htest hm := h'.queued (h.tested.trans htest) (h.queued htest hm)
  empty hm := h'.empty (h.empty hm)
  task htest := (h'.task (h.tested.trans htest)).trans (h.task htest)
  armed hs hsusp := by
    obtain ⟨hd, hth⟩ := h.armed hs hsusp
    obtain ⟨hd', hth'⟩ := h'.armed hs (h.suspended.trans hsusp)
    exact ⟨hd'.trans hd, hth'.trans hth⟩

/-- A step that has ended has its message queued, once that is not pending any more. -/
theorem Ended.queued (h : v.Ended) (hp : ¬ v.EnderPending) : v.msgs ≠ [] := by
  obtain ⟨m, hm, hmem | ⟨hfl, hnil⟩, -, -⟩ := h
  · exact List.ne_nil_of_mem hmem
  · exact absurd ⟨hnil, by rw [hm]; rfl, by rw [hm, hfl]⟩ hp

/-- With messages queued the tracked task is suspended. -/
theorem Inv.one_le (h : v.Inv) (hm : v.msgs ≠ []) : 1 ≤ v.count v.task := by
  have howed : 1 ≤ v.owed := by simp [View.owed, hm]
  exact howed.trans h.owed

/-! ## The changes of a view -/

variable (strict)

/-- The controller writes the status. -/
theorem Inv.setStatus (h : v.Inv) (s : ProcessStatus) :
    Inv { v with status := s } ∧ ExcRely strict v { v with status := s } :=
  ⟨⟨h.queued, h.owed, h.task⟩,
    ⟨rfl, rfl, rfl, fun _ => id, id, fun _ => rfl, fun _ _ => ⟨rfl, rfl⟩⟩⟩

/-- The tracked task changes while nothing is owed. -/
theorem Inv.setTask (h : v.Inv) (p : Port) (hm : v.msgs = []) (ht : v.tested = false)
    (hr : v.resuming = false) : Inv { v with task := p } ∧ ExcRely strict v { v with task := p } ∧
      CtlRely strict v { v with task := p } := by
  have hs : v.suspended = false := by
    by_contra hne
    have := (h.queued (Bool.eq_true_of_not_eq_false hne)).1
    rw [ht] at this
    cases this
  have howed : v.owed = 0 := by simp [View.owed, hm, hs, hr]
  have howed' : View.owed { v with task := p } = 0 := by simp [View.owed, hm, hs, hr]
  refine ⟨⟨h.queued, by rw [howed']; exact Nat.zero_le _, fun hne => absurd howed' hne⟩,
    ⟨rfl, rfl, rfl, fun _ => id, id, fun ht' => ?_, fun _ hs' => ?_⟩,
    ⟨rfl, rfl, id, fun hne => absurd howed hne, fun _ _ => id, fun _ => .inl, fun _ he => ?_⟩⟩
  · rw [ht] at ht'
    cases ht'
  · rw [hs] at hs'
    cases hs'
  · obtain ⟨m, -, -, hheld, -⟩ := he
    rcases hheld with hne | hne
    · exact absurd hm hne
    · rw [hs] at hne
      cases hne

/-- The controller clears a list of queued messages, outside every hand-over. -/
theorem Inv.clear (h : v.Inv) (hm : v.msgs ≠ []) (ht : v.tested = false) (hr : v.resuming = false) :
    Inv { v with msgs := [], resuming := true } ∧
      ExcRely strict v { v with msgs := [], resuming := true } := by
  have hs : v.suspended = false := by
    by_contra hne
    exact hm (h.queued (Bool.eq_true_of_not_eq_false hne)).2
  have howed : v.owed = 1 := by simp [View.owed, hm, hr]
  have howed' : View.owed { v with msgs := [], resuming := true } = 1 := by simp [View.owed, hs]
  refine ⟨⟨fun hs' => ?_, ?_, fun _ => h.task (by omega)⟩,
    ⟨rfl, rfl, rfl, fun ht' => ?_, fun _ => rfl, fun _ => rfl, fun _ _ => ⟨rfl, rfl⟩⟩⟩
  · rw [show v.suspended = true from hs'] at hs
    cases hs
  · rw [howed', ← howed]
    exact h.owed
  · rw [ht] at ht'
    cases ht'

/-- The controller resumes the task after a clear. -/
theorem Inv.resumed (h : v.Inv) (hr : v.resuming = true) :
    Inv { v with count := Function.update v.count v.task (v.count v.task - 1), resuming := false } ∧
      ExcRely strict v
        { v with
          count := Function.update v.count v.task (v.count v.task - 1), resuming := false } := by
  have howed := h.owed
  have hsum : v.owed = View.owed { v with
      count := Function.update v.count v.task (v.count v.task - 1), resuming := false } + 1 := by
    simp [View.owed, hr]
  refine ⟨⟨h.queued, ?_, fun _ => h.task (by omega)⟩,
    ⟨rfl, rfl, rfl, fun _ => id, id, fun _ => rfl, fun _ _ => ⟨rfl, rfl⟩⟩⟩
  simp only [Function.update_self]
  omega

/-- The controller resumes a task while nothing is owed. -/
theorem Inv.resumedFree (h : v.Inv) (t : Port) (hm : v.msgs = []) (hs : v.suspended = false) :
    Inv { v with count := Function.update v.count t (v.count t - 1), resuming := false } ∧
      ExcRely strict v
        { v with count := Function.update v.count t (v.count t - 1), resuming := false } := by
  have howed : View.owed { v with
      count := Function.update v.count t (v.count t - 1), resuming := false } = 0 := by
    simp [View.owed, hm, hs]
  exact ⟨⟨h.queued, howed ▸ Nat.zero_le _, fun hne => absurd howed hne⟩,
    ⟨rfl, rfl, rfl, fun _ => id, id, fun _ => rfl, fun _ _ => ⟨rfl, rfl⟩⟩⟩

/-- The controller writes the single-step flag. -/
theorem Inv.setFlag (h : v.Inv) (b : Bool) :
    Inv { v with flag := b } ∧ ExcRely strict v { v with flag := b } :=
  ⟨⟨h.queued, h.owed, h.task⟩,
    ⟨rfl, rfl, rfl, fun _ => id, id, fun _ => rfl, fun _ _ => ⟨rfl, rfl⟩⟩⟩

/-- The controller writes a debug register while messages are queued. -/
theorem Inv.arm (h : v.Inv) (th : Port) (d : ArmDebugState64) (hm : strict → v.msgs ≠ []) :
    Inv { v with debug := Function.update v.debug th d } ∧
      ExcRely strict v { v with debug := Function.update v.debug th d } := by
  refine ⟨⟨h.queued, h.owed, h.task⟩,
    ⟨rfl, rfl, rfl, fun _ => id, id, fun _ => rfl, fun hs hsusp => ?_⟩⟩
  exact absurd (h.queued hsusp).2 (hm hs)

/-- A message is handed to the process. -/
theorem Inv.hand (h : v.Inv) (m : Message) (hf : v.inFlight = none) :
    Inv { v with inFlight := some m } ∧ CtlRely strict v { v with inFlight := some m } := by
  refine ⟨⟨h.queued, h.owed, h.task⟩,
    ⟨rfl, rfl, id, fun hne => ⟨rfl, hne⟩, fun _ _ => id, fun _ => .inl, fun _ he => ?_⟩⟩
  obtain ⟨x, hx, hmem | ⟨hfl, -⟩, hrest⟩ := he
  · exact ⟨x, hx, .inl hmem, hrest⟩
  · rw [hf] at hfl
    cases hfl

/-- The exception thread tests the list. -/
theorem Inv.test (h : v.Inv) :
    Inv { v with tested := true } ∧ CtlRely strict v { v with tested := true } :=
  ⟨⟨fun hs => ⟨rfl, (h.queued hs).2⟩, h.owed, h.task⟩,
    ⟨rfl, rfl, id, fun hne => ⟨rfl, hne⟩, fun _ _ => id, fun _ => .inl, fun _ => id⟩⟩

/-- The exception thread suspends the task after it found the list empty. -/
theorem Inv.suspend (h : v.Inv) (ht : v.tested = true) (hm : v.msgs = [])
    (hs : v.suspended = false) (hp : v.task ≠ 0) :
    Inv { v with count := Function.update v.count v.task (v.count v.task + 1), suspended := true } ∧
      CtlRely strict v
        { v with
          count := Function.update v.count v.task (v.count v.task + 1), suspended := true } := by
  have howed := h.owed
  have hsum : View.owed { v with
      count := Function.update v.count v.task (v.count v.task + 1), suspended := true } =
        v.owed + 1 := by
    simp [View.owed, hm, hs, Nat.add_comm]
  refine ⟨⟨fun _ => ⟨ht, hm⟩, ?_, fun _ => hp⟩,
    ⟨rfl, rfl, id, fun _ => ⟨rfl, by omega⟩, fun _ _ => id, fun _ => .inl, fun _ he => ?_⟩⟩
  · rw [hsum]
    simp only [Function.update_self]
    omega
  · obtain ⟨m, -, -, hheld, -⟩ := he
    rcases hheld with hne | hne
    · exact absurd hm hne
    · rw [hs] at hne
      cases hne

/-- The exception thread takes the single-step bit of a thread down. -/
theorem Inv.disarm (h : v.Inv) (th : Port) (d : ArmDebugState64)
    (hd : d.mdscrEl1.getLsbD 0 = false) :
    Inv { v with debug := Function.update v.debug th d } ∧
      CtlRely strict v { v with debug := Function.update v.debug th d } := by
  refine ⟨⟨h.queued, h.owed, h.task⟩,
    ⟨rfl, rfl, id, fun hne => ⟨rfl, hne⟩, fun _ _ => id, fun _ => .inl, fun _ he => ?_⟩⟩
  obtain ⟨m, hm, hmem, hheld, hdis⟩ := he
  refine ⟨m, hm, hmem, hheld, fun x hx => ?_⟩
  rcases eq_or_ne x th with rfl | hne
  · simpa using hd
  · simpa [hne] using hdis x hx

/-- The exception thread takes the single-step flag down, with the task suspended and disarmed. -/
theorem Inv.endStep (h : v.Inv) {m : Message} (hf : v.inFlight = some m)
    (hstrict : strict → v.suspended = true ∧ v.Disarmed) :
    Inv { v with flag := false, ender := v.inFlight } ∧
      CtlRely strict v { v with flag := false, ender := v.inFlight } := by
  have hended (hs : strict) : Ended { v with flag := false, ender := v.inFlight } :=
    ⟨m, hf, .inr ⟨hf, (h.queued (hstrict hs).1).2⟩, .inr (hstrict hs).1, (hstrict hs).2⟩
  refine ⟨⟨h.queued, h.owed, h.task⟩,
    ⟨rfl, rfl, id, fun hne => ⟨rfl, hne⟩, fun hs hm _ => ?_, fun hs _ => .inr (hended hs),
      fun hs _ => hended hs⟩⟩
  exact absurd (h.queued (hstrict hs).1).2 hm

/-- The exception thread queues its message, with the task suspended for it or for earlier ones. -/
theorem Inv.push (h : v.Inv) {m : Message} (hf : v.inFlight = some m)
    (hheld : v.msgs ≠ [] ∨ v.suspended = true) :
    Inv { v with msgs := v.msgs ++ [m], inFlight := none, tested := false, suspended := false } ∧
      CtlRely strict v
        { v with
          msgs := v.msgs ++ [m], inFlight := none, tested := false, suspended := false } := by
  have howed : View.owed { v with
      msgs := v.msgs ++ [m], inFlight := none, tested := false, suspended := false } = v.owed := by
    have hnot : ¬ (v.msgs = [] ∧ v.suspended = false) := by
      rintro ⟨hm, hs⟩
      rcases hheld with hne | hne
      · exact hne hm
      · rw [hs] at hne
        cases hne
    simp [View.owed, hnot]
  have hne : v.msgs ++ [m] ≠ [] := by simp
  refine ⟨⟨fun hs => (by cases hs), howed ▸ h.owed, howed ▸ h.task⟩,
    ⟨rfl, rfl, fun _ => hne, fun ho => ⟨rfl, by rw [howed]; exact ho⟩, fun _ _ => id, fun _ => .inl,
      fun _ he => ?_⟩⟩
  obtain ⟨x, hx, hmem, -, hdis⟩ := he
  refine ⟨x, hx, .inl ?_, .inl hne, hdis⟩
  rcases hmem with hmem | ⟨hfl, -⟩
  · exact List.mem_append_left _ hmem
  · rw [hf] at hfl
    cases hfl
    exact List.mem_append_right _ (List.mem_singleton_self _)

/-- The threads of a task that is not suspended change. -/
theorem Inv.changeThreads (h : v.Inv) {t : Port} (ths : List Port) (hz : v.count t = 0) :
    Inv { v with threads := Function.update v.threads t ths } ∧
      CtlRely strict v { v with threads := Function.update v.threads t ths } ∧
      ExcRely strict v { v with threads := Function.update v.threads t ths } := by
  have howed := h.owed
  have hkeep (hheld : v.msgs ≠ [] ∨ v.suspended = true) :
      Function.update v.threads t ths v.task = v.threads v.task := by
    have hpos : v.owed ≠ 0 := by
      rcases hheld with hne | hne <;> simp [View.owed, hne]
    exact Function.update_of_ne (fun he => by subst he; omega) _ _
  refine ⟨⟨h.queued, h.owed, h.task⟩,
    ⟨rfl, rfl, id, fun hne => ⟨rfl, hne⟩, fun _ _ => id, fun _ => .inl, fun _ he => ?_⟩,
    ⟨rfl, rfl, rfl, fun _ => id, id, fun _ => rfl, fun _ hs => ⟨rfl, hkeep (.inr hs)⟩⟩⟩
  obtain ⟨m, hm, hmem, hheld, hdis⟩ := he
  refine ⟨m, hm, hmem, hheld, fun x hx => hdis x ?_⟩
  rw [← hkeep hheld]
  exact hx

end View

/-! ## The view of a state -/

/-- The view of a state. -/
def Traced.view (t : Traced) : View where
  status := t.world.proc.mStatus
  task := t.world.proc.mTask.mTask
  msgs := t.world.proc.mExceptionMessages
  flag := t.world.proc.mSingleStep
  count p := (t.world.kern.task p).suspendCount
  threads p := (t.world.kern.task p).threads
  debug := t.world.kern.debug
  inFlight := t.trace.inFlight
  tested := t.trace.tested
  suspended := t.trace.suspended
  ender := t.trace.ender
  resuming := t.trace.resuming

/-- The parts of the world that the view does not show. -/
def Part.hidden : List Part :=
  [.pid, .excPortInfo, .exceptionPort, .portTable, .ports, .thread, .replied, .queue, .loop, .wait]

/-- The test for an empty list. -/
def Op.isTest : {β : Type} → Op β → Bool
  | _, .member .messagesEmpty => true
  | _, _ => false

/-- The two records agree on what the view shows. -/
def Trace.SameView (r r' : Trace) : Prop :=
  r'.inFlight = r.inFlight ∧ r'.tested = r.tested ∧ r'.suspended = r.suspended ∧
    r'.ender = r.ender ∧ r'.resuming = r.resuming

theorem Trace.byController_sameView {β : Type} {o : Op β} (b : β) (r : Trace)
    (ho : ∀ x ∈ o.part, x ∈ Part.hidden) : r.SameView (r.byController o b) := by
  cases o with
  | member o =>
    cases o
    case clearMessages => exact absurd (ho _ rfl) (by decide)
    all_goals exact ⟨rfl, rfl, rfl, rfl, rfl⟩
  | sys o =>
    cases o
    case taskResume => exact absurd (ho _ rfl) (by decide)
    all_goals exact ⟨rfl, rfl, rfl, rfl, rfl⟩

theorem Trace.byException_sameView {β : Type} {o : Op β} (b : β) (r : Trace)
    (ho : ∀ x ∈ o.part, x ∈ Part.hidden) (ht : o.isTest = false) :
    r.SameView (r.byException o b) := by
  cases o with
  | member o =>
    cases o
    case messagesEmpty => cases ht
    case setSingleStep v => exact absurd (ho _ rfl) (by decide)
    case pushMessage m => exact absurd (ho _ rfl) (by decide)
    all_goals exact ⟨rfl, rfl, rfl, rfl, rfl⟩
  | sys o =>
    cases o
    case taskSuspend t => exact absurd (ho _ rfl) (by decide)
    case machMsgReceive p timeout => cases b <;> exact ⟨rfl, rfl, rfl, rfl, rfl⟩
    all_goals exact ⟨rfl, rfl, rfl, rfl, rfl⟩

/-- Two worlds that agree on what the view shows. -/
theorem view_eq {t t' : Traced} (hsame : ∀ x, x ∉ Part.hidden → t.world.Same t'.world x)
    (hfol : t.world.kern.Follows t'.world.kern) (htrace : t.trace.SameView t'.trace) :
    t'.view = t.view := by
  obtain ⟨hf, ht, hs, he, hr⟩ := htrace
  ext1
  · exact hsame .status (by decide)
  · exact hsame .taskPort (by decide)
  · exact hsame .messages (by decide)
  · exact hsame .singleStep (by decide)
  · exact funext (hsame .suspendCount (by decide)).1
  · exact funext hfol.threads
  · exact hsame .debug (by decide)
  · exact hf
  · exact ht
  · exact hs
  · exact he
  · exact hr

/-- An operation of the controller on hidden parts leaves the view alone. -/
theorem view_controller {β : Type} {o : Op β} {t t' : Traced} {b : β}
    (h : (traced .controller).exec o t = some (b, t')) (ho : ∀ x ∈ o.part, x ∈ Part.hidden) :
    t'.view = t.view := by
  obtain ⟨he, htrace⟩ := traced_exec h
  refine view_eq (fun x hx => exec_same o he fun hp => hx (ho x hp)) (exec_follows o he) ?_
  rw [htrace]
  exact Trace.byController_sameView b _ ho

/-- So does one of the exception thread that is not its test of the list. -/
theorem view_exception {β : Type} {o : Op β} {t t' : Traced} {b : β}
    (h : (traced .exception).exec o t = some (b, t')) (ho : ∀ x ∈ o.part, x ∈ Part.hidden)
    (ht : o.isTest = false) : t'.view = t.view := by
  obtain ⟨he, htrace⟩ := traced_exec h
  refine view_eq (fun x hx => exec_same o he fun hp => hx (ho x hp)) (exec_follows o he) ?_
  rw [htrace]
  exact Trace.byException_sameView b _ ho ht

/-- A `task_suspend` of the exception thread that succeeded. -/
theorem view_taskSuspend {tk : Port} {t t' : Traced}
    (h : (traced .exception).exec (.sys (.taskSuspend tk)) t = some (0, t')) :
    tk ≠ 0 ∧ t'.view = { t.view with
      count := Function.update t.view.count tk (t.view.count tk + 1), suspended := true } := by
  obtain ⟨he, htrace⟩ := traced_exec h
  obtain ⟨hproc, hex⟩ := world_sys_proc he
  obtain ⟨hl, hk⟩ := taskSuspend_ok hex
  refine ⟨fun hz => by simp [hz, Kernel.live] at hl, ?_⟩
  simp only [Traced.view, hproc, hk, htrace]
  ext1 <;> try rfl
  · funext p
    rcases eq_or_ne p tk with rfl | hne <;> simp [Kernel.suspendTask, Kernel.setTask, *]
  · funext p
    rcases eq_or_ne p tk with rfl | hne <;> simp [Kernel.suspendTask, Kernel.setTask, *]

/-- A `task_resume` of the controller that succeeded. -/
theorem view_taskResume {tk : Port} {t t' : Traced}
    (h : (traced .controller).exec (.sys (.taskResume tk)) t = some (0, t')) :
    t'.view = { t.view with
      count := Function.update t.view.count tk (t.view.count tk - 1), resuming := false } := by
  obtain ⟨he, htrace⟩ := traced_exec h
  obtain ⟨hproc, hex⟩ := world_sys_proc he
  simp only [Traced.view, hproc, taskResume_ok hex, htrace]
  ext1 <;> try rfl
  · funext p
    rcases eq_or_ne p tk with rfl | hne <;> simp [Kernel.resumeTask, Kernel.setTask, *]
  · funext p
    rcases eq_or_ne p tk with rfl | hne <;> simp [Kernel.resumeTask, Kernel.setTask, *]

/-- A `thread_set_state` that succeeded. -/
theorem view_threadSetState {who : Thread} {th : Port} {d : ArmDebugState64} {t t' : Traced}
    (h : (traced who).exec (.sys (.threadSetState th d)) t = some (0, t')) :
    t'.view = { t.view with debug := Function.update t.view.debug th d } := by
  obtain ⟨he, htrace⟩ := traced_exec h
  obtain ⟨hproc, hex⟩ := world_sys_proc he
  have hsame : t.world.Same t'.world .suspendCount :=
    exec_same _ he (by simp [Op.part, SysOp.part])
  have htrace' : t'.trace = t.trace := by
    rw [htrace]
    cases who <;> rfl
  simp only [Traced.view, hproc, htrace', threadSetState_ok hex]
  ext1 <;> try rfl
  · exact funext hsame.1
  · exact funext (sys_follows _ hex).threads

end MachDebug
