import MachDebug.Session.Exec

/-!
# Messages that the handlers reject

A handler rejects a message by its return code. The generated server writes the code into the
reply and answers `TRUE`, and the exception thread looks at that answer only: a rejected message
is handed to the process like any other, which suspends the target for the first message and ends
a single step.

## Main definitions

* `Rejected sdk k t msg`: the handler returns `KERN_FAILURE` for the message
* `LeftAlone w w'`: the tracked task, its suspend count, the single-step bits and the flag are
  as before
* `Kernel.suspends k t`: a `task_suspend` of `t` will succeed

## Main results

* `run_received_rejected`: a rejected message is handed to the process
* `rejected_undisturbed_iff`: when a rejected message leaves the session undisturbed
-/

namespace MachDebug

open Program

/-- The handler of the message returns `KERN_FAILURE` while the task `t` is tracked. -/
def Rejected (sdk : Sdk) (k : Kernel) (t : Port) (msg : ExcMsg) : Prop :=
  match sdk.routine msg.msghId with
  | some .raise => msg.task ≠ t ∧ ¬ (k.probe t = false ∧ msg.IsExecTrap)
  | some .raiseState => True
  | some .raiseStateIdentity => True
  | none => False

/-- The record of a rejected message: the failure for the reply, and the tracked task. -/
def rejectedMessage (t : Port) (msg : ExcMsg) : Message := ⟨msg, kernFailure, { taskPort := t }⟩

/-- What a session must not notice of a rejected message. -/
structure LeftAlone (w w' : World) : Prop where
  taskPort : w'.proc.mTask.mTask = w.proc.mTask.mTask
  suspendCount : (w'.kern.task w.proc.mTask.mTask).suspendCount =
    (w.kern.task w.proc.mTask.mTask).suspendCount
  bits : ∀ th, (w'.kern.debug th).mdscrEl1.getLsbD 0 = (w.kern.debug th).mdscrEl1.getLsbD 0
  singleStep : w'.proc.mSingleStep = w.proc.mSingleStep

/-- The next `task_suspend` of a task succeeds: no failure is injected, and the task is live. -/
def Kernel.suspends (k : Kernel) (t : Port) : Bool :=
  (k.faults .taskSuspend (k.calls .taskSuspend)).isNone && k.live t

theorem Kernel.Counted.suspends_eq {c : KCall} {k k' : Kernel} (h : k.Counted c k')
    (hc : c ≠ .taskSuspend) (t : Port) : k'.suspends t = k.suspends t := by
  obtain ⟨n, -, rfl⟩ := h
  simp [Kernel.suspends, Kernel.live, hc.symm]

/-- `Suspend` adds a suspension, or changes nothing. -/
theorem run_suspend_eq (w : World) : ∃ kr, MachTask.suspend.run world w = (.done kr, ⟨w.proc,
    if w.kern.suspends w.proc.mTask.mTask then
      (w.kern.tally .taskSuspend).suspendTask w.proc.mTask.mTask
    else w.kern.tally .taskSuspend⟩) := by
  unfold MachTask.suspend Kernel.suspends
  simp only [Prog.bind_eq, member_bind, run_member, MemberOp.exec, sys, Prog.call]
  cases hf : w.kern.faults .taskSuspend (w.kern.calls .taskSuspend) with
  | some e =>
    refine ⟨e.1, ?_⟩
    rw [run_sys (b := e.1) (k := w.kern.tally .taskSuspend)
      (by simp [SysOp.exec, Kernel.issue, hf])]
    simp
  | none =>
    by_cases hl : w.kern.live w.proc.mTask.mTask = true
    · refine ⟨0, ?_⟩
      rw [run_sys (b := 0) (k := (w.kern.tally .taskSuspend).suspendTask w.proc.mTask.mTask)
        (by simp [SysOp.exec, Kernel.issue, hf, hl])]
      simp [hl]
    · refine ⟨machSendInvalidDest, ?_⟩
      rw [run_sys (b := machSendInvalidDest) (k := w.kern.tally .taskSuspend)
        (by simp [SysOp.exec, Kernel.issue, hf, hl])]
      simp [hl]

/-- With the flag down, a message is queued and the threads are left alone. -/
theorem run_disarmAndQueue_down (m : Message) {w : World} (h : w.proc.mSingleStep = false) :
    (MachProcess.disarmAndQueue m).run world w = (.done (), ⟨w.proc.handed m, w.kern⟩) := by
  simp [MachProcess.disarmAndQueue, run_member, MemberOp.exec, h, MachProcess.handed, member,
    Prog.call]

section Rejected

variable {sdk : Sdk} {l : ExceptionThread.Locals} {msg : ExcMsg} {w : World}

/-- **A rejected message** is handed to the process, with the tracked task in its record. -/
theorem run_received_rejected (h : Rejected sdk w.kern l.task msg) :
    ∃ k l', w.kern.Counted .taskInfo k ∧ (ExceptionThread.received sdk l msg).run world w =
      ((MachProcess.exceptionMessageReceived (rejectedMessage l.task msg)).bind
        fun _ => Prog.ret l').run world ⟨w.proc, k⟩ := by
  obtain ⟨k, l', hk, hrun⟩ := run_received sdk l msg w
  have hcaught : caught sdk w.kern l.task msg = (true, rejectedMessage l.task msg) := by
    unfold Rejected at h
    unfold caught rejectedMessage
    cases hr : sdk.routine msg.msghId with
    | none =>
      rw [hr] at h
      cases h
    | some r =>
      rw [hr] at h
      cases r with
      | raise =>
        have hnot := not_or.mpr h
        simp only [if_neg hnot]
      | raiseState => rfl
      | raiseStateIdentity => rfl
  have hswitched : w.proc.switched l.task (rejectedMessage l.task msg) = w.proc := by
    simp [MachProcess.switched, rejectedMessage]
  refine ⟨k, l', hk, ?_⟩
  rw [hrun, hcaught, hswitched]
  rfl

/-- A message to a process without queued ones suspends the target, if the call succeeds. -/
theorem exceptionMessageReceived_suspendCount {m : Message} {w' : World}
    (hms : w.proc.mExceptionMessages = []) (hs : w.kern.suspends w.proc.mTask.mTask = true)
    (h : (MachProcess.exceptionMessageReceived m).run world w = (.done (), w')) :
    (w'.kern.task w.proc.mTask.mTask).suspendCount =
      (w.kern.task w.proc.mTask.mTask).suspendCount + 1 := by
  obtain ⟨kr, hsus⟩ := run_suspend_eq w
  rw [if_pos hs] at hsus
  simp only [MachProcess.exceptionMessageReceived, Prog.bind_eq, member_bind, run_member,
    MemberOp.exec, hms, List.isEmpty_nil, if_true, Prog.run_bind_done (h := hsus)] at h
  have hsame := ((disarmAndQueue_within m).same h (x := .suspendCount) (by decide)).1
  rw [hsame]
  simp [Kernel.suspendTask, Kernel.setTask]

/-- With the flag down and the suspension skipped or refused, a message changes nothing but the
queue. -/
theorem run_exceptionMessageReceived_quiet (m : Message) (hstep : w.proc.mSingleStep = false)
    (h : w.proc.mExceptionMessages ≠ [] ∨ w.kern.suspends w.proc.mTask.mTask = false) :
    ∃ k, w.kern.Recounted k ∧
      (MachProcess.exceptionMessageReceived m).run world w = (.done (), ⟨w.proc.handed m, k⟩) := by
  by_cases hms : w.proc.mExceptionMessages = []
  · have hs := h.resolve_left (not_not_intro hms)
    obtain ⟨kr, hsus⟩ := run_suspend_eq w
    rw [hs] at hsus
    refine ⟨w.kern.tally .taskSuspend, (Kernel.Counted.tally _ _).recounted, ?_⟩
    simp only [MachProcess.exceptionMessageReceived, Prog.bind_eq, member_bind, run_member,
      MemberOp.exec, hms, List.isEmpty_nil, if_true, Prog.run_bind_done (h := hsus)]
    exact run_disarmAndQueue_down m hstep
  · refine ⟨w.kern, .refl _, ?_⟩
    rw [run_exceptionMessageReceived_queued m hms]
    exact run_disarmAndQueue_down m hstep

/-- **A rejected message** leaves the session undisturbed if and only if no single step is under
way, and another message is queued already or the target cannot be suspended. -/
theorem rejected_undisturbed_iff (h : Rejected sdk w.kern l.task msg) :
    (∃ l' w', (ExceptionThread.received sdk l msg).run world w = (.done l', w') ∧
      LeftAlone w w') ↔
    (w.proc.mExceptionMessages ≠ [] ∨ w.kern.suspends w.proc.mTask.mTask = false) ∧
      w.proc.mSingleStep = false := by
  obtain ⟨k, l', hk, hrun⟩ := run_received_rejected h
  rw [hrun]
  constructor
  · rintro ⟨l'', w', hrec, hund⟩
    obtain ⟨u, w₁, hmsg, hret⟩ := Prog.run_bind_eq_done world hrec
    cases hret
    constructor
    -- the first message would have suspended the target
    · by_contra hcon
      simp only [not_or, not_not, Bool.not_eq_false] at hcon
      obtain ⟨hms, hs⟩ := hcon
      have hcount := exceptionMessageReceived_suspendCount (w := ⟨w.proc, k⟩) hms
        ((hk.suspends_eq (by decide) _).trans hs) hmsg
      have hbefore := (hk.recounted.same (w := w) .suspendCount).1 w.proc.mTask.mTask
      rw [hund.suspendCount, hbefore] at hcount
      omega
    · have hflag := hund.singleStep
      rw [exceptionMessageReceived_proc hmsg] at hflag
      exact hflag.symm
  · rintro ⟨hskip, hstep⟩
    -- catching the message has only counted a call
    have hskip' : w.proc.mExceptionMessages ≠ [] ∨ k.suspends w.proc.mTask.mTask = false := by
      rwa [hk.suspends_eq (by decide)]
    obtain ⟨k', hk', hmsg⟩ := run_exceptionMessageReceived_quiet (w := ⟨w.proc, k⟩)
      (rejectedMessage l.task msg) hstep hskip'
    have hcount := hk.recounted.trans hk'
    refine ⟨l', ⟨w.proc.handed (rejectedMessage l.task msg), k'⟩, ?_, ?_⟩
    · rw [Prog.run_bind_done (h := hmsg)]
      rfl
    · constructor
      · rfl
      · exact (hcount.same (w := w) .suspendCount).1 _
      · intro th
        rw [show k'.debug = w.kern.debug from hcount.same (w := w) .debug]
      · exact hstep.symm

end Rejected

/-- A breakpoint exception of the task `2`, a child of the target that has inherited its exception
ports. -/
def ExcMsg.ofChild : ExcMsg := { ExcMsg.breakpoint with task := 2, thread := 21 }

/-- While a breakpoint of the target is queued, the child's message disturbs nothing. -/
theorem rejected_undisturbed_queued : ∃ s : Session,
    Attached .macos (fun _ => True) ⟨{}, .execing⟩ 7 [] s ∧
    ∃ l w', (ExceptionThread.received .macos ⟨s.state.proc.mTask.mTask, 1⟩ .ofChild).run world
      s.state = (.done l, w') ∧ LeftAlone s.state w' := by
  obtain ⟨s, hs, hrej, hms, hstep⟩ : ∃ s : Session,
      Attached .macos (fun _ => True) ⟨{}, .execing⟩ 7 [] s ∧
      Rejected .macos s.state.kern s.state.proc.mTask.mTask .ofChild ∧
      s.state.proc.mExceptionMessages ≠ [] ∧ s.state.proc.mSingleStep = false := by
    refine ⟨_, ⟨_, _, rfl, Relation.ReflTransGen.tail (Relation.ReflTransGen.single
      ⟨.event (.send .breakpoint), ⟨trivial, trivial⟩, .event _⟩)
      ⟨.turn, ⟨trivial, trivial⟩, .turn (n := 0) rfl rfl⟩⟩, ⟨by decide, by decide⟩,
      List.cons_ne_nil _ _, rfl⟩
  exact ⟨s, hs, (rejected_undisturbed_iff (l := ⟨_, 1⟩) hrej).mpr ⟨.inl hms, hstep⟩⟩

/-- With no message queued, the child's message suspends the target. -/
theorem rejected_suspends_target : ∃ s : Session,
    Attached .macos (fun _ => True) ⟨{}, .execing⟩ 7 [] s ∧
    Rejected .macos s.state.kern s.state.proc.mTask.mTask .ofChild ∧
    ∃ l w', (ExceptionThread.received .macos ⟨s.state.proc.mTask.mTask, 0⟩ .ofChild).run world
      s.state = (.done l, w') ∧ ¬ LeftAlone s.state w' := by
  refine ⟨_, ⟨_, _, rfl, .refl⟩, ⟨by decide, by decide⟩, _, _, rfl, fun hund => ?_⟩
  exact absurd hund.suspendCount (by decide)

end MachDebug
