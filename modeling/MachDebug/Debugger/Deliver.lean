import MachDebug.Debugger.Run

/-!
# A turn of the exception thread

What a turn of the exception thread does when it runs alone: it takes the first message of the
queue, catches it, and hands it to the process, which suspends the target if it was the first one.

## Main definitions

* `caught sdk k t msg`: what catching a message gives, while the task `t` is tracked
* `MachProcess.switched`: the process after an exec has been noticed

## Main results

* `turn_outcome`: what a turn that returns has done with the first message of the queue
* `run_exceptionMessageReceived`: the process after a message was handed to it
-/

namespace MachDebug

open Program

/-! ## A turn of the exception thread -/

/-- The rest of a turn after the validity probe. -/
theorem run_probe {α : Type} (t : Port) (f : Bool → α) (w : World) : ∃ a k, w.kern.Recounted k ∧
    ((MachTask.isValid t).bind fun b => Prog.ret (f b)).run world w = (.done a, ⟨w.proc, k⟩) := by
  obtain ⟨k, hk, hrun⟩ := run_isValid t w
  exact ⟨_, k, hk.recounted, Prog.run_bind_done (h := hrun)⟩

/-- A turn that received nothing probes the task at most. -/
theorem run_notReceived (l : ExceptionThread.Locals) (kr : KernReturn) (w : World) :
    ∃ r k, w.kern.Recounted k ∧
      (ExceptionThread.notReceived l kr).run world w = (.done r, ⟨w.proc, k⟩) := by
  have hsame (r : ExceptionThread.Turn) : ∃ r' k, w.kern.Recounted k ∧
      (Prog.ret r : Code ExceptionThread.Turn).run world w = (.done r', ⟨w.proc, k⟩) :=
    ⟨r, w.kern, .refl _, rfl⟩
  unfold ExceptionThread.notReceived
  simp only [Prog.bind_eq, member_bind, Prog.pure_eq, ← apply_ite Prog.ret]
  split
  · rw [run_member]
    cases hv : ExceptionThread.machPortValid w.proc.mTask.mExceptionPort with
    | false => exact ⟨.exit, w.kern, .refl _, by simp [MemberOp.exec, hv]⟩
    | true => simpa [MemberOp.exec, hv] using run_probe _ _ w
  · split
    · split
      · exact run_probe _ _ w
      · exact hsame _
    · exact hsame _

/-- The exception thread takes the next message: its port is valid, it has not been cancelled, and
the receive does not fail. -/
def World.receives (w : World) : Bool :=
  ExceptionThread.machPortValid w.proc.mTask.mExceptionPort && !w.kern.cancelled &&
    (w.kern.faults .machMsgReceive (w.kern.calls .machMsgReceive)).isNone

/-- A turn that returns has delivered nothing, or the first message of the queue. -/
theorem turn_inv {sdk : Sdk} {l : ExceptionThread.Locals} {w w' : World} {r : ExceptionThread.Turn}
    (h : (ExceptionThread.turn sdk l).run world w = (.done r, w')) :
    ((w.receives = true → w.kern.queue = []) ∧ w'.proc = w.proc ∧ w.kern.Recounted w'.kern) ∨
    ∃ msg rest l', w.receives = true ∧ w.kern.queue = msg :: rest ∧
      (ExceptionThread.received sdk l msg).run world
        ⟨w.proc, { w.kern.tally .machMsgReceive with queue := rest }⟩ = (.done l', w') := by
  have herror (kr : KernReturn) (k : Kernel) (hk : w.kern.Recounted k)
      (h : (ExceptionThread.notReceived l kr).run world ⟨w.proc, k⟩ = (.done r, w')) :
      w'.proc = w.proc ∧ w.kern.Recounted w'.kern := by
    obtain ⟨r', k', hk', hrun⟩ := run_notReceived l kr ⟨w.proc, k⟩
    obtain ⟨-, rfl⟩ := Prod.mk.inj (h.symm.trans hrun)
    exact ⟨rfl, hk.trans hk'⟩
  have htally := (Kernel.Counted.tally .machMsgReceive w.kern).recounted
  unfold ExceptionThread.turn at h
  simp only [Prog.bind_eq, member_bind, sys_bind, run_member, MemberOp.exec] at h
  cases hv : ExceptionThread.machPortValid w.proc.mTask.mExceptionPort with
  | false =>
    simp only [hv, Bool.not_false, if_true] at h
    cases h
    exact .inl ⟨by simp [World.receives, hv], rfl, .refl _⟩
  | true => ?_
  simp only [hv, Bool.not_true, Bool.false_eq_true, if_false] at h
  rw [run_sys (b := w.kern.cancelled) (k := w.kern) rfl] at h
  cases hc : w.kern.cancelled with
  | true =>
    simp only [hc, if_true] at h
    cases h
    exact .inl ⟨by simp [World.receives, hc], rfl, .refl _⟩
  | false => ?_
  simp only [hc, Bool.false_eq_true, if_false, run_member, MemberOp.exec] at h
  -- what the timeout is does not matter here
  generalize (if l.numExceptionsReceived > 0 then some 1 else
    if ExceptionThread.periodicTimeout > 0 then some ExceptionThread.periodicTimeout else none) =
    timeout at h
  cases hf : w.kern.faults .machMsgReceive (w.kern.calls .machMsgReceive) with
  | some e =>
    rw [run_sys (b := .error e.1) (k := w.kern.tally .machMsgReceive)] at h
    · exact .inl ⟨by simp [World.receives, hf], herror e.1 _ htally h⟩
    · cases hq : w.kern.queue <;> cases timeout <;> simp [SysOp.exec, Kernel.issue, hq, hf]
  | none =>
    cases hq : w.kern.queue with
    | nil =>
      -- without a message and a timeout the receive blocks, and the turn has not returned
      cases timeout with
      | none => simp [Prog.run, SysOp.exec, hq, hf] at h
      | some n =>
        rw [run_sys (b := .error machRcvTimedOut) (k := w.kern.tally .machMsgReceive)
          (by simp [SysOp.exec, Kernel.issue, hq, hf])] at h
        exact .inl ⟨fun _ => rfl, herror _ _ htally h⟩
    | cons msg rest =>
      rw [run_sys (b := .ok msg) (k := { w.kern.tally .machMsgReceive with queue := rest })
        (by simp [SysOp.exec, Kernel.issue, hq, hf])] at h
      obtain ⟨l', w₁, hrec, hret⟩ := Prog.run_bind_eq_done world h
      cases hret
      exact .inr ⟨msg, rest, l', by simp [World.receives, hv, hc, hf], rfl, hrec⟩

/-! ## Catching a message -/

/-- The message of a process that has replaced its image: a soft signal `SIGTRAP`. -/
def ExcMsg.IsExecTrap (msg : ExcMsg) : Prop :=
  msg.excType = excSoftware ∧ msg.codes = [excSoftSignal, sigtrap]

instance (msg : ExcMsg) : Decidable msg.IsExecTrap := inferInstanceAs (Decidable (_ ∧ _))

/-- What catching a message gives while the task `t` is tracked: whether the server took it, and
the message with the data caught. -/
def caught (sdk : Sdk) (k : Kernel) (t : Port) (msg : ExcMsg) : Bool × Message :=
  match sdk.routine msg.msghId with
  | some .raise =>
    if msg.task = t ∨ (k.probe t = false ∧ msg.IsExecTrap) then
      (true, ⟨msg, 0, ⟨msg.task, msg.thread, msg.excType, msg.codes⟩⟩)
    else (true, ⟨msg, kernFailure, { taskPort := t }⟩)
  | some .raiseState => (true, ⟨msg, kernFailure, { taskPort := t }⟩)
  | some .raiseStateIdentity => (true, ⟨msg, kernFailure, { taskPort := t }⟩)
  | none => (false, ⟨msg, migBadId, { taskPort := t }⟩)

/-- `CatchExceptionRaise` answers `caught`, and probes the tracked task at most. -/
theorem run_catchExceptionRaise (sdk : Sdk) (msg : ExcMsg) (t : Port) (w : World) :
    ∃ k, w.kern.Counted .taskInfo k ∧ (Message.catchExceptionRaise sdk msg t).run world w =
      (.done (caught sdk w.kern t msg), ⟨w.proc, k⟩) := by
  unfold Message.catchExceptionRaise machExcServer caught
  cases sdk.routine msg.msghId with
  | none => exact ⟨w.kern, .refl _ _, rfl⟩
  | some r =>
    cases r with
    | raiseState => exact ⟨w.kern, .refl _ _, rfl⟩
    | raiseStateIdentity => exact ⟨w.kern, .refl _ _, rfl⟩
    | raise =>
      unfold catchMachExceptionRaise
      -- the tracked task is probed only for the message of another one
      by_cases ht : msg.task = t
      · exact ⟨w.kern, .refl _ _, by simp [ht]⟩
      · obtain ⟨k, hk, hrun⟩ := run_isValid t w
        refine ⟨k, hk, ?_⟩
        simp only [ht, if_false, Prog.bind_eq, Prog.bind_assoc, false_or]
        rw [Prog.run_bind_done (h := hrun)]
        cases hp : w.kern.probe t with
        | true => simp
        | false =>
          by_cases he : msg.IsExecTrap
          · have he' := he
            unfold ExcMsg.IsExecTrap at he'
            simp [he, he'.1, he'.2]
          · have he' := he
            unfold ExcMsg.IsExecTrap at he'
            simp [he, he']

/-- The process after an exec has been noticed: the tracked task is the message's. -/
def MachProcess.switched (p : MachProcess) (t : Port) (m : Message) : MachProcess :=
  if m.state.taskPort ≠ t ∧ m.state.isValid then { p with mTask.mTask := m.state.taskPort } else p

@[simp] theorem switched_messages (p : MachProcess) (t : Port) (m : Message) :
    (p.switched t m).mExceptionMessages = p.mExceptionMessages := by
  unfold MachProcess.switched
  split <;> rfl

@[simp] theorem caught_excMsg (sdk : Sdk) (k : Kernel) (t : Port) (msg : ExcMsg) :
    (caught sdk k t msg).2.excMsg = msg := by
  unfold caught
  split
  · split <;> rfl
  all_goals rfl

/-- The server takes the messages that it has a routine for. -/
theorem caught_fst (sdk : Sdk) (k : Kernel) (t : Port) (msg : ExcMsg) :
    (caught sdk k t msg).1 = (sdk.routine msg.msghId).isSome := by
  unfold caught
  cases sdk.routine msg.msghId with
  | none => rfl
  | some r =>
    cases r with
    | raise => simp [apply_ite Prod.fst]
    | raiseState => rfl
    | raiseStateIdentity => rfl

/-- A message caught while the tracked task is valid is one of that task. -/
theorem taskPort_caught {sdk : Sdk} {k : Kernel} {t : Port} (hp : k.probe t = true)
    (msg : ExcMsg) : (caught sdk k t msg).2.state.taskPort = t := by
  unfold caught
  split
  · by_cases ht : msg.task = t <;> simp [ht, hp]
  all_goals rfl

/-- So no exec is noticed. -/
theorem switched_caught {sdk : Sdk} {k : Kernel} {t : Port} (hp : k.probe t = true) (msg : ExcMsg)
    (p : MachProcess) : p.switched t (caught sdk k t msg).2 = p := by
  simp [MachProcess.switched, taskPort_caught hp]

/-- A message that the server takes is handed to the process. -/
theorem run_received (sdk : Sdk) (l : ExceptionThread.Locals) (msg : ExcMsg) (w : World) :
    ∃ k l', w.kern.Counted .taskInfo k ∧ (ExceptionThread.received sdk l msg).run world w =
      if (caught sdk w.kern l.task msg).1 then
        ((MachProcess.exceptionMessageReceived (caught sdk w.kern l.task msg).2).bind
          fun _ => Prog.ret l').run world
          ⟨w.proc.switched l.task (caught sdk w.kern l.task msg).2, k⟩
      else (.done l, ⟨w.proc, k⟩) := by
  obtain ⟨k, hk, hrun⟩ := run_catchExceptionRaise sdk msg l.task w
  unfold ExceptionThread.received MachProcess.switched
  generalize caught sdk w.kern l.task msg = c at hrun ⊢
  simp only [Prog.bind_eq, Prog.run_bind_done (h := hrun)]
  by_cases hc : c.1 = true
  · by_cases hs : c.2.state.taskPort ≠ l.task ∧ c.2.state.isValid = true
    · refine ⟨k, ⟨c.2.state.taskPort, l.numExceptionsReceived + 1⟩, hk, ?_⟩
      rw [if_pos hc, if_pos hc, if_pos hs, if_pos hs]
      rfl
    · refine ⟨k, { l with numExceptionsReceived := l.numExceptionsReceived + 1 }, hk, ?_⟩
      rw [if_pos hc, if_pos hc, if_neg hs, if_neg hs]
      rfl
  · refine ⟨k, l, hk, ?_⟩
    rw [if_neg hc, if_neg hc]
    rfl

/-- **A turn** that returns has received nothing, or taken the first message of the queue: the
process is handed a message that the server takes, and never sees another one. -/
theorem turn_outcome {sdk : Sdk} {l : ExceptionThread.Locals} {w w' : World}
    {r : ExceptionThread.Turn} (h : (ExceptionThread.turn sdk l).run world w = (.done r, w')) :
    ∃ k, w.kern.Follows k ∧ (∀ x, x ≠ .queue → w.Same ⟨w.proc, k⟩ x) ∧
      (((w.receives = true → w.kern.queue = []) ∧ k.queue = w.kern.queue ∧ w' = ⟨w.proc, k⟩) ∨
        ∃ msg, w.receives = true ∧ w.kern.queue = msg :: k.queue ∧
          if (sdk.routine msg.msghId).isSome then
            (MachProcess.exceptionMessageReceived (caught sdk w.kern l.task msg).2).run world
              ⟨w.proc.switched l.task (caught sdk w.kern l.task msg).2, k⟩ = (.done (), w')
          else w' = ⟨w.proc, k⟩) := by
  rcases turn_inv h with ⟨hidle, hproc, hk⟩ | ⟨msg, rest, l', hreceives, hq, hrec⟩
  · obtain ⟨p, k⟩ := w'
    obtain rfl : p = w.proc := hproc
    exact ⟨k, hk.follows, fun x _ => hk.same x, .inl ⟨hidle, hk.same .queue, rfl⟩⟩
  · obtain ⟨k, l'', hk, hrec'⟩ := run_received sdk l msg
      ⟨w.proc, { w.kern.tally .machMsgReceive with queue := rest }⟩
    have hcaught : caught sdk { w.kern.tally .machMsgReceive with queue := rest } l.task msg =
        caught sdk w.kern l.task msg := by
      have hprobe : Kernel.probe { w.kern.tally .machMsgReceive with queue := rest } l.task =
          w.kern.probe l.task := by
        simp [Kernel.probe, Kernel.tally, Kernel.live]
      simp only [caught, hprobe]
    have hk := hk.recounted
    have hqueue : k.queue = rest := hk.same .queue
    have hpop : w.kern.Follows { w.kern.tally .machMsgReceive with queue := rest } := by
      obtain ⟨a, b, c, d, e, f, g, i⟩ := Kernel.Follows.tally w.kern .machMsgReceive
      exact ⟨a, b, c, d, e, f, g, i⟩
    -- nothing but the queue has changed before the hand-over
    have hsame : ∀ x, x ≠ .queue → w.Same ⟨w.proc, k⟩ x := by
      intro x hx
      refine World.Same.trans ?_ (hk.same x)
      cases x <;> first | exact absurd rfl hx | simp [World.Same, Kernel.tally]
    refine ⟨k, hpop.trans hk.follows, hsame, .inr ⟨msg, hreceives, by rw [hq, hqueue], ?_⟩⟩
    rw [hcaught, hrec, caught_fst] at hrec'
    split
    · rw [if_pos ‹_›] at hrec'
      obtain ⟨a, w₁, hmsg, hret⟩ := Prog.run_bind_eq_done world hrec'.symm
      cases hret
      exact hmsg
    · rw [if_neg ‹_›] at hrec'
      cases hrec'
      rfl

/-- A turn that returns has left the process alone, or handed it the first message of the queue. -/
theorem turn_cases {sdk : Sdk} {l : ExceptionThread.Locals} {w w' : World}
    {r : ExceptionThread.Turn} (h : (ExceptionThread.turn sdk l).run world w = (.done r, w')) :
    ∃ k, w.kern.Follows k ∧ (∀ x, x ≠ .queue → w.Same ⟨w.proc, k⟩ x) ∧
      ((w' = ⟨w.proc, k⟩ ∧ k.queue <:+ w.kern.queue) ∨
        ∃ msg, w.kern.queue = msg :: k.queue ∧
          (MachProcess.exceptionMessageReceived (caught sdk w.kern l.task msg).2).run world
            ⟨w.proc.switched l.task (caught sdk w.kern l.task msg).2, k⟩ = (.done (), w')) := by
  obtain ⟨k, hk, hsame, ⟨-, hq, rfl⟩ | ⟨msg, -, hq, hrest⟩⟩ := turn_outcome h
  · exact ⟨k, hk, hsame, .inl ⟨rfl, hq ▸ List.suffix_rfl⟩⟩
  · refine ⟨k, hk, hsame, ?_⟩
    split at hrest
    · exact .inr ⟨msg, hq, hrest⟩
    · exact .inl ⟨hrest, by rw [hq]; exact List.suffix_cons msg k.queue⟩

/-! ## Handing a message to the process -/

/-- The process after a message was handed to it. -/
def MachProcess.handed (p : MachProcess) (m : Message) : MachProcess :=
  { p with mExceptionMessages := p.mExceptionMessages ++ [m], mSingleStep := false }

/-- The kernel after the first of the messages has suspended the task. -/
def Kernel.suspendedFirst (k : Kernel) (t : Port) (ms : List Message) : Kernel :=
  if ms.isEmpty then (k.tally .taskSuspend).suspendTask t else k

/-- The message is queued and the flag is down at the end. -/
theorem disarmAndQueue_proc {m : Message} {w w' : World}
    (h : (MachProcess.disarmAndQueue m).run world w = (.done (), w')) :
    w'.proc = w.proc.handed m := by
  unfold MachProcess.disarmAndQueue at h
  simp only [Prog.bind_eq, member_bind, run_member, MemberOp.exec] at h
  by_cases hb : w.proc.mSingleStep = true
  · simp only [hb, if_true] at h
    obtain ⟨u, w₁, hdis, hrest⟩ := Prog.run_bind_eq_done world h
    have hproc : w₁.proc = w.proc := by
      have hw : Within [.debug] MachTask.disableSingleStep := updateSingleStep_within _
      simpa only [hdis] using hw.run_proc (by decide) w
    cases hrest
    simp [MachProcess.handed, MemberOp.exec, hproc]
  · simp only [hb] at h
    cases h
    simp [MachProcess.handed, MemberOp.exec, hb]

/-- With messages queued the target is not suspended again. -/
theorem run_exceptionMessageReceived_queued (m : Message) {w : World}
    (h : w.proc.mExceptionMessages ≠ []) : (MachProcess.exceptionMessageReceived m).run world w =
      (MachProcess.disarmAndQueue m).run world w := by
  have hqueued : w.proc.mExceptionMessages.isEmpty ≠ true := by simpa using h
  simp [MachProcess.exceptionMessageReceived, run_member, MemberOp.exec, hqueued]

/-- Handing a message to the process queues it and takes the flag down. -/
theorem exceptionMessageReceived_proc {m : Message} {w w' : World}
    (h : (MachProcess.exceptionMessageReceived m).run world w = (.done (), w')) :
    w'.proc = w.proc.handed m := by
  by_cases hb : w.proc.mExceptionMessages.isEmpty = true
  · simp only [MachProcess.exceptionMessageReceived, Prog.bind_eq, member_bind, run_member,
      MemberOp.exec, hb, if_true] at h
    obtain ⟨kr, w₁, hsus, hrest⟩ := Prog.run_bind_eq_done world h
    have hproc : w₁.proc = w.proc := by
      simpa only [hsus] using suspend_within.run_proc (by decide) w
    rw [disarmAndQueue_proc hrest, hproc]
  · rw [run_exceptionMessageReceived_queued m (by simpa using hb)] at h
    exact disarmAndQueue_proc h

/-- Without failures the message is queued, and no suspension happens on the way. -/
theorem run_disarmAndQueue (m : Message) {w : World} (hk : w.kern.FaultFree)
    (hl : w.kern.live w.proc.mTask.mTask = true) :
    ∃ k, (MachProcess.disarmAndQueue m).run world w = (.done (), ⟨w.proc.handed m, k⟩) ∧
      (∀ t, (k.task t).suspendCount = (w.kern.task t).suspendCount) ∧
      k.issued = w.kern.issued := by
  obtain ⟨w', hrun⟩ : ∃ w', (MachProcess.disarmAndQueue m).run world w = (.done (), w') := by
    obtain ⟨k, hdis, -⟩ :=
      run_updateSingleStep (fun r => r &&& (~~~MachTask.ssEnable).setWidth 64) hk hl
    unfold MachProcess.disarmAndQueue MachTask.disableSingleStep
    simp only [Prog.bind_eq, member_bind, run_member, MemberOp.exec]
    by_cases hb : w.proc.mSingleStep = true
    · simp only [hb, if_true, Prog.run_bind_done (h := hdis)]
      exact ⟨_, rfl⟩
    · simp only [hb]
      exact ⟨_, rfl⟩
  have hsame := (disarmAndQueue_within m).run_same (x := .suspendCount) (by decide) w
  rw [hrun] at hsame
  refine ⟨w'.kern, ?_, hsame⟩
  rw [← disarmAndQueue_proc hrun]
  exact hrun

/-- **Handing a message to a process** with a live task suspends the task if no other message is
queued. -/
theorem run_exceptionMessageReceived (m : Message) {w : World} (hk : w.kern.FaultFree)
    (hl : w.kern.live w.proc.mTask.mTask = true) :
    ∃ k, (MachProcess.exceptionMessageReceived m).run world w = (.done (), ⟨w.proc.handed m, k⟩) ∧
      (∀ t, (k.task t).suspendCount = ((w.kern.suspendedFirst w.proc.mTask.mTask
        w.proc.mExceptionMessages).task t).suspendCount) ∧
      k.issued = (w.kern.suspendedFirst w.proc.mTask.mTask w.proc.mExceptionMessages).issued := by
  unfold Kernel.suspendedFirst
  by_cases hb : w.proc.mExceptionMessages.isEmpty = true
  · have hsus := run_suspend hk hl
    have hfol : w.kern.Follows ((w.kern.tally .taskSuspend).suspendTask w.proc.mTask.mTask) := by
      simpa only [hsus] using run_follows MachTask.suspend w
    simp only [MachProcess.exceptionMessageReceived, Prog.bind_eq, member_bind, run_member,
      MemberOp.exec, hb, if_true, Prog.run_bind_done (h := hsus)]
    exact run_disarmAndQueue m
      (w := ⟨w.proc, (w.kern.tally .taskSuspend).suspendTask w.proc.mTask.mTask⟩)
      (hfol.faultFree hk) ((hfol.live _).trans hl)
  · rw [run_exceptionMessageReceived_queued m (by simpa using hb), if_neg hb]
    exact run_disarmAndQueue m hk hl

end MachDebug
