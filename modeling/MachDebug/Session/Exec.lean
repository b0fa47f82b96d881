import MachDebug.Session.Serial

/-!
# The exec hand-over

When the target replaces its image, the first message of the new task moves the tracked task and
is queued like any other. The suspension depends on the queue alone: with messages of the old task
still queued, the new task is not suspended. So the hand-over works exactly when the queue is
empty.

## Main definitions

* `ExecAccepted sdk w msg`: the message is accepted as the first one of a new task
* `HandedOver sdk n w msg`: the new task is suspended, and a following `Resume` replies to every
  queued message

## Main results

* `run_received_exec`: an accepted message moves the tracked task and is handed to the process
* `exec_handOver_iff`: the hand-over works exactly when no message was queued
-/

namespace MachDebug

open Program

/-- A message that is accepted as an exec: the tracked task is dead, and a soft signal `SIGTRAP`
arrives for another one. -/
structure ExecAccepted (sdk : Sdk) (w : World) (msg : ExcMsg) : Prop where
  raise : sdk.routine msg.msghId = some .raise
  trap : msg.IsExecTrap
  task : msg.task ≠ 0
  thread : msg.thread ≠ 0
  other : msg.task ≠ w.proc.mTask.mTask
  dead : w.kern.live w.proc.mTask.mTask = false

/-- The record made of an accepted message. -/
def execMessage (msg : ExcMsg) : Message :=
  ⟨msg, 0, ⟨msg.task, msg.thread, msg.excType, msg.codes⟩⟩

/-- The new task is suspended after `ExceptionMessageReceived`, and a following `Resume`, called in
the status it asserts, returns and has replied to every queued message. -/
def HandedOver (sdk : Sdk) (n : BitVec 32) (w : World) (msg : ExcMsg) : Prop :=
  ∃ l w', (ExceptionThread.received sdk ⟨w.proc.mTask.mTask, n⟩ msg).run world w = (.done l, w') ∧
    w'.proc.mTask.mTask = msg.task ∧ 1 ≤ (w'.kern.task msg.task).suspendCount ∧
    ∃ w'', MachProcess.resume.run world ⟨{ w'.proc with mStatus := .stop }, w'.kern⟩ =
        (.done (), w'') ∧
      ∀ m ∈ w'.proc.mExceptionMessages, m.excMsg.serial ∈ w''.kern.replied

section Received

variable {sdk : Sdk} {w : World} {msg : ExcMsg}

/-- The record of an accepted message is the message's own data. -/
theorem ExecAccepted.caught_eq (h : ExecAccepted sdk w msg) :
    caught sdk w.kern w.proc.mTask.mTask msg = (true, execMessage msg) := by
  have hprobe : w.kern.probe w.proc.mTask.mTask = false := by simp [Kernel.probe, h.dead]
  simp [caught, h.raise, h.trap, hprobe, execMessage]

/-- The record of an accepted message is valid, and moves the tracked task. -/
theorem ExecAccepted.switched_eq (h : ExecAccepted sdk w msg) :
    w.proc.switched w.proc.mTask.mTask (execMessage msg) =
      { w.proc with mTask.mTask := msg.task } := by
  have hvalid : (execMessage msg).state.isValid = true := by
    simp [execMessage, Data.isValid, h.task, h.thread, h.trap.1, excSoftware]
  have hne : (execMessage msg).state.taskPort ≠ w.proc.mTask.mTask := h.other
  simp only [MachProcess.switched, hne, hvalid, ne_eq, not_false_eq_true, and_self, if_true]
  rfl

/-- An accepted message moves the tracked task and is handed to the process. -/
theorem ExecAccepted.run_received (h : ExecAccepted sdk w msg) (n : BitVec 32) :
    ∃ k l', w.kern.Recounted k ∧
      (ExceptionThread.received sdk ⟨w.proc.mTask.mTask, n⟩ msg).run world w =
        ((MachProcess.exceptionMessageReceived (execMessage msg)).bind
          fun _ => Prog.ret l').run world ⟨{ w.proc with mTask.mTask := msg.task }, k⟩ := by
  obtain ⟨k, l', hk, hrun⟩ := MachDebug.run_received sdk ⟨w.proc.mTask.mTask, n⟩ msg w
  refine ⟨k, l', hk.recounted, ?_⟩
  rw [hrun, h.caught_eq, h.switched_eq]
  rfl

end Received

/-- With messages queued, the new task is not suspended. -/
theorem not_handedOver {sdk : Sdk} {n : BitVec 32} {w : World} {msg : ExcMsg}
    (h : ExecAccepted sdk w msg) (hzero : (w.kern.task msg.task).suspendCount = 0)
    (hms : w.proc.mExceptionMessages ≠ []) : ¬ HandedOver sdk n w msg := by
  rintro ⟨l, w', hrec, -, hcount, -⟩
  obtain ⟨k, l', hk, hrun⟩ := h.run_received n
  rw [hrun] at hrec
  obtain ⟨a, w₁, hmsg, hret⟩ := Prog.run_bind_eq_done world hrec
  cases hret
  rw [run_exceptionMessageReceived_queued _ (by exact hms)] at hmsg
  -- a message that is not the first disarms and is queued, and suspends nothing
  have hsame := (disarmAndQueue_within (execMessage msg)).run_same (x := .suspendCount) (by decide)
    ⟨{ w.proc with mTask.mTask := msg.task }, k⟩
  rw [hmsg] at hsame
  have hbefore := (hk.same .suspendCount).1 msg.task
  rw [hsame.1 msg.task, hbefore, hzero] at hcount
  exact absurd hcount (by decide)

/-- A message of the tracked task that is the only one suspends the task, and a following `Resume`
replies to it. -/
theorem handed_suspended {w : World} {m : Message} (hk : w.kern.FaultFree)
    (hl : w.kern.live w.proc.mTask.mTask = true) (hpid : w.proc.mPid ≠ -1)
    (hms : w.proc.mExceptionMessages = []) (hm : m.state.taskPort = w.proc.mTask.mTask) :
    ∃ w', (MachProcess.exceptionMessageReceived m).run world w = (.done (), w') ∧
      w'.proc.mTask.mTask = w.proc.mTask.mTask ∧
      1 ≤ (w'.kern.task w.proc.mTask.mTask).suspendCount ∧
      ∃ w'', MachProcess.resume.run world ⟨{ w'.proc with mStatus := .stop }, w'.kern⟩ =
          (.done (), w'') ∧
        ∀ m ∈ w'.proc.mExceptionMessages, m.excMsg.serial ∈ w''.kern.replied := by
  obtain ⟨k, hmsg, hs, -⟩ := run_exceptionMessageReceived m hk hl
  have hfol : w.kern.Follows k := by
    simpa only [hmsg] using run_follows (MachProcess.exceptionMessageReceived m) w
  have hqueued : (w.proc.handed m).mExceptionMessages = [m] := by simp [MachProcess.handed, hms]
  refine ⟨_, hmsg, rfl, ?_, ?_⟩
  · rw [hs]
    simp [Kernel.suspendedFirst, hms, Kernel.suspendTask, Kernel.setTask]
  · refine run_resume_tracked rfl (hfol.faultFree hk) ((hfol.live _).trans hl) hpid ?_
    intro m' hm'
    obtain rfl : m' = m := by simpa [hqueued] using hm'
    exact hm

/-- With no message queued, the new task is suspended and its message is replied to. -/
theorem handedOver {sdk : Sdk} {n : BitVec 32} {w : World} {msg : ExcMsg}
    (h : ExecAccepted sdk w msg) (hk : w.kern.FaultFree) (hl : w.kern.live msg.task = true)
    (hpid : w.proc.mPid ≠ -1) (hms : w.proc.mExceptionMessages = []) : HandedOver sdk n w msg := by
  obtain ⟨k, l', hcount, hrun⟩ := h.run_received n
  obtain ⟨w', hmsg, htask, hone, hresume⟩ := handed_suspended (m := execMessage msg)
    (w := ⟨{ w.proc with mTask.mTask := msg.task }, k⟩) (hcount.follows.faultFree hk)
    ((hcount.follows.live _).trans hl) hpid hms rfl
  refine ⟨l', w', ?_, htask, hone, hresume⟩
  rw [hrun, Prog.run_bind_done (h := hmsg)]
  rfl

/-- The process of a session is the one attached to. -/
theorem Attached.mPid_eq {sdk : Sdk} {allow : Label → Prop} {w : World} {pid : ℤ}
    {ignored : List ExceptionMask} {s : Session} (h : Attached sdk allow w pid ignored s) :
    s.state.proc.mPid = pid := by
  refine h.inv (I := fun w => w.proc.mPid = pid)
    (fun r w₀ hrun => (MachProcess.attachStart_target sdk pid ignored hrun).1) ?_ ?_ ?_
    fun e _ w hw => hw
  · intro β o ho w b w' he hw
    exact Eq.trans (exec_same o he (x := .pid) fun hp => absurd (ho _ hp) (by decide)) hw
  · intro w o w' hrun _ hw
    have hsame := resume_within.run_same (x := .pid) (by decide) w
    rw [hrun] at hsame
    exact Eq.trans hsame hw
  · intro w n r w' hrun hw
    obtain ⟨k, -, -, ⟨rfl, -⟩ | ⟨msg, -, hrec⟩⟩ := turn_cases hrun
    · exact hw
    · rw [exceptionMessageReceived_proc hrec]
      simp only [MachProcess.handed, MachProcess.switched]
      split <;> exact hw

/-- **The exec hand-over** works exactly when no message is queued: in every session, for every
message that is accepted as an exec to a live task that is not suspended. -/
theorem exec_handOver_iff (sdk : Sdk) (allow : Label → Prop) (w : World) (pid : ℤ)
    (ignored : List ExceptionMask) (s : Session) (hs : Attached sdk allow w pid ignored s)
    (n : BitVec 32) (msg : ExcMsg) (h : ExecAccepted sdk s.state msg)
    (hk : s.state.kern.FaultFree) (hl : s.state.kern.live msg.task = true)
    (hzero : (s.state.kern.task msg.task).suspendCount = 0) :
    HandedOver sdk n s.state msg ↔ s.state.proc.mExceptionMessages = [] := by
  constructor
  · intro hover
    by_contra hms
    exact not_handedOver h hzero hms hover
  · intro hms
    refine handedOver h hk hl ?_ hms
    obtain ⟨r, w₀, hrun, -⟩ := id hs
    have hpos := (MachProcess.attachStart_inv sdk pid ignored hrun).2.1
    rw [hs.mPid_eq]
    omega

/-- A kernel in which the process `7` will move from the task `1` to the task `2`. -/
def Kernel.execing : Kernel :=
  { Kernel.oneProcess fun _ _ => none with
    task := fun p => ⟨p = 1 ∨ p = 2, 7, 0, [11, 12], fun _ => ⟨0, 0, 0⟩⟩ }

/-- The first message of the task `2`. -/
def ExcMsg.execTrap : ExcMsg where
  serial := 0
  msghId := 2405
  task := 2
  thread := 21
  excType := excSoftware
  codes := [excSoftSignal, sigtrap]

/-- An exec with no message queued is handed over. -/
theorem exec_handOver_quiet : ∃ s : Session,
    Attached .macos (fun _ => True) ⟨{}, .execing⟩ 7 [] s ∧ ExecAccepted .macos s.state .execTrap ∧
      HandedOver .macos 0 s.state .execTrap := by
  obtain ⟨s, hs, hacc, hk, hl, hzero, hms⟩ : ∃ s : Session,
      Attached .macos (fun _ => True) ⟨{}, .execing⟩ 7 [] s ∧
        ExecAccepted .macos s.state .execTrap ∧ s.state.kern.FaultFree ∧
        s.state.kern.live 2 = true ∧ (s.state.kern.task 2).suspendCount = 0 ∧
        s.state.proc.mExceptionMessages = [] := by
    refine ⟨_, ⟨_, _, rfl, Relation.ReflTransGen.single ⟨.event (.exit 1), ⟨trivial, trivial⟩,
      .event _⟩⟩, ⟨rfl, by decide, by decide, by decide, by decide, by decide⟩, fun _ _ _ => rfl,
      by decide, by decide, rfl⟩
  exact ⟨s, hs, hacc, (exec_handOver_iff .macos _ _ 7 [] s hs 0 .execTrap hacc hk hl hzero).mpr hms⟩

/-- An exec while a message of the old task is queued is not handed over: the new task runs on. -/
theorem exec_handOver_queued_fails : ∃ s : Session,
    Attached .macos (fun _ => True) ⟨{}, .execing⟩ 7 [] s ∧ ExecAccepted .macos s.state .execTrap ∧
      s.state.kern.FaultFree ∧ s.state.kern.live 2 = true ∧
      (s.state.kern.task 2).suspendCount = 0 ∧ ¬ HandedOver .macos 0 s.state .execTrap := by
  obtain ⟨s, hs, hacc, hk, hl, hzero, hms⟩ : ∃ s : Session,
      Attached .macos (fun _ => True) ⟨{}, .execing⟩ 7 [] s ∧
        ExecAccepted .macos s.state .execTrap ∧ s.state.kern.FaultFree ∧
        s.state.kern.live 2 = true ∧ (s.state.kern.task 2).suspendCount = 0 ∧
        s.state.proc.mExceptionMessages ≠ [] := by
    refine ⟨_, ⟨_, _, rfl, Relation.ReflTransGen.tail (Relation.ReflTransGen.tail
      (Relation.ReflTransGen.single ⟨.event (.send .breakpoint), ⟨trivial, trivial⟩, .event _⟩)
      ⟨.turn, ⟨trivial, trivial⟩, .turn (n := 0) rfl rfl⟩)
      ⟨.event (.exit 1), ⟨trivial, trivial⟩, .event _⟩⟩,
      ⟨rfl, by decide, by decide, by decide, by decide, by decide⟩, fun _ _ _ => rfl,
      by decide, by decide, List.cons_ne_nil _ _⟩
  exact ⟨s, hs, hacc, hk, hl, hzero, not_handedOver hacc hzero hms⟩

end MachDebug
