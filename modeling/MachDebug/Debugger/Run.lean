import MachDebug.Debugger.Footprint

/-!
# Running the small functions

What the functions that the session's calls are made of do when they run: their answer and the
world they leave, in terms of the kernel before them.

## Main definitions

* `Kernel.Counted c k k'`: `k'` is `k` after some calls of kind `c` that changed nothing
* `Kernel.probe k t`: the answer of the validity probe of `t`
* `Kernel.portFor k pid`: the task port that the ten tries for `pid` give

## Main results

* `run_isValid`, `run_taskPortForPid`, `run_taskPortForProcessID`: resolving the target
-/

namespace MachDebug

open Program

theorem run_member {α β : Type} (o : MemberOp β) (f : β → Code α) (w : World) :
    (Prog.op (.member o) f).run world w =
      (f (o.exec w.proc).1).run world { w with proc := (o.exec w.proc).2 } := rfl

theorem run_sys {α β : Type} {o : SysOp β} {w : World} {b : β} {k : Kernel}
    (h : o.exec w.kern = some (b, k)) (f : β → Code α) :
    (Prog.op (.sys o) f).run world w = (f b).run world { w with kern := k } :=
  Prog.run_op world (by simp [h]) f

/-- A kernel call that came back has been executed. -/
theorem run_sys_inv {β : Type} {o : SysOp β} {w w' : World} {b : β}
    (h : (sys o).run world w = (.done b, w')) :
    w'.proc = w.proc ∧ o.exec w.kern = some (b, w'.kern) := by
  cases he : o.exec w.kern with
  | none => simp [sys, Prog.call, Prog.run, he] at h
  | some r =>
    rw [sys, Prog.call, run_sys (b := r.1) (k := r.2) he] at h
    cases h
    exact ⟨rfl, rfl⟩

/-- An assertion on the status that holds. -/
theorem run_assert_status {α : Type} {s : ProcessStatus} {w : World} (h : w.proc.mStatus = s)
    (f : Unit → Code α) :
    (Prog.op (.member .status) fun st => (Prog.assert (st = s)).bind f).run world w =
      (f ()).run world w := by
  simp [run_member, MemberOp.exec, h]

namespace Kernel

/-- Only the number of calls of kind `c` has changed. -/
def Counted (c : KCall) (k k' : Kernel) : Prop :=
  ∃ n, k.calls c ≤ n ∧ k' = { k with calls := Function.update k.calls c n }

theorem Counted.refl (c : KCall) (k : Kernel) : k.Counted c k := ⟨k.calls c, le_rfl, by simp⟩

theorem Counted.tally (c : KCall) (k : Kernel) : k.Counted c (k.tally c) := ⟨_, Nat.le_succ _, rfl⟩

theorem Counted.trans {c : KCall} {k k' k'' : Kernel} (h : k.Counted c k') (h' : k'.Counted c k'') :
    k.Counted c k'' := by
  obtain ⟨n, hn, rfl⟩ := h
  obtain ⟨m, hm, rfl⟩ := h'
  simp only [Function.update_self] at hm
  exact ⟨m, hn.trans hm, by simp⟩

theorem Counted.calls_of_ne {c c' : KCall} {k k' : Kernel} (h : k.Counted c k') (hc : c' ≠ c) :
    k'.calls c' = k.calls c' := by
  obtain ⟨n, -, rfl⟩ := h
  simp [hc]

/-- Only the numbers of calls have changed. -/
def Recounted (k k' : Kernel) : Prop :=
  ∃ calls, (∀ c, k.calls c ≤ calls c) ∧ k' = { k with calls := calls }

theorem Counted.recounted {c : KCall} {k k' : Kernel} (h : k.Counted c k') : k.Recounted k' := by
  obtain ⟨n, hn, rfl⟩ := h
  refine ⟨_, fun c' => ?_, rfl⟩
  rcases eq_or_ne c' c with rfl | hc
  · simpa using hn
  · simp [hc]

theorem Recounted.refl (k : Kernel) : k.Recounted k := ⟨_, fun _ => le_rfl, rfl⟩

theorem Recounted.trans {k k' k'' : Kernel} (h : k.Recounted k') (h' : k'.Recounted k'') :
    k.Recounted k'' := by
  obtain ⟨n, hn, rfl⟩ := h
  obtain ⟨m, hm, rfl⟩ := h'
  exact ⟨m, fun c => (hn c).trans (hm c), rfl⟩

theorem Recounted.follows {k k' : Kernel} (h : k.Recounted k') : k.Follows k' := by
  obtain ⟨n, hn, rfl⟩ := h
  exact ⟨rfl, hn, rfl, rfl, rfl, fun _ => rfl, fun _ => rfl, fun _ => rfl⟩

theorem Recounted.same {w : World} {k : Kernel} (h : w.kern.Recounted k) (x : Part) :
    w.Same ⟨w.proc, k⟩ x := by
  obtain ⟨n, -, rfl⟩ := h
  cases x <;> simp [World.Same]

/-- The answer of the validity probe: no failure is injected, and the port names a live task. -/
def probe (k : Kernel) (t : Port) : Bool :=
  (k.faults .taskInfo (k.calls .taskInfo)).isNone && k.live t

/-- The task port that `n` tries for a process give: `0` when each of them fails. -/
def portWithin (k : Kernel) (pid : ℤ) (n : ℕ) : Port :=
  if (List.range n).any fun i => (k.faults .taskForPid (k.calls .taskForPid + i)).isNone then
    k.taskOf pid
  else 0

/-- The task port that `TaskPortForProcessID` finds for a process, in ten tries. -/
def portFor (k : Kernel) (pid : ℤ) : Port := if pid = 0 then 0 else k.portWithin pid 10

theorem Counted.probe_eq {c : KCall} {k k' : Kernel} (h : k.Counted c k') (hc : c ≠ .taskInfo)
    (t : Port) : k'.probe t = k.probe t := by
  obtain ⟨n, -, rfl⟩ := h
  simp [probe, live, hc.symm]

theorem Counted.portFor_eq {c : KCall} {k k' : Kernel} (h : k.Counted c k') (hc : c ≠ .taskForPid)
    (pid : ℤ) : k'.portFor pid = k.portFor pid := by
  obtain ⟨n, -, rfl⟩ := h
  simp [portFor, portWithin, hc.symm]

end Kernel

/-- The validity probe answers `Kernel.probe`, and is counted at most. -/
theorem run_isValid (t : Port) (w : World) : ∃ k, w.kern.Counted .taskInfo k ∧
    (MachTask.isValid t).run world w = (.done (w.kern.probe t), { w with kern := k }) := by
  unfold MachTask.isValid MachTask.basicInfo
  by_cases ht : t = 0
  · refine ⟨w.kern, .refl _ _, ?_⟩
    simp [ht, Kernel.probe, Kernel.live]
  · refine ⟨w.kern.tally .taskInfo, .tally _ _, ?_⟩
    simp only [ne_eq, ht, not_false_eq_true, if_true, Prog.bind_eq, sys_bind]
    cases hf : w.kern.faults .taskInfo (w.kern.calls .taskInfo) with
    | none =>
      rw [run_sys (b := (if w.kern.live t then (0, (w.kern.task t).suspendCount)
        else (machSendInvalidDest, 0))) (k := w.kern.tally .taskInfo)]
      · by_cases hl : w.kern.live t <;> simp [Kernel.probe, hf, hl, machSendInvalidDest]
      · by_cases hl : w.kern.live t <;> simp [SysOp.exec, Kernel.issue, hf, hl]
    | some e =>
      rw [run_sys (b := (e.1, 0)) (k := w.kern.tally .taskInfo)]
      · simpa [Kernel.probe, hf] using e.2
      · simp [SysOp.exec, Kernel.issue, hf]

/-- The next try of `task_for_pid`. -/
theorem portWithin_succ (k : Kernel) (pid : ℤ) (n : ℕ) : k.portWithin pid (n + 1) =
    if (k.faults .taskForPid (k.calls .taskForPid)).isNone then k.taskOf pid
    else (k.tally .taskForPid).portWithin pid n := by
  simp only [Kernel.portWithin, List.range_succ_eq_map, List.any_cons, List.any_map, Nat.add_zero,
    Kernel.tally_faults, Kernel.tally_calls_self, Kernel.tally_taskOf]
  cases (k.faults .taskForPid (k.calls .taskForPid)).isNone with
  | true => simp
  | false => simp [Function.comp_def, Nat.add_assoc, Nat.add_comm 1]

/-- The tries for the task port give `Kernel.portWithin`, and are counted at most. -/
theorem run_taskForPidRetry (pid : ℤ) (n : ℕ) (w : World) : ∃ k, w.kern.Counted .taskForPid k ∧
    (MachTask.taskForPidRetry pid n).run world w =
      (.done (w.kern.portWithin pid n), { w with kern := k }) := by
  induction n generalizing w with
  | zero => exact ⟨w.kern, .refl _ _, rfl⟩
  | succ n ih =>
    obtain ⟨k, hk, hrun⟩ := ih { w with kern := w.kern.tally .taskForPid }
    -- a failed try sleeps and leaves the rest of the tries to the induction hypothesis
    have hfail : ∀ kr : KernReturn, kr ≠ 0 → ∀ t,
        (SysOp.taskForPid pid).exec w.kern = some ((kr, t), w.kern.tally .taskForPid) →
        (MachTask.taskForPidRetry pid (n + 1)).run world w =
          (.done ((w.kern.tally .taskForPid).portWithin pid n), { w with kern := k }) := by
      intro kr hkr t he
      simp only [MachTask.taskForPidRetry, Prog.bind_eq, sys_bind]
      rw [run_sys he]
      simp only [hkr, if_false]
      rw [run_sys (b := ()) (k := w.kern.tally .taskForPid) rfl]
      exact hrun
    rw [portWithin_succ]
    cases hf : w.kern.faults .taskForPid (w.kern.calls .taskForPid) with
    | some e =>
      refine ⟨k, (Kernel.Counted.tally _ _).trans hk, ?_⟩
      simpa using hfail e.1 e.2 0 (by simp [SysOp.exec, Kernel.issue, hf])
    | none =>
      by_cases ht : w.kern.taskOf pid = 0
      · refine ⟨k, (Kernel.Counted.tally _ _).trans hk, ?_⟩
        have hz : (w.kern.tally .taskForPid).portWithin pid n = 0 := by
          simp [Kernel.portWithin, ht]
        simpa [hz, ht] using
          hfail kernFailure (by decide) 0 (by simp [SysOp.exec, Kernel.issue, hf, ht])
      · refine ⟨w.kern.tally .taskForPid, .tally _ _, ?_⟩
        simp only [MachTask.taskForPidRetry, Prog.bind_eq, sys_bind]
        rw [run_sys (b := (0, w.kern.taskOf pid)) (k := w.kern.tally .taskForPid)
          (by simp [SysOp.exec, Kernel.issue, hf, ht])]
        simp

/-- `TaskPortForProcessID` answers the known task port, or asks for one and keeps it. -/
theorem run_taskPortForProcessID (w : World) : ∃ k, w.kern.Counted .taskForPid k ∧
    MachTask.taskPortForProcessID.run world w =
      (.done (if w.proc.mTask.mTask = 0 then w.kern.portFor w.proc.mPid else w.proc.mTask.mTask),
        { w with
          proc.mTask.mTask :=
            if w.proc.mTask.mTask = 0 then w.kern.portFor w.proc.mPid else w.proc.mTask.mTask
          kern := k }) := by
  unfold MachTask.taskPortForProcessID
  simp only [Prog.bind_eq, member_bind, run_member, MemberOp.exec]
  by_cases h : w.proc.mTask.mTask = 0
  · simp only [h, if_true, run_member, MemberOp.exec]
    by_cases hp : w.proc.mPid = 0
    · refine ⟨w.kern, .refl _ _, ?_⟩
      simp [MachTask.taskPortForPid, hp, Kernel.portFor, run_member, MemberOp.exec, member,
        Prog.call]
    · obtain ⟨k, hk, hrun⟩ := run_taskForPidRetry w.proc.mPid 10 w
      refine ⟨k, hk, ?_⟩
      rw [Prog.run_bind_done (h := by simpa [MachTask.taskPortForPid, hp] using hrun)]
      simp [Kernel.portFor, hp, run_member, MemberOp.exec, member, Prog.call]
  · refine ⟨w.kern, .refl _ _, ?_⟩
    simp [h, run_member, MemberOp.exec, member, Prog.call]

/-! ## Calls that succeed -/

section Answers

variable {k k' : Kernel} {t : Port}

/-- A call that did not fail by injection has done its work. -/
theorem Kernel.issue_ok {β : Type} {c : KCall} {fail : KernReturn → β} {act : Kernel → β × Kernel}
    {b : β} (hfail : ∀ e ≠ 0#32, fail e ≠ b) (h : k.issue c fail act = (b, k')) :
    act (k.tally c) = (b, k') := by
  unfold Kernel.issue at h
  split at h
  · rename_i e _
    exact absurd (Prod.mk.inj h).1 (hfail e.1 e.2)
  · exact h

/-- A call on a task that did not fail has found the task alive, and done its work. -/
theorem Kernel.issue_live_ok {β : Type} {c : KCall} {fail : KernReturn → β}
    {act : Kernel → β × Kernel} {dead b : β} (hfail : ∀ e ≠ 0#32, fail e ≠ b) (hdead : dead ≠ b)
    (h : k.issue c fail (fun k => if k.live t then act k else (dead, k)) = (b, k')) :
    k.live t = true ∧ act (k.tally c) = (b, k') := by
  have hact := Kernel.issue_ok hfail h
  split at hact
  · rename_i hl
    exact ⟨hl, hact⟩
  · exact absurd (Prod.mk.inj hact).1 hdead

/-- `task_info` of a task gives its suspend count, and the task is alive. -/
theorem taskInfo_ok {c : ℕ} (h : (SysOp.taskInfo t).exec k = some ((0, c), k')) :
    k.live t = true ∧ c = (k.task t).suspendCount := by
  obtain ⟨hl, hact⟩ := Kernel.issue_live_ok (fun e he => by simp [he])
    (by simp [machSendInvalidDest]) (Option.some.inj h)
  exact ⟨hl, (Prod.mk.inj (Prod.mk.inj hact).1).2.symm⟩

/-- A `task_suspend` that succeeded has suspended a live task. -/
theorem taskSuspend_ok (h : (SysOp.taskSuspend t).exec k = some (0, k')) :
    k.live t = true ∧ k' = (k.tally .taskSuspend).suspendTask t := by
  obtain ⟨hl, hact⟩ := Kernel.issue_live_ok (fun e he => he) (by decide) (Option.some.inj h)
  exact ⟨hl, (Prod.mk.inj hact).2.symm⟩

/-- A `task_resume` that succeeded has taken one suspension back. -/
theorem taskResume_ok (h : (SysOp.taskResume t).exec k = some (0, k')) :
    k' = (k.tally .taskResume).resumeTask t := by
  obtain ⟨-, hact⟩ := Kernel.issue_live_ok (fun e he => he) (by decide) (Option.some.inj h)
  exact (Prod.mk.inj hact).2.symm

/-- `task_threads` gives the threads of the task. -/
theorem taskThreads_ok {ths : List Port} (h : (SysOp.taskThreads t).exec k = some ((0, ths), k')) :
    ths = (k.task t).threads := by
  obtain ⟨-, hact⟩ := Kernel.issue_live_ok (fun e he => by simp [he])
    (by simp [machSendInvalidDest]) (Option.some.inj h)
  exact (Prod.mk.inj (Prod.mk.inj hact).1).2.symm

/-- A `thread_set_state` that succeeded has written the registers of the thread. -/
theorem threadSetState_ok {d : ArmDebugState64}
    (h : (SysOp.threadSetState t d).exec k = some (0, k')) :
    k'.debug = Function.update k.debug t d := by
  have hact := Kernel.issue_ok (fun e he => he) (Option.some.inj h)
  rw [← (Prod.mk.inj hact).2]
  rfl

end Answers

/-! ## The target task, without failures -/

section FaultFree

variable {w : World}

/-- `Suspend` counts the suspension of a live task. -/
theorem run_suspend (hk : w.kern.FaultFree) (hl : w.kern.live w.proc.mTask.mTask = true) :
    MachTask.suspend.run world w =
      (.done 0, ⟨w.proc, (w.kern.tally .taskSuspend).suspendTask w.proc.mTask.mTask⟩) := by
  unfold MachTask.suspend
  simp only [Prog.bind_eq, member_bind, run_member, MemberOp.exec, sys, Prog.call]
  rw [run_sys (b := 0) (k := (w.kern.tally .taskSuspend).suspendTask w.proc.mTask.mTask)
    (by simp [SysOp.exec, hk.issue_eq, hl])]
  rfl

/-- The kernel after `Resume` of a live task. -/
def Kernel.resumed (k : Kernel) (t : Port) : Kernel :=
  if 0 < (k.task t).suspendCount then ((k.tally .taskInfo).tally .taskResume).resumeTask t
  else k.tally .taskInfo

/-- `Resume` of a live task takes one suspension back, if there is one. -/
theorem run_taskResume (hk : w.kern.FaultFree) (hl : w.kern.live w.proc.mTask.mTask = true) :
    MachTask.resume.run world w = (.done 0, ⟨w.proc, w.kern.resumed w.proc.mTask.mTask⟩) := by
  have ht : w.proc.mTask.mTask ≠ 0 := by
    intro h
    simp [Kernel.live, h] at hl
  have hinfo : (SysOp.taskInfo w.proc.mTask.mTask).exec w.kern =
      some ((0, (w.kern.task w.proc.mTask.mTask).suspendCount), w.kern.tally .taskInfo) := by
    simp [SysOp.exec, hk.issue_eq, hl]
  unfold MachTask.resume MachTask.basicInfo Kernel.resumed
  simp only [Prog.bind_eq, member_bind, sys_bind, run_member, MemberOp.exec, ht, if_false]
  rw [run_sys hinfo]
  -- the kernel is asked to resume only a suspended task
  by_cases hc : 0 < (w.kern.task w.proc.mTask.mTask).suspendCount
  · simp only [if_true, gt_iff_lt, hc, sys, Prog.call]
    rw [run_sys (b := 0)
      (k := ((w.kern.tally .taskInfo).tally .taskResume).resumeTask w.proc.mTask.mTask)]
    · rfl
    · simp [SysOp.exec, (hk.tally .taskInfo).issue_eq, hl, hc.ne']
  · simp [hc]

/-- The end of `MachProcess::Resume` resumes a live task. -/
theorem run_resumeTask (hk : w.kern.FaultFree) (hl : w.kern.live w.proc.mTask.mTask = true) :
    MachProcess.resumeTask.run world w =
      (.done (), ⟨{ w.proc with mStatus := .running }, w.kern.resumed w.proc.mTask.mTask⟩) := by
  rw [MachProcess.resumeTask, Prog.bind_eq, Prog.run_bind_done (h := run_taskResume hk hl)]
  rfl

/-- The debug registers after a change of `__mdscr_el1` in one thread. -/
def updateMdscr (f : BitVec 64 → BitVec 64) (debug : Port → ArmDebugState64) (th : Port) :
    Port → ArmDebugState64 :=
  Function.update debug th { debug th with mdscrEl1 := f (debug th).mdscrEl1 }

/-- Changing a register of the threads succeeds, one thread after the other. -/
theorem run_updateThreads (f : BitVec 64 → BitVec 64) (ths : List Port) (hk : w.kern.FaultFree) :
    ∃ k, (MachTask.updateThreads f ths).run world w = (.done (), ⟨w.proc, k⟩) ∧
      k.debug = ths.foldl (updateMdscr f) w.kern.debug := by
  induction ths generalizing w with
  | nil => exact ⟨w.kern, rfl, rfl⟩
  | cons th ths ih =>
    have hget : (SysOp.threadGetState th).exec w.kern =
        some ((0, w.kern.debug th), w.kern.tally .threadGetState) := by
      simp [SysOp.exec, hk.issue_eq]
    have hset (d : ArmDebugState64) : (SysOp.threadSetState th d).exec
        (w.kern.tally .threadGetState) = some (0,
          { (w.kern.tally .threadGetState).tally .threadSetState with
            debug := Function.update w.kern.debug th d }) := by
      simp [SysOp.exec, (hk.tally .threadGetState).issue_eq]
    unfold MachTask.updateThreads
    simp only [Prog.bind_eq, sys_bind]
    rw [run_sys hget]
    simp only [ne_eq, not_true, if_false]
    rw [run_sys (hset _)]
    simp only [not_true, if_false]
    exact ih (w := ⟨w.proc, _⟩) ((hk.tally .threadGetState).tally .threadSetState)

/-- Changing a register of the threads of a live task succeeds. -/
theorem run_updateSingleStep (f : BitVec 64 → BitVec 64) (hk : w.kern.FaultFree)
    (hl : w.kern.live w.proc.mTask.mTask = true) :
    ∃ k, (MachTask.updateSingleStep f).run world w = (.done (), ⟨w.proc, k⟩) ∧
      k.debug = (w.kern.task w.proc.mTask.mTask).threads.foldl (updateMdscr f) w.kern.debug := by
  have hths : (SysOp.taskThreads w.proc.mTask.mTask).exec w.kern =
      some ((0, (w.kern.task w.proc.mTask.mTask).threads), w.kern.tally .taskThreads) := by
    simp [SysOp.exec, hk.issue_eq, hl]
  unfold MachTask.updateSingleStep
  simp only [Prog.bind_eq, member_bind, sys_bind, run_member, MemberOp.exec]
  rw [run_sys hths]
  simp only [ne_eq, not_true, if_false]
  exact run_updateThreads (w := ⟨w.proc, w.kern.tally .taskThreads⟩) f _ (hk.tally .taskThreads)

end FaultFree

/-! ## Replies -/

section Replies

variable (m : Message)

/-- The kernel after a reply that may have been sent. -/
def Kernel.MaySend (n : ℕ) (k k' : Kernel) : Prop :=
  k'.replied = k.replied ∨ k'.replied = k.replied ++ [n]

/-- The reply itself. -/
theorem run_send (n : ℕ) (rc : KernReturn) (w : World) : ∃ kr k, w.kern.MaySend n k ∧
    (sys (.machMsgSend n rc)).run world w = (.done kr, ⟨w.proc, k⟩) := by
  cases hf : w.kern.faults .machMsgSend (w.kern.calls .machMsgSend) with
  | some e =>
    refine ⟨e.1, w.kern.tally .machMsgSend, .inl rfl, ?_⟩
    exact run_sys (by simp [SysOp.exec, Kernel.issue, hf]) Prog.ret
  | none =>
    refine ⟨0, { w.kern.tally .machMsgSend with replied := w.kern.replied ++ [n] }, .inr rfl, ?_⟩
    exact run_sys (by simp [SysOp.exec, Kernel.issue, hf]) Prog.ret

/-- The update of a thread comes back when its process is known. -/
theorem run_updateThread_done {pid : ℤ} (hpid : pid ≠ -1) (sig : BitVec 32) (w : World) :
    ∃ k, w.kern.Recounted k ∧ (m.updateThread pid sig).run world w = (.done (), ⟨w.proc, k⟩) := by
  obtain ⟨e, hex⟩ : ∃ e, (SysOp.ptThUpdate pid m.state.threadPort sig).exec w.kern =
      some (e, w.kern.tally .ptThUpdate) := by
    cases hf : w.kern.faults .ptThUpdate (w.kern.calls .ptThUpdate) with
    | some e => exact ⟨e.1, by simp [SysOp.exec, Kernel.issue, hf]⟩
    | none => exact ⟨0, by simp [SysOp.exec, Kernel.issue, hf]⟩
  refine ⟨w.kern.tally .ptThUpdate, (Kernel.Counted.tally _ _).recounted, ?_⟩
  unfold Message.updateThread
  simp only [ne_eq, hpid, not_false_eq_true, decide_true, Prog.bind_eq, Prog.assert_true,
    Prog.bind_ret, sys_bind]
  rw [run_sys hex]
  rfl

/-- The update of a thread comes back, or fails its assertion. -/
theorem run_updateThread (pid : ℤ) (sig : BitVec 32) (w : World) : ∃ k, w.kern.Recounted k ∧
    ((m.updateThread pid sig).run world w = (.aborted, ⟨w.proc, k⟩) ∨
      (m.updateThread pid sig).run world w = (.done (), ⟨w.proc, k⟩)) := by
  by_cases hpid : pid = -1
  · exact ⟨w.kern, .refl _, .inl (by simp [Message.updateThread, hpid])⟩
  · obtain ⟨k, hk, hrun⟩ := run_updateThread_done m hpid sig w
    exact ⟨k, hk, .inr hrun⟩

/-- The part of a reply for a soft signal. -/
theorem run_replySoftSignal (sig : BitVec 32) (w : World) : ∃ k, w.kern.Recounted k ∧
    ((m.replySoftSignal sig).run world w = (.aborted, ⟨w.proc, k⟩) ∨
      (m.replySoftSignal sig).run world w = (.done (), ⟨w.proc, k⟩)) := by
  unfold Message.replySoftSignal
  simp only [Prog.bind_eq, member_bind, sys_bind, run_member, MemberOp.exec]
  by_cases ht : w.proc.mTask.mTask = m.state.taskPort
  · simp only [ht, if_true, run_member]
    exact run_updateThread m _ _ w
  · simp only [ht, if_false]
    obtain ⟨r, hex⟩ : ∃ r, (SysOp.pidForTask m.state.taskPort).exec w.kern =
        some (r, w.kern.tally .pidForTask) := by
      cases hf : w.kern.faults .pidForTask (w.kern.calls .pidForTask) with
      | some e => exact ⟨_, by simp [SysOp.exec, Kernel.issue, hf]; rfl⟩
      | none =>
        by_cases hl : w.kern.live m.state.taskPort
        · exact ⟨(0, some (w.kern.task m.state.taskPort).pid),
            by simp [SysOp.exec, Kernel.issue, hf, hl]⟩
        · exact ⟨(kernFailure, none), by simp [SysOp.exec, Kernel.issue, hf, hl]⟩
    rw [run_sys hex]
    obtain ⟨k, hk, hrun⟩ := run_updateThread m (r.2.getD (-1)) m.state.softSignal
      ⟨w.proc, w.kern.tally .pidForTask⟩
    exact ⟨k, (Kernel.Counted.tally _ _).recounted.trans hk, hrun⟩

/-- **A reply** comes back or fails its assertion, and has been sent at most once. -/
theorem run_reply (sig : BitVec 32) (w : World) :
    ∃ k, w.kern.MaySend m.excMsg.serial k ∧
    ((m.reply sig).run world w = (.aborted, ⟨w.proc, k⟩) ∨
      ∃ kr, (m.reply sig).run world w = (.done kr, ⟨w.proc, k⟩)) := by
  unfold Message.reply
  simp only [Prog.bind_eq]
  split
  · obtain ⟨k₁, hk₁, hrun⟩ := run_replySoftSignal m sig w
    have hrep : k₁.replied = w.kern.replied := by
      obtain ⟨calls, -, rfl⟩ := hk₁
      rfl
    -- the soft signal of a process without an id fails the assertion
    rcases hrun with hrun | hrun
    · exact ⟨k₁, .inl hrep, .inl (by rw [Prog.run_bind, hrun]; rfl)⟩
    · obtain ⟨kr, k, hk, hsend⟩ := run_send m.excMsg.serial m.retCode ⟨w.proc, k₁⟩
      refine ⟨k, ?_, .inr ⟨kr, by rw [Prog.run_bind_done (h := hrun), hsend]⟩⟩
      simpa only [Kernel.MaySend, hrep] using hk
  · obtain ⟨kr, k, hk, hsend⟩ := run_send m.excMsg.serial m.retCode w
    exact ⟨k, hk, .inr ⟨kr, hsend⟩⟩

/-- Replies to some of the messages have been sent, in their order, and nothing else has
changed. -/
structure World.Replied (ms : List Message) (w : World) (k : Kernel) : Prop where
  sent : ∃ ns, List.Sublist ns (ms.map fun m => m.excMsg.serial) ∧ k.replied = w.kern.replied ++ ns
  same : ∀ x, x ≠ .replied → w.Same ⟨w.proc, k⟩ x
  follows : w.kern.Follows k

/-- The reply loop goes over all messages, or fails an assertion on the way. -/
theorem run_replyEach (ms : List Message) (w : World) : ∃ k, w.Replied ms k ∧
    ((MachProcess.replyEach ms).run world w = (.aborted, ⟨w.proc, k⟩) ∨
      (MachProcess.replyEach ms).run world w = (.done (), ⟨w.proc, k⟩)) := by
  have hrun : ∃ k ns, List.Sublist ns (ms.map fun m => m.excMsg.serial) ∧
      k.replied = w.kern.replied ++ ns ∧
      ((MachProcess.replyEach ms).run world w = (.aborted, ⟨w.proc, k⟩) ∨
        (MachProcess.replyEach ms).run world w = (.done (), ⟨w.proc, k⟩)) := by
    -- the replies that were sent, by induction on the messages
    induction ms generalizing w with
    | nil => exact ⟨w.kern, [], List.Sublist.refl _, by simp, .inr rfl⟩
    | cons m ms ih =>
      obtain ⟨k₁, hk₁, hrun⟩ := run_reply m 0 w
      have hns₁ : ∃ ns, List.Sublist ns [m.excMsg.serial] ∧ k₁.replied = w.kern.replied ++ ns := by
        rcases hk₁ with h | h
        · exact ⟨[], by simp, by simp [h]⟩
        · exact ⟨_, List.Sublist.refl _, h⟩
      obtain ⟨ns₁, hsub₁, hrep₁⟩ := hns₁
      rcases hrun with hrun | ⟨kr, hrun⟩
      · refine ⟨k₁, ns₁, ?_, hrep₁, .inl ?_⟩
        · simpa using hsub₁.trans (by simp)
        · simp only [MachProcess.replyEach, Prog.bind_eq]
          rw [Prog.run_bind, hrun]
          rfl
      · obtain ⟨k, ns, hsub, hrep, hrest⟩ := ih ⟨w.proc, k₁⟩
        refine ⟨k, ns₁ ++ ns, hsub₁.append hsub, by simp [hrep, hrep₁], ?_⟩
        simp only [MachProcess.replyEach, Prog.bind_eq]
        rw [Prog.run_bind_done (h := hrun)]
        exact hrest
  obtain ⟨k, ns, hsub, hrep, hout⟩ := hrun
  have hafter : ((MachProcess.replyEach ms).run world w).2 = ⟨w.proc, k⟩ := by
    rcases hout with h | h <;> rw [h]
  refine ⟨k, ⟨⟨ns, hsub, hrep⟩, fun x hx => ?_, ?_⟩, hout⟩
  · exact hafter ▸ (replyEach_within ms).run_same (by simpa using hx) w
  · simpa only [hafter] using run_follows (MachProcess.replyEach ms) w

/-- `Resume` gets past its assertion only in a stopped process. -/
theorem resume_status {w w' : World} {o : Outcome Op RuntimeError Unit}
    (h : MachProcess.resume.run world w = (o, w')) (ho : o ≠ .aborted) :
    w.proc.mStatus = .stop := by
  by_contra hst
  have hrun : MachProcess.resume.run world w = (.aborted, w) := by
    simp [MachProcess.resume, run_member, MemberOp.exec, hst]
  cases hrun.symm.trans h
  exact ho rfl

/-- `ReplyToAllExceptions` of a stopped process is the reply loop and the clearing of the list,
which does nothing when the list is empty. -/
theorem run_replyToAllExceptions_eq {w : World} (hst : w.proc.mStatus = .stop) :
    MachProcess.replyToAllExceptions.run world w =
      ((MachProcess.replyEach w.proc.mExceptionMessages).bind
        fun _ => member .clearMessages).run world w := by
  unfold MachProcess.replyToAllExceptions
  simp only [Prog.bind_eq, member_bind, run_assert_status hst, run_member, MemberOp.exec]
  by_cases hms : w.proc.mExceptionMessages.isEmpty = true
  · have hproc : { w.proc with mExceptionMessages := [] } = w.proc := by
      rw [← List.isEmpty_iff.mp hms]
    simp only [hms, Bool.not_true, Bool.false_eq_true, if_false]
    rw [List.isEmpty_iff.mp hms]
    simp [MachProcess.replyEach, member, Prog.call, run_member, MemberOp.exec, hproc]
  · simp only [hms, Bool.not_false, if_true, run_member, MemberOp.exec]

/-- `Resume` of a stopped process replies to the messages, clears them and resumes the task. -/
theorem run_resume_eq {w : World} (hst : w.proc.mStatus = .stop) :
    MachProcess.resume.run world w =
      ((MachProcess.replyEach w.proc.mExceptionMessages).bind
        fun _ => (member .clearMessages).bind fun _ => MachProcess.resumeTask).run world w := by
  unfold MachProcess.resume
  simp only [Prog.bind_eq, member_bind, run_assert_status hst]
  rw [Prog.run_bind, run_replyToAllExceptions_eq hst, ← Prog.run_bind, Prog.bind_assoc]
  rfl

/-- `Resume` of a stopped process fails an assertion, or resumes the task with the messages
cleared. -/
theorem run_resume {w : World} (hst : w.proc.mStatus = .stop) :
    ∃ k, w.Replied w.proc.mExceptionMessages k ∧
    (MachProcess.resume.run world w = (.aborted, ⟨w.proc, k⟩) ∨
      MachProcess.resume.run world w =
        MachProcess.resumeTask.run world ⟨{ w.proc with mExceptionMessages := [] }, k⟩) := by
  obtain ⟨k, hk, hrun⟩ := run_replyEach w.proc.mExceptionMessages w
  refine ⟨k, hk, ?_⟩
  rw [run_resume_eq hst]
  rcases hrun with hrun | hrun
  · exact .inl (by rw [Prog.run_bind, hrun]; rfl)
  · exact .inr (by rw [Prog.run_bind_done (h := hrun)]; rfl)

/-- Without failures, the messages of the tracked task are all replied to. -/
theorem run_replyEach_tracked {ms : List Message} {w : World} (hk : w.kern.FaultFree)
    (hpid : w.proc.mPid ≠ -1) (hms : ∀ m ∈ ms, m.state.taskPort = w.proc.mTask.mTask) :
    ∃ k, (MachProcess.replyEach ms).run world w = (.done (), ⟨w.proc, k⟩) ∧
      k.replied = w.kern.replied ++ ms.map fun m => m.excMsg.serial := by
  induction ms generalizing w with
  | nil => exact ⟨w.kern, rfl, by simp⟩
  | cons m ms ih =>
    -- up to the send, the reply is counted at most
    obtain ⟨k₁, hk₁, hrun₁⟩ : ∃ k₁, w.kern.Recounted k₁ ∧ (m.reply 0).run world w =
        (sys (.machMsgSend m.excMsg.serial m.retCode)).run world ⟨w.proc, k₁⟩ := by
      unfold Message.reply Message.replySoftSignal
      by_cases hs : m.state.softSignal = 0
      · exact ⟨w.kern, .refl _, by simp [hs]⟩
      · obtain ⟨k₁, hk₁, hupd⟩ := run_updateThread_done m hpid 0 w
        refine ⟨k₁, hk₁, ?_⟩
        have ht := (hms m List.mem_cons_self).symm
        simp only [ne_eq, hs, not_false_eq_true, if_true, Prog.bind_eq, member_bind, Prog.bind_op,
          run_member, MemberOp.exec, ht]
        exact Prog.run_bind_done (h := hupd)
    have hff₁ := hk₁.follows.faultFree hk
    have hrep₁ : k₁.replied = w.kern.replied := hk₁.same (w := w) .replied
    obtain ⟨k₂, hex, hrep₂⟩ : ∃ k₂, (SysOp.machMsgSend m.excMsg.serial m.retCode).exec k₁ =
        some (0, k₂) ∧ k₂.replied = k₁.replied ++ [m.excMsg.serial] :=
      ⟨{ k₁.tally .machMsgSend with replied := k₁.replied ++ [m.excMsg.serial] }, by
        simp [SysOp.exec, hff₁.issue_eq], rfl⟩
    obtain ⟨k, hrest, hrep⟩ := ih (w := ⟨w.proc, k₂⟩) ((sys_follows _ hex).faultFree hff₁) hpid
      fun m' hm' => hms m' (List.mem_cons_of_mem m hm')
    refine ⟨k, ?_, by simp [hrep, hrep₂, hrep₁]⟩
    have hreply : (m.reply 0).run world w = (.done 0, ⟨w.proc, k₂⟩) :=
      hrun₁.trans (run_sys (w := ⟨w.proc, k₁⟩) hex Prog.ret)
    unfold MachProcess.replyEach
    rw [Prog.bind_eq, Prog.run_bind_done (h := hreply)]
    exact hrest

/-- Without failures, `Resume` returns and has replied to the messages of the tracked task. -/
theorem run_resume_tracked {w : World} (hst : w.proc.mStatus = .stop) (hk : w.kern.FaultFree)
    (hl : w.kern.live w.proc.mTask.mTask = true) (hpid : w.proc.mPid ≠ -1)
    (hms : ∀ m ∈ w.proc.mExceptionMessages, m.state.taskPort = w.proc.mTask.mTask) :
    ∃ w', MachProcess.resume.run world w = (.done (), w') ∧
      ∀ m ∈ w.proc.mExceptionMessages, m.excMsg.serial ∈ w'.kern.replied := by
  obtain ⟨k, hreply, hrep⟩ := run_replyEach_tracked hk hpid hms
  have hfol : w.kern.Follows k := by
    simpa only [hreply] using run_follows (MachProcess.replyEach w.proc.mExceptionMessages) w
  have hresume := run_resumeTask (w := ⟨{ w.proc with mExceptionMessages := [] }, k⟩)
    (hfol.faultFree hk) ((hfol.live _).trans hl)
  refine ⟨⟨{ w.proc with mExceptionMessages := [], mStatus := .running },
    k.resumed w.proc.mTask.mTask⟩, ?_, fun m hm => ?_⟩
  · rw [run_resume_eq hst, Prog.run_bind_done (h := hreply)]
    exact hresume
  · have hsent : (k.resumed w.proc.mTask.mTask).replied = k.replied := by
      unfold Kernel.resumed
      split <;> rfl
    simp only [hsent, hrep]
    exact List.mem_append_right _ (List.mem_map_of_mem hm)

end Replies

end MachDebug
