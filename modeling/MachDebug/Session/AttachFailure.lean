import MachDebug.Debugger.Run

/-!
# A failed attach

`MachProcess::Attach` can fail before and after it has redirected the target's exception ports
and started the exception thread, and it undoes nothing. So a failed attach leaves the target and
the debugger as they were exactly when it failed before the exception port was allocated.

## Main definitions

* `AttachedClean w w'`: nothing of a failed attach is left behind
* `NoTarget k pid t`: the attach fails before it has allocated anything

## Main results

* `run_attach_target`, `run_attach_noTarget`: an attach up to the allocation of the exception port
* `attach_throws_clean_iff`: a failed attach leaves nothing behind exactly when it fails early
-/

namespace MachDebug

open Program

namespace MachProcess

/-- The kernel refuses the process, or the task port it is tracked by is not valid. -/
def NoTarget (k : Kernel) (pid : ℤ) (t : Port) : Prop :=
  pid ≤ 0 ∨ (k.faults .getpgid (k.calls .getpgid)).isSome = true ∨ k.probe t = false

/-- The task port that an attach to `pid` works on. -/
def attachPort (w : World) (pid : ℤ) : Port :=
  if w.proc.mTask.mTask = 0 then w.kern.portFor pid else w.proc.mTask.mTask

section Prefix

variable (sdk : Sdk) (pid : ℤ) (ignored : List ExceptionMask) {w : World}

/-- `StartExceptionThread` finds the task port and probes it. -/
theorem run_startExceptionThread (w : World) {t : Port} (ht : attachPort w w.proc.mPid = t) :
    ∃ k, w.kern.Recounted k ∧ (∀ c, c ≠ .taskForPid → c ≠ .taskInfo → k.calls c = w.kern.calls c) ∧
    (MachTask.startExceptionThread sdk ignored {}).run world w =
      (if w.kern.probe t then MachTask.listen sdk ignored t else return (false, {})).run world
        ⟨{ w.proc with mTask.mTask := t }, k⟩ := by
  obtain ⟨k, hk, hport⟩ := run_taskPortForProcessID w
  obtain ⟨k', hk', hvalid⟩ := run_isValid t ⟨{ w.proc with mTask.mTask := t }, k⟩
  have hcalls (c : KCall) (h₁ : c ≠ .taskForPid) (h₂ : c ≠ .taskInfo) :
      k'.calls c = w.kern.calls c := (hk'.calls_of_ne h₂).trans (hk.calls_of_ne h₁)
  refine ⟨k', hk.recounted.trans hk'.recounted, hcalls, ?_⟩
  unfold attachPort at ht
  rw [ht] at hport
  unfold MachTask.startExceptionThread
  rw [Prog.bind_eq, Prog.run_bind_done (h := hport), Prog.bind_eq, Prog.run_bind_done (h := hvalid)]
  rw [hk.probe_eq (by decide)]

/-- An attach whose process exists goes on to start the exception thread. -/
theorem run_attachStart_exists (hst : w.proc.mStatus = .detach) (hpid : 0 < pid)
    (hf : w.kern.faults .getpgid (w.kern.calls .getpgid) = none) :
    ∃ k, w.kern.Recounted k ∧ (attachStart sdk pid ignored).run world w =
      (if w.kern.probe (attachPort w pid) then MachTask.listen sdk ignored (attachPort w pid)
        else return (false, {})).run world
        ⟨{ w.proc with mPid := pid, mTask.mTask := attachPort w pid }, k⟩ := by
  have hex : (SysOp.getpgid pid).exec w.kern = some (0, w.kern.tally .getpgid) := by
    simp [SysOp.exec, Kernel.issue, hf, hpid.le]
  have hcount := Kernel.Counted.tally .getpgid w.kern
  obtain ⟨k, hk, -, hrun⟩ := run_startExceptionThread sdk ignored
    ⟨{ w.proc with mPid := pid }, w.kern.tally .getpgid⟩ (t := attachPort w pid)
    (by simp [attachPort, hcount.portFor_eq])
  refine ⟨k, hcount.recounted.trans hk, ?_⟩
  rw [hcount.probe_eq (by decide)] at hrun
  unfold attachStart
  simp only [Prog.bind_eq, member_bind, sys_bind, run_assert_status hst, hpid.ne', if_false]
  rw [run_sys hex]
  exact hrun

/-- An attach whose process does not exist throws. -/
theorem run_attachStart_refused (hst : w.proc.mStatus = .detach)
    (h : pid ≤ 0 ∨ (w.kern.faults .getpgid (w.kern.calls .getpgid)).isSome = true) :
    ∃ e k, w.kern.Recounted k ∧
      (attachStart sdk pid ignored).run world w = (.threw e, ⟨w.proc, k⟩) := by
  unfold attachStart
  simp only [Prog.bind_eq, member_bind, sys_bind, run_assert_status hst]
  by_cases hpid : pid = 0
  · exact ⟨.text "pid == 0", w.kern, .refl _, by simp [hpid]⟩
  · obtain ⟨e, he, hex⟩ : ∃ e : KernReturn, e ≠ 0#32 ∧
        (SysOp.getpgid pid).exec w.kern = some (e, w.kern.tally .getpgid) := by
      cases hf : w.kern.faults .getpgid (w.kern.calls .getpgid) with
      | some e => exact ⟨e.1, e.2, by simp [SysOp.exec, Kernel.issue, hf]⟩
      | none =>
        have hneg : pid < 0 := lt_of_le_of_ne (by simpa [hf] using h) hpid
        exact ⟨esrch, by decide, by simp [SysOp.exec, Kernel.issue, hf, hneg]⟩
    refine ⟨.text "no such process", _, (Kernel.Counted.tally .getpgid w.kern).recounted, ?_⟩
    simp only [hpid, if_false]
    rw [run_sys hex]
    simp [he]

/-- An attach with a target goes on to listen for its exceptions. -/
theorem run_attachStart_target (hst : w.proc.mStatus = .detach)
    (h : ¬ NoTarget w.kern pid (attachPort w pid)) :
    ∃ k, w.kern.Recounted k ∧ (attachStart sdk pid ignored).run world w =
      (MachTask.listen sdk ignored (attachPort w pid)).run world
        ⟨{ w.proc with mPid := pid, mTask.mTask := attachPort w pid }, k⟩ := by
  simp only [NoTarget, not_or, not_le, Bool.not_eq_true, Bool.not_eq_false] at h
  obtain ⟨hpid, hpg, hprobe⟩ := h
  obtain ⟨k, hk, hrun⟩ := run_attachStart_exists sdk pid ignored hst hpid (by simpa using hpg)
  exact ⟨k, hk, by rw [hrun, if_pos hprobe]⟩

/-- An attach with a target that returns or throws has listened for the target's exceptions. -/
theorem run_attach_target (hst : w.proc.mStatus = .detach)
    (h : ¬ NoTarget w.kern pid (attachPort w pid)) :
    ∃ k, w.kern.Recounted k ∧ (attach sdk pid ignored).run world w =
      ((MachTask.listen sdk ignored (attachPort w pid)).bind
        fun r => attachStarted pid r.1 r.2).run world
        ⟨{ w.proc with mPid := pid, mTask.mTask := attachPort w pid }, k⟩ := by
  obtain ⟨k, hk, hrun⟩ := run_attachStart_target sdk pid ignored hst h
  exact ⟨k, hk, by rw [attach, Prog.bind_eq, Prog.run_bind, hrun, ← Prog.run_bind]⟩

/-- An attach without a target throws, and has changed the process id and the task port at
most. -/
theorem run_attach_noTarget (hst : w.proc.mStatus = .detach)
    (h : NoTarget w.kern pid (attachPort w pid)) :
    ∃ e p k, (attach sdk pid ignored).run world w = (.threw e, ⟨p, k⟩) ∧ w.kern.Recounted k ∧
      (p = w.proc ∨ p = { w.proc with mPid := pid, mTask.mTask := attachPort w pid }) := by
  by_cases href : pid ≤ 0 ∨ (w.kern.faults .getpgid (w.kern.calls .getpgid)).isSome = true
  · obtain ⟨e, k, hk, hrun⟩ := run_attachStart_refused sdk pid ignored hst href
    refine ⟨e, w.proc, k, ?_, hk, .inl rfl⟩
    rw [attach, Prog.bind_eq, Prog.run_bind, hrun]
    rfl
  · have hprobe : w.kern.probe (attachPort w pid) = false := by
      simpa only [NoTarget, ← or_assoc, href, false_or] using h
    simp only [not_or, not_le] at href
    obtain ⟨k, hk, hrun⟩ :=
      run_attachStart_exists sdk pid ignored hst href.1 (by simpa using href.2)
    refine ⟨.error "unable to start the exception thread due to " {}, _, k, ?_, hk, .inr rfl⟩
    rw [attach, Prog.bind_eq, Prog.run_bind, hrun, hprobe]
    simp [Prog.Outcome.andThen, attachStarted]

/-- An attach that has got past `StartExceptionThread` was for a process that exists. -/
theorem attachStart_inv {r : Bool × DNBError} {w' : World}
    (h : (attachStart sdk pid ignored).run world w = (.done r, w')) :
    w.proc.mStatus = .detach ∧ 0 < pid ∧
      w.kern.faults .getpgid (w.kern.calls .getpgid) = none ∧ ∃ k, w.kern.Recounted k ∧
      (if w.kern.probe (attachPort w pid) then MachTask.listen sdk ignored (attachPort w pid)
        else return (false, {})).run world
        ⟨{ w.proc with mPid := pid, mTask.mTask := attachPort w pid }, k⟩ = (.done r, w') := by
  have hst : w.proc.mStatus = .detach := by
    by_contra hne
    simp [attachStart, run_member, MemberOp.exec, hne] at h
  by_cases href : pid ≤ 0 ∨ (w.kern.faults .getpgid (w.kern.calls .getpgid)).isSome = true
  · obtain ⟨e, k, -, hrun⟩ := run_attachStart_refused sdk pid ignored hst href
    rw [hrun] at h
    cases h
  · simp only [not_or, not_le] at href
    obtain ⟨k, hk, hrun⟩ :=
      run_attachStart_exists sdk pid ignored hst href.1 (by simpa using href.2)
    exact ⟨hst, href.1, by simpa using href.2, k, hk, hrun.symm.trans h⟩

/-- The process and the task that an attach works on when the process exists. -/
theorem run_attachStart_target_members (hst : w.proc.mStatus = .detach) (hpid : 0 < pid)
    (hf : w.kern.faults .getpgid (w.kern.calls .getpgid) = none) :
    ((attachStart sdk pid ignored).run world w).2.proc.mPid = pid ∧
      ((attachStart sdk pid ignored).run world w).2.proc.mTask.mTask = attachPort w pid := by
  obtain ⟨k, -, hrun⟩ := run_attachStart_exists sdk pid ignored hst hpid hf
  have hwithin : Within [.ports, .exceptionPort, .excPortInfo, .portTable, .thread]
      (if w.kern.probe (attachPort w pid) then MachTask.listen sdk ignored (attachPort w pid)
        else return (false, {})) :=
    .ite (listen_within sdk ignored _) (by simp)
  rw [hrun]
  exact ⟨hwithin.run_same (x := .pid) (by decide) _,
    hwithin.run_same (x := .taskPort) (by decide) _⟩

/-- The process and the task that an attach works on, once it has got past
`StartExceptionThread`. -/
theorem attachStart_target {r : Bool × DNBError} {w' : World}
    (h : (attachStart sdk pid ignored).run world w = (.done r, w')) :
    w'.proc.mPid = pid ∧ w'.proc.mTask.mTask = attachPort w pid := by
  obtain ⟨hst, hpid, hf, -⟩ := attachStart_inv sdk pid ignored h
  simpa only [h] using run_attachStart_target_members sdk pid ignored hst hpid hf

end Prefix

/-- Nothing of a failed attach is left behind: the exception ports of every task are as before, no
exception thread is running, no exception port is held, and the status is still detached. -/
def AttachedClean (w w' : World) : Prop :=
  (∀ t, (w'.kern.task t).excPorts = (w.kern.task t).excPorts) ∧ w'.kern.excThread = false ∧
    w'.proc.mTask.mExceptionPort = 0 ∧ w'.proc.mStatus = .detach

/-- An attach that throws while it listens still holds its exception port. -/
theorem listen_threw_port {sdk : Sdk} {pid : ℤ} {ignored : List ExceptionMask} {t : Port}
    {w w' : World} {e : RuntimeError}
    (h : ((MachTask.listen sdk ignored t).bind fun r => attachStarted pid r.1 r.2).run world w =
      (.threw e, w')) : w'.proc.mTask.mExceptionPort ≠ 0 := by
  unfold MachTask.listen at h
  simp only [Prog.bind_eq, sys_bind, Prog.bind_op] at h
  cases hf : w.kern.faults .machPortAllocate (w.kern.calls .machPortAllocate) with
  -- without a port an assertion fails, which throws nothing
  | some c =>
    rw [run_sys (b := (c.1, 0)) (k := w.kern.tally .machPortAllocate)
      (by simp [SysOp.exec, Kernel.issue, hf])] at h
    simp [run_member, c.2] at h
  | none =>
    rw [run_sys (b := (0, w.kern.lastPort + 1))
      (k := { w.kern.tally .machPortAllocate with lastPort := w.kern.lastPort + 1 })
      (by simp [SysOp.exec, Kernel.issue, hf])] at h
    simp only [member_bind, Prog.bind_op, run_member, MemberOp.exec, DNBError.success_ofKern,
      decide_true, Prog.assert_true, Prog.bind_ret] at h
    -- nothing after the allocation writes the member
    have hsame : Within [.excPortInfo, .portTable, .thread, .status]
        (((MachTask.savePorts sdk).bind fun s => MachTask.redirect ignored t s.1 s.2).bind
          fun r => attachStarted pid r.1 r.2) := by
      refine .bind (.bind ((savePorts_within sdk).mono (by simp)) fun s => ?_) fun r => ?_
      · exact (redirect_within ignored t s.1 s.2).mono (by decide)
      · exact (attachStarted_within pid r.1 r.2).mono (by decide)
    have hport := hsame.run_same (x := .exceptionPort) (by decide)
      ⟨{ w.proc with mTask.mExceptionPort := w.kern.lastPort + 1 },
        { w.kern.tally .machPortAllocate with lastPort := w.kern.lastPort + 1 }⟩
    rw [h] at hport
    rw [show w'.proc.mTask.mExceptionPort = w.kern.lastPort + 1 from hport]
    exact Nat.succ_ne_zero _

/-- **A failed attach leaves nothing behind exactly when it fails early**: for a process id that is
not positive, a process that does not exist, or a task port that is not found or not valid. -/
theorem attach_throws_clean_iff (sdk : Sdk) (pid : ℤ) (ignored : List ExceptionMask) (k : Kernel)
    (hth : k.excThread = false) {e : RuntimeError} {w' : World}
    (h : (attach sdk pid ignored).run world ⟨{}, k⟩ = (.threw e, w')) :
    AttachedClean ⟨{}, k⟩ w' ↔ NoTarget k pid (k.portFor pid) := by
  have hport : attachPort ⟨{}, k⟩ pid = k.portFor pid := by simp [attachPort]
  by_cases hn : NoTarget k pid (k.portFor pid)
  · simp only [hn, iff_true]
    obtain ⟨e', p, k', hrun, ⟨calls, -, rfl⟩, hp⟩ :=
      run_attach_noTarget sdk pid ignored (w := ⟨{}, k⟩) rfl (hport ▸ hn)
    obtain ⟨-, rfl⟩ := Prod.mk.inj (h.symm.trans hrun)
    rcases hp with rfl | rfl <;> exact ⟨fun _ => rfl, hth, rfl, rfl⟩
  · simp only [hn, iff_false]
    obtain ⟨k', -, hrun⟩ := run_attach_target sdk pid ignored (w := ⟨{}, k⟩) rfl (hport ▸ hn)
    exact fun hc => listen_threw_port (hrun.symm.trans h) hc.2.2.1

/-- The task behind the first port that is probed has ended. -/
def staleTask : KCall → ℕ → Option {e : KernReturn // e ≠ 0#32}
  | .taskInfo, 0 => some ⟨kernInvalidArgument, kernInvalidArgument_ne_zero⟩
  | _, _ => none

/-- A process whose task port is found, but is not valid any more, is not attached to, and nothing
is left behind. -/
theorem attach_staleTask_clean : ∃ e w',
    (attach .macos 7 []).run world ⟨{}, .oneProcess staleTask⟩ = (.threw e, w') ∧
      AttachedClean ⟨{}, .oneProcess staleTask⟩ w' :=
  ⟨_, _, rfl, (attach_throws_clean_iff .macos 7 [] _ rfl rfl).mpr (.inr (.inr rfl))⟩

/-- `PT_ATTACHEXC` is refused with `EPERM`. -/
def deniedAttach : KCall → ℕ → Option {e : KernReturn // e ≠ 0#32}
  | .ptAttachExc, 0 => some ⟨1#32, by decide⟩
  | _, _ => none

/-- When `PT_ATTACHEXC` is refused, the attach throws and leaves the exception thread running, the
exception port held and the target's exceptions redirected to it. -/
theorem attach_denied_not_clean : ∃ e w',
    (attach .macos 7 []).run world ⟨{}, .oneProcess deniedAttach⟩ = (.threw e, w') ∧
      ¬ AttachedClean ⟨{}, .oneProcess deniedAttach⟩ w' := by
  refine ⟨_, _, rfl, fun h => ?_⟩
  exact absurd h.2.1 (by decide)

end MachProcess

end MachDebug
