import MachDebug.Main.Typestate

/-!
# Attaching and detaching in the program

An attach to a process other than `0` leaves the process stopped, with its task port known, and a
detach leaves it detached with the exception thread ended, or a kernel call has failed.

## Main results

* `attach_ends`, `detach_ends`: the calls
-/

namespace MachDebug

open Program

/-! ## The task port -/

/-- Nothing is attached, and the process is known. -/
def Machine.Named (m : Machine) : Prop :=
  m.world.proc.mStatus = .detach ∧ 0 < m.world.proc.mPid

theorem Machine.Named.steadfast : Steadfast Machine.Named := fun _ _ h hm =>
  ⟨h.status.trans hm.1, h.pid ▸ hm.2⟩

/-- The retries of `MachTask::TaskPortForProcessID`. -/
theorem taskForPidRetry_ends (pid : ℤ) (n : ℕ) :
    Ends (fun m => m.Named ∧ (n = 0 → m.failed = true))
      (debugger (MachTask.taskForPidRetry pid n))
      fun t m => m.Named ∧ (t = 0 → m.failed = true) := by
  have hnamed := Machine.Named.steadfast
  have hlost (F : Prop) : Steadfast fun m => F → m.failed = true := fun m m' h hF hf =>
    h.failed (hF hf)
  have hret (t : Port) : Ends (fun m => m.Named ∧ (t = 0 → m.failed = true))
      (debugger (pure t)) fun t m => m.Named ∧ (t = 0 → m.failed = true) :=
    .pure (Q := fun (t : Port) m => m.Named ∧ (t = 0 → m.failed = true)) (hnamed.and (hlost _))
  induction n with
  | zero => exact (hret 0).mono (fun m hm => ⟨hm.1, fun _ => hm.2 rfl⟩) fun _ _ => id
  | succ n ih =>
    unfold MachTask.taskForPidRetry
    refine .seq (.answer (o := .sys (.taskForPid pid)) (R := fun r => r.1 = 0 → r.2 ≠ 0)
      (part_all rfl) (hnamed.and (hlost _)) fun m r w' _ he => ?_) fun r => ?_
    · -- a call that succeeds finds a port
      have hr := (world_sys_proc he).2
      rw [show r = _ from (congrArg Prod.fst (Option.some.inj hr)).symm]
      refine Kernel.issue_ind (M := fun x : (KernReturn × Port) × Kernel => x.1.1 = 0 → x.1.2 ≠ 0)
        (fun e hne h => absurd h hne) ?_
      split
      · exact fun h => absurd h (show kernFailure ≠ 0 by decide)
      · exact fun _ => ‹_›
    obtain ⟨kr, t⟩ := r
    refine .of_fact fun hport => ?_
    change Ends _ (debugger (if kr = 0 then pure t else
      sys (.usleep 10000) >>= fun _ => MachTask.taskForPidRetry pid n)) _
    split
    · rename_i hkr
      exact (hret t).mono (fun m hm => ⟨hm.1.1, fun ht => absurd ht (hport hkr)⟩) fun _ _ => id
    · rename_i hkr
      refine .mono (.seq (.visit (part_all rfl) (hnamed.and steadfast_failed)) fun _ => ?_)
        (fun m hm => ⟨hm.1.1, hm.2 (decide_eq_true hkr)⟩) fun _ _ => id
      exact ih.mono (fun m hm => ⟨hm.1, fun _ => hm.2⟩) fun _ _ => id

/-- No port is known only after a failed call. -/
def Machine.Sought (m : Machine) : Prop :=
  m.Named ∧ (m.world.proc.mTask.mTask = 0 → m.failed = true)

theorem Machine.Sought.steadfast : Steadfast Machine.Sought := by
  rintro m m' h ⟨hm, ht⟩
  refine ⟨Machine.Named.steadfast m m' h hm, fun h0 => h.failed (ht ?_)⟩
  by_contra hne
  exact h.task hne h0

/-- The port is read: it is that of a process, or a call has failed. -/
theorem taskPort_ends : Ends Machine.Sought (debugger (member .taskPort))
    fun t => Granted (t ≠ 0) (Machine.At .detach False) := by
  refine .exec Machine.Sought.steadfast (fun t => (Machine.At.steadfast _ _).granted _)
    fun m t m' hm he => ?_
  obtain ⟨-, hp, rfl⟩ := world_member_kern (machine_exec_debugger he).1
  have hp : m'.world.proc = m.world.proc := hp
  refine ⟨fun ht => ⟨?_, ?_, ?_, False.elim⟩, fun ht => ?_⟩
  · rw [hp]
    exact hm.1.1
  · rw [hp]
    exact hm.1.2
  · rw [hp]
    exact ht
  · exact (near_of_exec (o := .member .taskPort) (part_all rfl) he).failed (hm.2 (not_not.mp ht))

/-- `MachTask::TaskPortForProcessID`. -/
theorem taskPortForProcessID_ends : Ends Machine.Named (debugger MachTask.taskPortForProcessID)
    fun t => Granted (t ≠ 0) (Machine.At .detach False) := by
  have hnamed := Machine.Named.steadfast
  unfold MachTask.taskPortForProcessID MachTask.taskPortForPid
  refine .seq (B := fun t m => m.Named ∧ (t ≠ 0 → m.world.proc.mTask.mTask ≠ 0)) ?_ fun t => ?_
  · refine .exec hnamed (fun t => hnamed.and fun m m' h ht hne => h.task (ht hne))
      fun m t m' hm he => ?_
    obtain ⟨-, hp, rfl⟩ := world_member_kern (machine_exec_debugger he).1
    have hp : m'.world.proc = m.world.proc := hp
    exact ⟨hnamed m m' (near_of_exec (o := .member .taskPort) (part_all rfl) he) hm,
      fun ht => hp ▸ ht⟩
  split
  · refine .mono ?_ (fun m hm => hm.1) fun _ _ => id
    refine .seq (.read (R := fun pid => 0 < pid) (part_all rfl) hnamed fun m hm => hm.2)
      fun pid => ?_
    refine .of_fact fun hpid =>
      .seq (B := fun t m => m.Named ∧ (t = 0 → m.failed = true)) ?_ fun t => ?_
    · rw [if_pos hpid.ne']
      exact (taskForPidRetry_ends pid 10).mono (fun m hm => ⟨hm, fun h => by cases h⟩) fun _ _ => id
    · refine .seq (.write ?_ Machine.Sought.steadfast fun m m' hm hk hp hf _ => ?_)
        fun _ => taskPort_ends
      · exact hnamed.and fun m m' h hm ht => h.failed (hm ht)
      · refine ⟨⟨?_, ?_⟩, fun ht => ?_⟩
        · rw [hp]
          exact hm.1.1
        · rw [hp]
          exact hm.1.2
        · rw [hp] at ht
          rw [hf]
          exact hm.2 ht
  · rename_i hne
    exact taskPort_ends.mono (fun m hm => ⟨hm.1, fun h0 => absurd h0 (hm.2 hne)⟩) fun _ _ => id

/-! ## The exception thread -/

section Thread

variable {st : ProcessStatus} {joined : Prop}

/-- `MachTask::IsValid`. -/
theorem isValid_ends (t : Port) : Ends (Granted (t ≠ 0) (Machine.At st joined))
    (debugger (MachTask.isValid t)) fun b => Granted (b = true) (Machine.At st joined) := by
  have hA := Machine.At.steadfast st joined
  have hret (b : Bool) : Ends (Granted (b = true) (Machine.At st joined)) (debugger (pure b))
      fun b => Granted (b = true) (Machine.At st joined) :=
    .pure (Q := fun b => Granted (b = true) (Machine.At st joined)) (hA.granted _)
  unfold MachTask.isValid MachTask.basicInfo
  split
  · rename_i ht
    refine .mono ?_ (fun m hm => hm.1 ht) fun _ _ => id
    refine .seq (.sys (part_all rfl) hA fun _ => rfl) fun r => ?_
    refine (hret (decide (r.1 = 0))).mono (fun m hm => ?_) fun _ _ => id
    rwa [decide_eq_true_iff]
  · rename_i ht
    exact (hret false).mono (fun m hm => ⟨fun h => absurd h (by decide), fun _ => hm.2 ht⟩)
      fun _ _ => id

/-- A call on the exception thread itself. -/
theorem thread_ends (joined : Prop) {o : SysOp KernReturn}
    (hfails : ∀ e, (Op.sys o).fails e = decide (e ≠ 0))
    (h : ∀ k k', o.exec k = some (0, k') → joined → k'.excThread = false) :
    Ends (Machine.At st False) (debugger (sys o))
      fun e => Granted (e = 0) (Machine.At st joined) := by
  refine .exec (Machine.At.steadfast st False) (fun e => (Machine.At.steadfast st joined).granted _)
    fun m e m' hm he => ?_
  obtain ⟨hw, hf, -⟩ := machine_exec_debugger he
  obtain ⟨hp, hk⟩ := world_sys_proc hw
  refine ⟨?_, fun hne => ?_⟩
  · rintro rfl
    refine ⟨?_, ?_, ?_, h _ _ hk⟩
    · rw [hp]
      exact hm.status
    · rw [hp]
      exact hm.pid
    · rw [hp]
      exact hm.task
  · rw [hf, hfails, decide_eq_true hne, Bool.or_true]

/-- `MachException::PortInfo::Save`: the mask saved is empty only after a failed call. -/
theorem save_ends (sdk : Sdk) (t : Port) : Ends (Machine.At st joined)
    (debugger (PortInfo.save sdk t)) fun r => Granted (r.2.mask ≠ 0) (Machine.At st joined) := by
  have hA := Machine.At.steadfast st joined
  have hret (kr : KernReturn) (mask : ExceptionMask) (xs : List PortEntry) (hmask : mask ≠ 0) :
      Ends (fun m => m.At st joined ∧ (kr ≠ 0 → m.failed = true))
        (debugger
          (pure (kr, if kr ≠ 0 then ⟨0, []⟩ else ⟨mask, xs⟩) : Code (KernReturn × PortInfo)))
        fun r => Granted (r.2.mask ≠ 0) (Machine.At st joined) := by
    refine .mono (.pure (Q := fun (r : KernReturn × PortInfo) =>
      Granted (r.2.mask ≠ 0) (Machine.At st joined)) (hA.granted _))
      (fun m hm => ⟨fun _ => hm.1, ?_⟩)
      fun _ _ => id
    split
    · exact fun _ => hm.2 ‹_›
    · exact fun h => absurd hmask h
  have hall : sdk.excMaskAll ≠ 0 := by
    intro h0
    have h := sdk.prev_le
    rw [h0] at h
    exact absurd h (by decide)
  have hcall (mask : ExceptionMask) := Ends.answer (o := .sys (.taskGetExceptionPorts t mask))
    (R := fun _ => True) (part_all rfl) hA fun _ _ _ _ _ => trivial
  unfold PortInfo.save
  refine .seq (hcall _) fun ⟨kr, entries⟩ => .of_fact fun _ => ?_
  change Ends _ (debugger (if _ then _ else _)) _
  split
  · refine .mono (.seq (hcall _) fun r => .of_fact fun _ => ?_) (fun m hm => hm.1) fun _ _ => id
    exact (hret r.1 prevExcMaskAll r.2 (by decide)).mono
      (fun m hm => ⟨hm.1, fun hkr => hm.2 (decide_eq_true hkr)⟩) fun _ _ => id
  · exact (hret kr sdk.excMaskAll entries hall).mono
      (fun m hm => ⟨hm.1, fun hkr => hm.2 (decide_eq_true hkr)⟩) fun _ _ => id

/-- The part of `MachTask::StartExceptionThread` that saves the target's exception ports. -/
theorem savePorts_ends (sdk : Sdk) : Ends (Machine.At st joined) (debugger (MachTask.savePorts sdk))
    fun r => Granted (r.2.mask ≠ 0) (Machine.At st joined) := by
  have hA := Machine.At.steadfast st joined
  unfold MachTask.savePorts
  refine .seq (.visit (part_all rfl) hA) fun port => ?_
  refine .seq (.sys (part_all rfl) hA fun _ => rfl) fun kr => ?_
  refine .seq (.orAbort hA decide_eq_true_iff) fun _ => .seq (.visit (part_all rfl) hA) fun t => ?_
  exact .seq (save_ends sdk t) fun r => .pure (a := (DNBError.ofKern kr, r.2))
    (Q := fun r => Granted (r.2.mask ≠ 0) (Machine.At st joined)) (hA.granted _)

/-- The part of `MachTask::StartExceptionThread` that redirects the target's exceptions and starts
the thread that listens. -/
theorem redirect_ends (ignored : List ExceptionMask) (t : Port) (err : DNBError) (info : PortInfo) :
    Ends (Granted (info.mask ≠ 0) (Machine.At st False))
      (debugger (MachTask.redirect ignored t err info))
      fun r => Granted (r.1 = true) (Machine.At st False) := by
  have hA := Machine.At.steadfast st False
  have hret (r : Bool × DNBError) : Ends (Granted (r.1 = true) (Machine.At st False))
      (debugger (pure r)) fun r => Granted (r.1 = true) (Machine.At st False) :=
    .pure (Q := fun (r : Bool × DNBError) => Granted (r.1 = true) (Machine.At st False))
      (hA.granted _)
  unfold MachTask.redirect
  refine .seq (.visit (part_all rfl) (hA.granted _)) fun _ => ?_
  split
  · rename_i h0
    exact (hret _).mono
      (fun m hm => ⟨fun h => absurd h Bool.false_ne_true, fun _ => hm.2 (not_not.mpr h0)⟩)
      fun _ _ => id
  · rename_i h0
    refine .mono ?_ (fun m hm => hm.1 h0) fun _ _ => id
    refine .seq (.visit (part_all rfl) hA) fun _ => .seq (.visit (part_all rfl) hA) fun port => ?_
    refine .seq (.sys (part_all rfl) hA fun _ => rfl) fun kr => ?_
    refine .seq (.orAbort hA decide_eq_true_iff) fun _ => ?_
    refine .seq (thread_ends False (fun _ => rfl) fun _ _ _ => False.elim) fun kr => ?_
    exact (hret _).mono (fun m hm => by rwa [DNBError.success_ofKern, decide_eq_true_iff])
      fun _ _ => id

/-- `MachTask::StartExceptionThread`. -/
theorem startExceptionThread_ends (sdk : Sdk) (ignored : List ExceptionMask) (err : DNBError) :
    Ends Machine.Named (debugger (MachTask.startExceptionThread sdk ignored err))
      fun r => Granted (r.1 = true) (Machine.At .detach False) := by
  have hA := Machine.At.steadfast .detach False
  unfold MachTask.startExceptionThread
  refine .seq taskPortForProcessID_ends fun t => .seq (isValid_ends t) fun valid => ?_
  split
  · rename_i hv
    refine .mono ?_ (fun m hm => hm.1 hv) fun _ _ => id
    unfold MachTask.listen
    refine .seq (.sys (part_all rfl) hA fun _ => rfl) fun r => ?_
    refine .seq (.visit (part_all rfl) (hA.granted _)) fun _ => ?_
    refine .seq (.orAbort hA decide_eq_true_iff) fun _ => .seq (savePorts_ends sdk) fun s => ?_
    exact redirect_ends ignored t s.1 s.2
  · rename_i hv
    refine .mono (.pure (Q := fun (r : Bool × DNBError) =>
      Granted (r.1 = true) (Machine.At .detach False)) (hA.granted _))
      (fun m hm => ⟨fun h => absurd h Bool.false_ne_true, fun _ => hm.2 hv⟩) fun _ _ => id

end Thread

/-! ## The calls -/

/-- Nothing is attached. -/
def Machine.Free (m : Machine) : Prop := m.world.proc.mStatus = .detach

theorem Machine.Free.steadfast : Steadfast Machine.Free := fun _ _ h hm => h.status.trans hm

/-- `MachProcess::Attach`, to a process other than `0`. -/
theorem attach_ends (sdk : Sdk) {pid : ℤ} (hpid : pid ≠ 0) (ignored : List ExceptionMask) :
    Ends Machine.Free (debugger (MachProcess.attach sdk pid ignored))
      fun _ => Machine.At .stop False := by
  have hfree := Machine.Free.steadfast
  have hA := Machine.At.steadfast .detach False
  unfold MachProcess.attach
  refine .seq (B := fun r => Granted (r.1 = true) (Machine.At .detach False)) ?_ fun r => ?_
  · refine .assertStatus (c := fun s => s = .detach) hfree (fun _ hm => hm) rfl ?_
    rw [if_neg hpid]
    refine .seq (.answer (o := .sys (.getpgid pid)) (R := fun e => e = 0 → 0 ≤ pid) (part_all rfl)
      hfree fun m e w' _ he => ?_) fun e => .of_fact fun hpos => ?_
    · -- a process that exists is not negative
      have he := (world_sys_proc he).2
      rw [show e = _ from (congrArg Prod.fst (Option.some.inj he)).symm]
      refine Kernel.issue_ind (M := fun x : KernReturn × Kernel => x.1 = 0 → 0 ≤ pid)
        (fun e hne h => absurd h hne) ?_
      split
      · exact fun h => absurd h (show esrch ≠ 0 by decide)
      · exact fun _ => not_lt.mp ‹_›
    refine .mono (.orThrow (A := fun m => 0 ≤ pid ∧ m.Free) Iff.rfl ?_)
      (fun m hm => ⟨fun he => ⟨hpos he, hm.1⟩, fun he => hm.2 (decide_eq_true he)⟩) fun _ _ => id
    refine .of_fact fun hle => .seq
      (.write hfree Machine.Named.steadfast fun m m' hm _ hp _ _ => ?_)
      fun _ => startExceptionThread_ends sdk ignored {}
    refine ⟨?_, ?_⟩
    · rw [hp]
      exact hm
    · rw [hp]
      exact lt_of_le_of_ne hle hpid.symm
  · unfold MachProcess.attachStarted
    refine .orThrow (by simp) ?_
    refine .seq (.sys (part_all rfl) hA fun _ => rfl) fun e => .orThrow Iff.rfl ?_
    exact .seq (.visit (part_all rfl) hA) fun _ => setStatus_ends _

/-- The loop of `Restore`. -/
theorem restoreEntries_ends {st : ProcessStatus} {joined : Prop} (t : Port) (xs : List PortEntry) :
    Ends (Machine.At st joined) (debugger (PortInfo.restoreEntries t xs))
      fun _ => Machine.At st joined := by
  have hA := Machine.At.steadfast st joined
  have hret (kr : KernReturn) : Ends (Machine.At st joined) (debugger (pure kr))
      fun _ => Machine.At st joined := .pure (Q := fun _ => Machine.At st joined) hA
  induction xs with
  | nil => exact hret 0
  | cons x xs ih =>
    unfold PortInfo.restoreEntries
    refine .seq (.visit (part_all rfl) hA) fun kr => ?_
    split
    · exact hret kr
    · exact ih

/-- `MachTask::ShutDownExcecptionThread`: the exception thread has ended. -/
theorem shutDownExcecptionThread_ends {st : ProcessStatus} :
    Ends (Machine.At st False) (debugger MachTask.shutDownExcecptionThread)
      fun kr => Granted (kr = 0) (Machine.At st True) := by
  have hA := Machine.At.steadfast st False
  unfold MachTask.shutDownExcecptionThread PortInfo.restore
  refine .seq (.visit (part_all rfl) hA) fun info => .seq (.visit (part_all rfl) hA) fun t => ?_
  refine .seq (.seq (restoreEntries_ends t info.entries) fun kr =>
    .pure (Q := fun (r : KernReturn × PortInfo) => Machine.At st False) hA) fun r => ?_
  refine .seq (.visit (part_all rfl) hA) fun _ => ?_
  unfold MachTask.joinExceptionThread
  refine .seq (.visit (part_all rfl) hA) fun port => .seq (.visit (part_all rfl) hA) fun _ => ?_
  refine .seq (thread_ends False (fun _ => rfl) fun _ _ _ => False.elim) fun e => ?_
  refine .seq (.orAbort hA decide_eq_true_iff) fun _ => ?_
  refine .seq (thread_ends True (fun _ => rfl) fun k k' hk _ => ?_) fun e => ?_
  · -- a join that succeeds has waited for the end of the thread
    have hjoin : ∀ x : KernReturn × Kernel, k.issue .pthreadJoin id (fun k =>
        (0, { k with excThread := false })) = x → x.1 = 0 → x.2.excThread = false := by
      rintro x rfl
      exact Kernel.issue_ind (M := fun x : KernReturn × Kernel => x.1 = 0 → x.2.excThread = false)
        (fun e hne h => absurd h hne) fun _ => rfl
    exact hjoin (0, k') (Option.some.inj hk) rfl
  · refine .seq (.orAbort (Machine.At.steadfast st True) decide_eq_true_iff) fun _ => ?_
    exact .sys (part_all rfl) (Machine.At.steadfast st True) fun _ => rfl

/-- `MachProcess::Detach`. -/
theorem detach_ends {st : ProcessStatus} (hst : st ≠ .detach) : Ends (Machine.At st False)
    (debugger MachProcess.detach) fun _ => Machine.At .detach True := by
  have hA := Machine.At.steadfast st False
  have hrest (st : ProcessStatus) : Ends (Machine.At st False)
      (debugger (MachTask.shutDownExcecptionThread >>= fun kr => MachProcess.detachPtrace kr >>=
        fun _ => MachProcess.releaseTask)) fun _ => Machine.At .detach True := by
    have hA := Machine.At.steadfast st True
    have hreleased := Machine.At.steadfast .detach True
    refine .seq shutDownExcecptionThread_ends fun kr =>
      .seq (B := fun _ => Machine.At .detach True) (.orThrow Iff.rfl ?_) fun _ => ?_
    · refine .seq (.visit (part_all rfl) hA) fun pid => ?_
      exact .seq (.sys (part_all rfl) hA fun _ => rfl) fun e => .orThrow Iff.rfl (setStatus_ends _)
    · refine .seq taskResume_ends fun kr => .orThrow Iff.rfl ?_
      exact .pure (Q := fun _ => Machine.At .detach True) hreleased
  unfold MachProcess.detach
  refine .assertStatus (c := fun s => s = .running || s = .stop) hA (fun _ hm => hm.status) ?_ ?_
  · cases st with
    | detach => exact absurd rfl hst
    | running => rfl
    | stop => rfl
  · split
    · rename_i hs
      subst hs
      exact .seq stop_ends fun _ => hrest .stop
    · exact hrest st

end MachDebug
