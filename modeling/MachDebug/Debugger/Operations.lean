import MachDebug.Program.Basic
import MachDebug.Debugger.State

/-!
# The atomic operations of the debugger

The debugger's threads share the members of one `MachProcess` and call one kernel. An atomic
operation is one access to a member or one kernel call. The members are read and written as they
are; a kernel call fails when a failure is injected or when the kernel state refuses it (a dead
task, a mask the kernel does not know), and then leaves the target as it was.

## Main definitions

* `MemberOp`, `SysOp`, `Op`: accesses to the members, kernel calls, and both
* `World`: the debugger's members together with the kernel
* `world`: the handler of the operations
* `Code α`: the debugger's programs
-/

namespace MachDebug

open Program

/-- One access to the members of `MachProcess` and its `MachTask`. -/
inductive MemberOp : Type → Type
  | status : MemberOp ProcessStatus
  | setStatus (v : ProcessStatus) : MemberOp Unit
  | processID : MemberOp ℤ
  | setPid (v : ℤ) : MemberOp Unit
  | taskPort : MemberOp Port
  | setTaskPort (v : Port) : MemberOp Unit
  | excPortInfo : MemberOp PortInfo
  | setExcPortInfo (v : PortInfo) : MemberOp Unit
  | exceptionPort : MemberOp Port
  | setExceptionPort (v : Port) : MemberOp Unit
  /-- `m_exception_messages.empty()` -/
  | messagesEmpty : MemberOp Bool
  /-- The elements between `begin()` and `end()`. -/
  | messages : MemberOp (List Message)
  | pushMessage (m : Message) : MemberOp Unit
  | clearMessages : MemberOp Unit
  | singleStep : MemberOp Bool
  | setSingleStep (v : Bool) : MemberOp Unit

/-- The effect of a member access. -/
def MemberOp.exec {β : Type} : MemberOp β → MachProcess → β × MachProcess
  | .status, p => (p.mStatus, p)
  | .setStatus v, p => ((), { p with mStatus := v })
  | .processID, p => (p.mPid, p)
  | .setPid v, p => ((), { p with mPid := v })
  | .taskPort, p => (p.mTask.mTask, p)
  | .setTaskPort v, p => ((), { p with mTask := { p.mTask with mTask := v } })
  | .excPortInfo, p => (p.mTask.mExcPortInfo, p)
  | .setExcPortInfo v, p => ((), { p with mTask := { p.mTask with mExcPortInfo := v } })
  | .exceptionPort, p => (p.mTask.mExceptionPort, p)
  | .setExceptionPort v, p => ((), { p with mTask := { p.mTask with mExceptionPort := v } })
  | .messagesEmpty, p => (p.mExceptionMessages.isEmpty, p)
  | .messages, p => (p.mExceptionMessages, p)
  | .pushMessage m, p => ((), { p with mExceptionMessages := p.mExceptionMessages ++ [m] })
  | .clearMessages, p => ((), { p with mExceptionMessages := [] })
  | .singleStep, p => (p.mSingleStep, p)
  | .setSingleStep v, p => ((), { p with mSingleStep := v })

/-- One kernel call. An answer starts with the call's return code; `getpgid`, `ptrace` and `kill`
answer `0` or the `errno` they set. -/
inductive SysOp : Type → Type
  | getpgid (pid : ℤ) : SysOp KernReturn
  | taskForPid (pid : ℤ) : SysOp (KernReturn × Port)
  /-- `task_info` with `TASK_BASIC_INFO`: the suspend count -/
  | taskInfo (task : Port) : SysOp (KernReturn × ℕ)
  | machPortAllocate : SysOp (KernReturn × Port)
  | machPortInsertRight (port : Port) : SysOp KernReturn
  | machPortDeallocate (port : Port) : SysOp KernReturn
  | taskGetExceptionPorts (task : Port) (mask : ExceptionMask) :
      SysOp (KernReturn × List PortEntry)
  | taskSetExceptionPorts (task : Port) (mask : ExceptionMask) (action : ExcAction) :
      SysOp KernReturn
  | pthreadCreate : SysOp KernReturn
  | pthreadCancel : SysOp KernReturn
  | pthreadJoin : SysOp KernReturn
  /-- A cancellation is pending at `pthread_testcancel`. -/
  | pthreadTestcancel : SysOp Bool
  | ptAttachExc (pid : ℤ) : SysOp KernReturn
  | ptDetach (pid : ℤ) : SysOp KernReturn
  | ptThUpdate (pid : ℤ) (thread : Port) (signal : BitVec 32) : SysOp KernReturn
  | kill (pid : ℤ) (signal : BitVec 32) : SysOp KernReturn
  | usleep (usec : ℕ) : SysOp Unit
  | taskSuspend (task : Port) : SysOp KernReturn
  | taskResume (task : Port) : SysOp KernReturn
  | taskThreads (task : Port) : SysOp (KernReturn × List Port)
  | threadGetState (thread : Port) : SysOp (KernReturn × ArmDebugState64)
  | threadSetState (thread : Port) (dbg : ArmDebugState64) : SysOp KernReturn
  /-- `pid_for_task`: no output when the call fails -/
  | pidForTask (task : Port) : SysOp (KernReturn × Option ℤ)
  /-- `mach_msg` with `MACH_SEND_MSG`: the reply to the message of that serial -/
  | machMsgSend (serial : ℕ) (retCode : KernReturn) : SysOp KernReturn
  /-- `mach_msg` with `MACH_RCV_MSG`, with a timeout when `MACH_RCV_TIMEOUT` is given -/
  | machMsgReceive (port : Port) (timeout : Option ℕ) : SysOp (Except KernReturn ExcMsg)

/-- The contents of an uninitialised `arm_debug_state64_t`, which the code never uses. -/
def ArmDebugState64.zero : ArmDebugState64 := ⟨fun _ => 0, fun _ => 0, fun _ => 0, fun _ => 0, 0⟩

/-- The effect of a kernel call; a receive without timeout blocks while no message is there. -/
def SysOp.exec {β : Type} : SysOp β → Kernel → Option (β × Kernel)
  | .getpgid pid, k => some <| k.issue .getpgid id fun k => (if pid < 0 then esrch else 0, k)
  | .taskForPid pid, k => some <| k.issue .taskForPid (·, 0) fun k =>
      if k.taskOf pid = 0 then ((kernFailure, 0), k) else ((0, k.taskOf pid), k)
  | .taskInfo t, k => some <| k.issue .taskInfo (·, 0) fun k =>
      if k.live t then ((0, (k.task t).suspendCount), k) else ((machSendInvalidDest, 0), k)
  | .machPortAllocate, k => some <| k.issue .machPortAllocate (·, 0) fun k =>
      ((0, k.lastPort + 1), { k with lastPort := k.lastPort + 1 })
  | .machPortInsertRight _, k => some (k.issue .machPortInsertRight id fun k => (0, k))
  | .machPortDeallocate _, k => some (k.issue .machPortDeallocate id fun k => (0, k))
  | .taskGetExceptionPorts t m, k => some <| k.issue .taskGetExceptionPorts (·, []) fun k =>
      if k.live t then
        if m &&& k.excPorts.valid = m then ((0, k.excPorts.group (k.task t).excPorts m), k)
        else ((kernInvalidArgument, []), k)
      else ((machSendInvalidDest, []), k)
  | .taskSetExceptionPorts t m a, k => some <| k.issue .taskSetExceptionPorts id fun k =>
      if k.live t then
        if m &&& k.excPorts.valid = m then (0, k.assignPorts t m a) else (kernInvalidArgument, k)
      else (machSendInvalidDest, k)
  | .pthreadCreate, k => some <| k.issue .pthreadCreate id fun k =>
      (0, { k with excThread := true, cancelled := false })
  | .pthreadCancel, k => some <| k.issue .pthreadCancel id fun k =>
      (0, { k with cancelled := true })
  | .pthreadJoin, k => some <| k.issue .pthreadJoin id fun k =>
      (0, { k with excThread := false })
  | .pthreadTestcancel, k => some (k.cancelled, k)
  | .ptAttachExc _, k => some (k.issue .ptAttachExc id fun k => (0, k))
  | .ptDetach _, k => some (k.issue .ptDetach id fun k => (0, k))
  | .ptThUpdate _ _ _, k => some (k.issue .ptThUpdate id fun k => (0, k))
  | .kill _ _, k => some (k.issue .kill id fun k => (0, k))
  | .usleep _, k => some ((), k)
  | .taskSuspend t, k => some <| k.issue .taskSuspend id fun k =>
      if k.live t then (0, k.suspendTask t) else (machSendInvalidDest, k)
  | .taskResume t, k => some <| k.issue .taskResume id fun k =>
      if k.live t then
        (if (k.task t).suspendCount = 0 then kernFailure else 0, k.resumeTask t)
      else (machSendInvalidDest, k)
  | .taskThreads t, k => some <| k.issue .taskThreads (·, []) fun k =>
      if k.live t then ((0, (k.task t).threads), k) else ((machSendInvalidDest, []), k)
  | .threadGetState th, k => some <| k.issue .threadGetState (·, .zero) fun k =>
      ((0, k.debug th), k)
  | .threadSetState th d, k => some <| k.issue .threadSetState id fun k =>
      (0, { k with debug := Function.update k.debug th d })
  | .pidForTask t, k => some <| k.issue .pidForTask (·, none) fun k =>
      if k.live t then ((0, some (k.task t).pid), k) else ((kernFailure, none), k)
  | .machMsgSend n _, k => some <| k.issue .machMsgSend id fun k =>
      (0, { k with replied := k.replied ++ [n] })
  | .machMsgReceive _ timeout, k =>
      match k.queue, timeout with
      | [], none =>
        (k.faults .machMsgReceive (k.calls .machMsgReceive)).map fun e =>
          (.error e.1, k.tally .machMsgReceive)
      | [], some _ => some <| k.issue .machMsgReceive .error fun k => (.error machRcvTimedOut, k)
      | m :: ms, _ =>
        some <| k.issue .machMsgReceive .error fun k => (.ok m, { k with queue := ms })

/-- An atomic operation of the debugger. -/
inductive Op : Type → Type
  | member {β : Type} (o : MemberOp β) : Op β
  | sys {β : Type} (o : SysOp β) : Op β

/-- The debugger's members together with the kernel. -/
structure World where
  proc : MachProcess
  kern : Kernel

/-- The effect of an operation. -/
def Op.exec {β : Type} : Op β → World → Option (β × World)
  | .member o, w => some ((o.exec w.proc).1, { w with proc := (o.exec w.proc).2 })
  | .sys o, w => (o.exec w.kern).map fun r => (r.1, { w with kern := r.2 })

/-- The handler of the debugger's operations. -/
def world : Handler Op World := ⟨Op.exec⟩

/-- A program of the debugger. -/
abbrev Code (α : Type) := Prog Op RuntimeError α

/-- Access a member. -/
def member {β : Type} (o : MemberOp β) : Code β := Prog.call (.member o)

/-- Make a kernel call. -/
def sys {β : Type} (o : SysOp β) : Code β := Prog.call (.sys o)

@[simp] theorem member_bind {β γ : Type} (o : MemberOp β) (f : β → Code γ) :
    (member o).bind f = .op (.member o) f := rfl

@[simp] theorem sys_bind {β γ : Type} (o : SysOp β) (f : β → Code γ) :
    (sys o).bind f = .op (.sys o) f := rfl

@[simp] theorem world_exec_member {β : Type} (o : MemberOp β) (w : World) :
    world.exec (.member o) w = some ((o.exec w.proc).1, { w with proc := (o.exec w.proc).2 }) := rfl

@[simp] theorem world_exec_sys {β : Type} (o : SysOp β) (w : World) :
    world.exec (.sys o) w = (o.exec w.kern).map fun r => (r.1, { w with kern := r.2 }) := rfl

/-- A member access leaves the kernel alone. -/
theorem world_member_kern {β : Type} {o : MemberOp β} {w w' : World} {b : β}
    (h : world.exec (.member o) w = some (b, w')) :
    w'.kern = w.kern ∧ w'.proc = (o.exec w.proc).2 ∧ b = (o.exec w.proc).1 := by
  obtain ⟨rfl, rfl⟩ := Prod.mk.inj (Option.some.inj h)
  exact ⟨rfl, rfl, rfl⟩

/-- A kernel call leaves the members alone. -/
theorem world_sys_proc {β : Type} {o : SysOp β} {w w' : World} {b : β}
    (h : world.exec (.sys o) w = some (b, w')) :
    w'.proc = w.proc ∧ o.exec w.kern = some (b, w'.kern) := by
  obtain ⟨r, hr, he⟩ := Option.map_eq_some_iff.mp h
  obtain ⟨rfl, rfl⟩ := Prod.mk.inj he
  exact ⟨rfl, hr⟩

end MachDebug
