import MachDebug.Debugger.MachException

/-!
# The target task

Starting and shutting down the exception thread, suspending and resuming the target, and arming
its threads for a single step, as in `MachTask.cpp`.

## Main definitions

* `MachTask.startExceptionThread`, `MachTask.shutDownExcecptionThread`
* `MachTask.suspend`, `MachTask.resume`
* `MachTask.enableSingleStep`, `MachTask.disableSingleStep`
-/

namespace MachDebug

open Program

namespace MachTask

/-- The retry loop of `MachTask::TaskPortForProcessID`. -/
def taskForPidRetry (pid : ℤ) : ℕ → Code Port
  | 0 => return 0
  | n + 1 => do
    let (kr, task) ← sys (.taskForPid pid)
    if kr = 0 then return task
    else
      sys (.usleep 10000)
      taskForPidRetry pid n

/-- The static `MachTask::TaskPortForProcessID`. The error of its last try is a local that hides
the parameter, so the caller's error is never set. -/
def taskPortForPid (pid : ℤ) : Code Port :=
  if pid ≠ 0 then taskForPidRetry pid 10 else return 0

/-- `MachTask::TaskPortForProcessID`: the port is asked for only while none is known. -/
def taskPortForProcessID : Code Port := do
  if (← member .taskPort) = 0 then
    let task ← taskPortForPid (← member .processID)
    member (.setTaskPort task)
  member .taskPort

/-- `EXCEPTION_DEFAULT | MACH_EXCEPTION_CODES`. -/
def exceptionBehavior : BitVec 32 := 0x80000001#32

/-- `THREAD_STATE_NONE` on arm64. -/
def threadStateNone : BitVec 32 := 5#32

/-- The exception action that sends a type to the debugger's port. -/
def exceptionAction (port : Port) : ExcAction := ⟨port, exceptionBehavior, threadStateNone⟩

/-- Take the ignored masks out, one after the other. -/
def removeIgnored (mask : ExceptionMask) (ignored : List ExceptionMask) : ExceptionMask :=
  ignored.foldl (fun m i => m &&& ~~~i) mask

/-- The part of `MachTask::StartExceptionThread` that saves the target's exception ports. -/
def savePorts (sdk : Sdk) : Code (DNBError × PortInfo) := do
  let kr ← sys (.machPortInsertRight (← member .exceptionPort))
  let err := DNBError.ofKern kr
  Prog.assert err.success
  let (_, info) ← PortInfo.save sdk (← member .taskPort)
  return (err, info)

/-- The part of `MachTask::StartExceptionThread` that redirects the target's exceptions and starts
the thread that listens. -/
def redirect (ignored : List ExceptionMask) (task : Port) (err : DNBError) (info : PortInfo) :
    Code (Bool × DNBError) := do
  member (.setExcPortInfo info)
  if info.mask = 0 then
    return (false, err.setErrorString "failed to get exception port info")
  else
    let info := { info with mask := removeIgnored info.mask ignored }
    member (.setExcPortInfo info)
    let kr ← sys (.taskSetExceptionPorts task info.mask (exceptionAction (← member .exceptionPort)))
    Prog.assert (DNBError.ofKern kr).success
    let kr ← sys .pthreadCreate
    return ((DNBError.ofKern kr).success, DNBError.ofKern kr)

/-- The part of `MachTask::StartExceptionThread` for a valid task. -/
def listen (sdk : Sdk) (ignored : List ExceptionMask) (task : Port) : Code (Bool × DNBError) := do
  let (kr, port) ← sys .machPortAllocate
  member (.setExceptionPort port)
  Prog.assert (DNBError.ofKern kr).success
  let (err, info) ← savePorts sdk
  redirect ignored task err info

/-- `MachTask::StartExceptionThread`; the error is returned next to the result. -/
def startExceptionThread (sdk : Sdk) (ignored : List ExceptionMask) (err : DNBError) :
    Code (Bool × DNBError) := do
  let task ← taskPortForProcessID
  if ← isValid task then listen sdk ignored task
  else return (false, err)

/-- The part of `MachTask::ShutDownExcecptionThread` after the exception ports were restored. -/
def joinExceptionThread : Code KernReturn := do
  let exceptionPort ← member .exceptionPort
  member (.setExceptionPort 0)
  let e ← sys .pthreadCancel
  Prog.assert (DNBError.setError e .posix).success
  let e ← sys .pthreadJoin
  Prog.assert (DNBError.setError e .posix).success
  sys (.machPortDeallocate exceptionPort)

/-- `MachTask::ShutDownExcecptionThread`. The error of the restored ports is overwritten by the
calls after it. -/
def shutDownExcecptionThread : Code KernReturn := do
  let info ← member .excPortInfo
  let (_, info) ← info.restore (← member .taskPort)
  member (.setExcPortInfo info)
  joinExceptionThread

/-- `MachTask::Suspend`. -/
def suspend : Code KernReturn := do
  sys (.taskSuspend (← member .taskPort))

/-- `MachTask::Resume`: the task is resumed only when it is suspended. -/
def resume : Code KernReturn := do
  let task ← member .taskPort
  if task = 0 then return kernInvalidArgument
  else
    let (kr, suspendCount) ← basicInfo task
    if kr = 0 then
      if suspendCount > 0 then sys (.taskResume task)
      else return kr
    else return kr

/-! ## Single steps -/

/-- `SS_ENABLE`. -/
def ssEnable : BitVec 32 := 1#32

/-- The loop over the threads of `EnableSingleStep` and `DisableSingleStep`. -/
def updateThreads (f : BitVec 64 → BitVec 64) : List Port → Code Unit
  | [] => return ()
  | thread :: threads => do
    let (kr, dbg) ← sys (.threadGetState thread)
    if kr ≠ 0 then Prog.throw (.error "" (.ofKern kr))
    else
      let kr ← sys (.threadSetState thread { dbg with mdscrEl1 := f dbg.mdscrEl1 })
      if kr ≠ 0 then Prog.throw (.error "" (.ofKern kr))
      else updateThreads f threads

/-- Change the `__mdscr_el1` register of every thread of the target. -/
def updateSingleStep (f : BitVec 64 → BitVec 64) : Code Unit := do
  let (kr, threads) ← sys (.taskThreads (← member .taskPort))
  if kr ≠ 0 then Prog.throw (.error "" (.ofKern kr))
  else updateThreads f threads

/-- `MachTask::EnableSingleStep`: `__mdscr_el1 |= SS_ENABLE`. -/
def enableSingleStep : Code Unit := updateSingleStep fun r => r ||| ssEnable.setWidth 64

/-- `MachTask::DisableSingleStep`: `__mdscr_el1 &= ~SS_ENABLE`. The complement is taken in 32 bits
and then widened with zeros. -/
def disableSingleStep : Code Unit := updateSingleStep fun r => r &&& (~~~ssEnable).setWidth 64

end MachTask

end MachDebug
