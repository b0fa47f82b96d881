import MachDebug.Debugger.Operations

/-!
# Exception messages and exception ports

Catching an exception message, replying to it, and saving and restoring the exception ports of
the target, as in `MachException.cpp`. What the code takes from the system headers and from the
generated MIG server is a parameter: the value of `EXC_MASK_ALL`, and the handler that
`mach_exc_server` dispatches a message id to.

## Main definitions

* `Sdk`: the parameters taken from the system headers
* `MachTask.isValid`: the validity probe of a task port
* `catchMachExceptionRaise`, `machExcServer`, `Message.catchExceptionRaise`: catching a message
* `Message.reply`: the reply to a message
* `PortInfo.save`, `PortInfo.restore`: the exception ports of the target
-/

namespace MachDebug

open Program

/-- The handlers of the `mach_exc` subsystem. -/
inductive Routine
  | raise
  | raiseState
  | raiseStateIdentity
  deriving DecidableEq

/-- `PREV_EXC_MASK_ALL`: the exception types `1` to `9`, `EXC_RESOURCE` and `EXC_GUARD`
(`EXC_MASK_MACHINE` is empty on arm64). -/
def prevExcMaskAll : ExceptionMask :=
  BitVec.twoPow 32 1 ||| BitVec.twoPow 32 2 ||| BitVec.twoPow 32 3 ||| BitVec.twoPow 32 4 |||
    BitVec.twoPow 32 5 ||| BitVec.twoPow 32 6 ||| BitVec.twoPow 32 7 ||| BitVec.twoPow 32 8 |||
    BitVec.twoPow 32 9 ||| BitVec.twoPow 32 11 ||| BitVec.twoPow 32 12

/-- The parameters taken from the system headers: `EXC_MASK_ALL`, which includes the masks known
to older systems, and the handler that `mach_exc_server` calls for a message id. -/
structure Sdk where
  excMaskAll : ExceptionMask
  prev_le : prevExcMaskAll &&& excMaskAll = prevExcMaskAll
  routine : ℤ → Option Routine

/-- The headers of current systems: `EXC_MASK_ALL` has no further types, and the subsystem's message
ids start at `2405`. -/
def Sdk.macos : Sdk where
  excMaskAll := prevExcMaskAll
  prev_le := by decide
  routine id :=
    if id = 2405 then some .raise
    else if id = 2406 then some .raiseState
    else if id = 2407 then some .raiseStateIdentity
    else none

/-- `MachTask::BasicInfo`: the return code and the suspend count. -/
def MachTask.basicInfo (task : Port) : Code (KernReturn × ℕ) := sys (.taskInfo task)

/-- `MachTask::IsValid`. -/
def MachTask.isValid (task : Port) : Code Bool := do
  if task ≠ 0 then
    let (kr, _) ← MachTask.basicInfo task
    return kr = 0
  else
    return false

/-! ## Catching a message -/

/-- `catch_mach_exception_raise`, on the record that `g_message` points to. -/
def catchMachExceptionRaise (msg : ExcMsg) (g : Data) : Code (KernReturn × Data) := do
  let g := { g with excType := 0, excData := [] }
  let caught : Data := ⟨msg.task, msg.thread, msg.excType, msg.codes⟩
  if msg.task = g.taskPort then
    return (0, caught)
  else if !(← MachTask.isValid g.taskPort) then
    if msg.excType = excSoftware ∧ msg.codes = [excSoftSignal, sigtrap] then
      return (0, caught)
    else
      return (kernFailure, g)
  else
    return (kernFailure, g)

/-- `MIG_BAD_ID`. -/
def migBadId : KernReturn := BitVec.ofInt 32 (-303)

/-- `mach_exc_server`: the handler's return code goes into the reply, and the server refuses only
a message id outside the subsystem. -/
def machExcServer (sdk : Sdk) (msg : ExcMsg) (g : Data) : Code (Bool × KernReturn × Data) :=
  match sdk.routine msg.msghId with
  | some .raise => do
    let (kr, g) ← catchMachExceptionRaise msg g
    return (true, kr, g)
  | some .raiseState => return (true, kernFailure, g)
  | some .raiseStateIdentity => return (true, kernFailure, g)
  | none => return (false, migBadId, g)

/-- `MachException::Message::CatchExceptionRaise`. -/
def Message.catchExceptionRaise (sdk : Sdk) (msg : ExcMsg) (task : Port) :
    Code (Bool × Message) := do
  let (success, kr, state) ← machExcServer sdk msg { taskPort := task }
  return (success, ⟨msg, kr, state⟩)

/-! ## Replying -/

/-- The update of the thread of a soft signal, in the process found for it. -/
def Message.updateThread (m : Message) (statePid : ℤ) (signal : BitVec 32) : Code Unit := do
  Prog.assert (statePid ≠ -1)
  let _ ← sys (.ptThUpdate statePid m.state.threadPort signal)

/-- The part of `Reply` for a soft signal. Its process is looked up unless the message is from the
tracked task; a lookup that fails leaves `-1`. -/
def Message.replySoftSignal (m : Message) (signal : BitVec 32) : Code Unit := do
  if (← member .taskPort) = m.state.taskPort then
    m.updateThread (← member .processID) signal
  else
    let (_, out) ← sys (.pidForTask m.state.taskPort)
    m.updateThread (out.getD (-1)) m.state.softSignal

/-- `MachException::Message::Reply`. -/
def Message.reply (m : Message) (signal : BitVec 32) : Code KernReturn := do
  if m.state.softSignal ≠ 0 then m.replySoftSignal signal
  sys (.machMsgSend m.excMsg.serial m.retCode)

/-! ## Exception ports -/

namespace PortInfo

/-- `MachException::PortInfo::Save`: start with all exceptions, and back off to the older mask when
the kernel does not know one of them. -/
def save (sdk : Sdk) (task : Port) : Code (KernReturn × PortInfo) := do
  let mask := sdk.excMaskAll
  let (kr, entries) ← sys (.taskGetExceptionPorts task mask)
  if kr = kernInvalidArgument ∧ mask ≠ prevExcMaskAll then
    let (kr, entries) ← sys (.taskGetExceptionPorts task prevExcMaskAll)
    return (kr, if kr ≠ 0 then ⟨0, []⟩ else ⟨prevExcMaskAll, entries⟩)
  else
    return (kr, if kr ≠ 0 then ⟨0, []⟩ else ⟨mask, entries⟩)

/-- The loop of `Restore`, which stops at the first failure. -/
def restoreEntries (task : Port) : List PortEntry → Code KernReturn
  | [] => return 0
  | x :: xs => do
    let kr ← sys (.taskSetExceptionPorts task x.mask x.action)
    if kr ≠ 0 then return kr
    else restoreEntries task xs

/-- `MachException::PortInfo::Restore`: the saved entries are dropped, restored or not. -/
def restore (info : PortInfo) (task : Port) : Code (KernReturn × PortInfo) := do
  let kr ← restoreEntries task info.entries
  return (kr, { info with entries := [] })

end PortInfo

end MachDebug
