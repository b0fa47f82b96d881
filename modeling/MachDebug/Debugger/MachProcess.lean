import MachDebug.Debugger.MachTask

/-!
# The debugged process

The controller's calls on `MachProcess` and the exception thread of `MachTask`. The controller
attaches, resumes, stops, steps and detaches; the exception thread receives the target's
exceptions, suspends the target at the first one and queues them until the controller replies.

## Main definitions

* `MachProcess.attach`, `MachProcess.detach`, `MachProcess.resume`, `MachProcess.stop`,
  `MachProcess.singleStep`: the controller's calls
* `MachProcess.exceptionMessageReceived`, `MachProcess.replyToAllExceptions`
* `ExceptionThread.received`, `ExceptionThread.turn`: the exception thread
-/

namespace MachDebug

open Program

namespace MachProcess

/-! ## Exceptions -/

/-- The part of `MachProcess::ExceptionMessageReceived` after the suspension. -/
def disarmAndQueue (m : Message) : Code Unit := do
  if ← member .singleStep then
    MachTask.disableSingleStep
    member (.setSingleStep false)
  member (.pushMessage m)

/-- `MachProcess::ExceptionMessageReceived`. -/
def exceptionMessageReceived (m : Message) : Code Unit := do
  if ← member .messagesEmpty then
    let _ ← MachTask.suspend
  disarmAndQueue m

/-- The reply loop, over the elements present when it started. -/
def replyEach : List Message → Code Unit
  | [] => return ()
  | m :: ms => do
    let _ ← m.reply 0
    replyEach ms

/-- `MachProcess::ReplyToAllExceptions`. -/
def replyToAllExceptions : Code Unit := do
  Prog.assert ((← member .status) = .stop)
  if !(← member .messagesEmpty) then
    replyEach (← member .messages)
    member .clearMessages

/-! ## The controller's calls -/

/-- The part of `MachProcess::Resume` after the replies. -/
def resumeTask : Code Unit := do
  let kr ← MachTask.resume
  if kr ≠ 0 then Prog.throw (.error "" (.ofKern kr))
  else member (.setStatus .running)

/-- `MachProcess::Resume`. -/
def resume : Code Unit := do
  Prog.assert ((← member .status) = .stop)
  replyToAllExceptions
  resumeTask

/-- `MachProcess::Signal`. -/
def signal (sig : BitVec 32) : Code Unit := do
  let errno ← sys (.kill (← member .processID) sig)
  if errno ≠ 0 then Prog.throw (.errno errno)
  else return ()

/-- `MachProcess::Stop`. -/
def stop : Code Unit := do
  Prog.assert ((← member .status) = .running)
  signal sigstop
  member (.setStatus .stop)

/-- The end of `MachProcess::SingleStep`: the busy wait for the exception thread, and the status. -/
def awaitStep : Code Unit :=
  .spin (.member .singleStep) (member (.setStatus .stop))

/-- The part of `MachProcess::SingleStep` before the busy wait. -/
def armAndResume : Code Unit := do
  Prog.assert ((← member .status) = .stop)
  member (.setSingleStep true)
  MachTask.enableSingleStep
  resume

/-- `MachProcess::SingleStep`. -/
def singleStep : Code Unit := do
  armAndResume
  awaitStep

/-- The part of `MachProcess::Attach` up to `StartExceptionThread`. -/
def attachStart (sdk : Sdk) (pid : ℤ) (ignored : List ExceptionMask) : Code (Bool × DNBError) := do
  Prog.assert ((← member .status) = .detach)
  if pid = 0 then Prog.throw (.text "pid == 0")
  else
    let errno ← sys (.getpgid pid)
    if errno ≠ 0 then Prog.throw (.text "no such process")
    else
      member (.setPid pid)
      MachTask.startExceptionThread sdk ignored {}

/-- The part of `MachProcess::Attach` after `StartExceptionThread`. -/
def attachStarted (pid : ℤ) (started : Bool) (err : DNBError) : Code Unit := do
  if !started then
    Prog.throw (.error "unable to start the exception thread due to " err)
  else
    let errno ← sys (.ptAttachExc pid)
    if errno ≠ 0 then Prog.throw (.errno errno)
    else
      sys (.usleep 250000)
      member (.setStatus .stop)

/-- `MachProcess::Attach`. -/
def attach (sdk : Sdk) (pid : ℤ) (ignored : List ExceptionMask) : Code Unit := do
  let (started, err) ← attachStart sdk pid ignored
  attachStarted pid started err

/-- The end of `MachProcess::Detach`: resume the task. -/
def releaseTask : Code Unit := do
  let kr ← MachTask.resume
  if kr ≠ 0 then Prog.throw (.error "" (.ofKern kr))
  else return ()

/-- The part of `MachProcess::Detach` after the exception thread was shut down. -/
def detachPtrace (kr : KernReturn) : Code Unit := do
  if kr ≠ 0 then Prog.throw (.error "" (.ofKern kr))
  else
    let errno ← sys (.ptDetach (← member .processID))
    if errno ≠ 0 then Prog.throw (.errno errno)
    else member (.setStatus .detach)

/-- `MachProcess::Detach`. -/
def detach : Code Unit := do
  let status ← member .status
  Prog.assert (status = .running || status = .stop)
  if status = .running then stop
  let kr ← MachTask.shutDownExcecptionThread
  detachPtrace kr
  releaseTask

end MachProcess

/-! ## The exception thread -/

namespace ExceptionThread

/-- The locals of the loop: the tracked task and the number of consecutive exceptions. -/
structure Locals where
  task : Port
  numExceptionsReceived : BitVec 32 := 0

/-- How an iteration of the loop ends. -/
inductive Turn
  | again (l : Locals)
  | exit

/-- `MACH_PORT_VALID`. -/
def machPortValid (port : Port) : Bool := port ≠ 0 && port ≠ 0xFFFFFFFF

/-- `periodic_timeout`, which the loop never sets. -/
def periodicTimeout : ℕ := 0

/-- The iteration's part after a message has been received. An exec moves the thread to the new
task before the message is handed to the process. -/
def received (sdk : Sdk) (l : Locals) (msg : ExcMsg) : Code Locals := do
  let (success, m) ← Message.catchExceptionRaise sdk msg l.task
  if success then
    if m.state.taskPort ≠ l.task ∧ m.state.isValid then
      member (.setTaskPort m.state.taskPort)
      MachProcess.exceptionMessageReceived m
      return ⟨m.state.taskPort, l.numExceptionsReceived + 1⟩
    else
      MachProcess.exceptionMessageReceived m
      return { l with numExceptionsReceived := l.numExceptionsReceived + 1 }
  else
    return l

/-- The iteration's part after a receive that gave no message. -/
def notReceived (l : Locals) (kr : KernReturn) : Code Turn := do
  if kr = machRcvInterrupted then
    if !machPortValid (← member .exceptionPort) then return .exit
    else if ← MachTask.isValid l.task then return .again l
    else return .exit
  else if kr = machRcvTimedOut then
    if l.numExceptionsReceived > 0 then
      let l := { l with numExceptionsReceived := 0 }
      if ← MachTask.isValid l.task then return .again l
      else return .exit
    else return .again l
  else return .again l

/-- One iteration of the loop of `MachTask::ExceptionThread`. -/
def turn (sdk : Sdk) (l : Locals) : Code Turn := do
  if !machPortValid (← member .exceptionPort) then return .exit
  else if ← sys .pthreadTestcancel then return .exit
  else
    let timeout := if l.numExceptionsReceived > 0 then some 1
      else if periodicTimeout > 0 then some periodicTimeout else none
    match ← sys (.machMsgReceive (← member .exceptionPort) timeout) with
    | .ok msg => return .again (← received sdk l msg)
    | .error kr => notReceived l kr

end ExceptionThread

end MachDebug
