import MachDebug.Kernel.ExceptionPorts
import Mathlib.Logic.Function.Basic

/-!
# The kernel as the debugger sees it

The state that the debugger's kernel calls read and change: the tasks with their suspend counts,
threads and exception ports, the debug registers of the threads, and the queue of exception
messages on the debugger's exception port. Every call can be made to fail: `faults c n` is the
failure injected into the `n`-th call of kind `c`, and a failed call changes nothing else.

## Main definitions

* `KCall`: the kinds of kernel calls
* `ExcMsg`: an exception message as it arrives on the exception port
* `Task`, `ArmDebugState64`, `Kernel`: the kernel state
* `Kernel.issue`: a call that fails by injection or does its work
* `Kernel.FaultFree`: no failure is injected from now on
* `Kernel.event`: what happens on the target side
-/

namespace MachDebug

/-- `KERN_INVALID_ARGUMENT`. -/
def kernInvalidArgument : KernReturn := 4#32

theorem kernInvalidArgument_ne_zero : kernInvalidArgument ≠ 0#32 := by decide

/-- `KERN_FAILURE`. -/
def kernFailure : KernReturn := 5#32

/-- `ESRCH`. -/
def esrch : KernReturn := 3#32

/-- `MACH_SEND_INVALID_DEST`, the answer to a call on a dead port. -/
def machSendInvalidDest : KernReturn := 0x10000003#32

/-- `MACH_RCV_TIMED_OUT`. -/
def machRcvTimedOut : KernReturn := 0x10004003#32

/-- `MACH_RCV_INTERRUPTED`. -/
def machRcvInterrupted : KernReturn := 0x10004005#32

/-- The kinds of kernel calls that the debugger makes. -/
inductive KCall
  | getpgid
  | taskForPid
  | taskInfo
  | machPortAllocate
  | machPortInsertRight
  | machPortDeallocate
  | taskGetExceptionPorts
  | taskSetExceptionPorts
  | pthreadCreate
  | pthreadCancel
  | pthreadJoin
  | ptAttachExc
  | ptDetach
  | ptThUpdate
  | kill
  | taskSuspend
  | taskResume
  | taskThreads
  | threadGetState
  | threadSetState
  | pidForTask
  | machMsgSend
  | machMsgReceive
  deriving DecidableEq

/-- An exception message on the exception port. `serial` numbers the messages in the order in
which they were sent, and stands for the message's reply port. -/
structure ExcMsg where
  serial : ℕ
  msghId : ℤ
  task : Port
  thread : Port
  excType : ℤ
  codes : List (BitVec 64)
  deriving DecidableEq

/-- `arm_debug_state64_t`. -/
structure ArmDebugState64 where
  bvr : Fin 16 → BitVec 64
  bcr : Fin 16 → BitVec 64
  wvr : Fin 16 → BitVec 64
  wcr : Fin 16 → BitVec 64
  mdscrEl1 : BitVec 64

/-- A task of the target side. -/
structure Task where
  alive : Bool
  pid : ℤ
  suspendCount : ℕ
  threads : List Port
  excPorts : PortTable

/-- A suspension call of the debugger, as issued. -/
inductive SuspendCall
  | suspend (task : Port)
  | resume (task : Port)
  deriving DecidableEq

/-- The kernel state. -/
structure Kernel where
  excPorts : ExcPortSupport
  /-- The task port of a process; `0` when there is none. -/
  taskOf : ℤ → Port
  task : Port → Task
  debug : Port → ArmDebugState64
  lastPort : ℕ
  /-- The exception thread is running. -/
  excThread : Bool
  cancelled : Bool
  /-- The messages waiting on the exception port, oldest first. -/
  queue : List ExcMsg
  nextSerial : ℕ
  /-- The serials of the messages that have been replied to. -/
  replied : List ℕ
  /-- The suspension calls that the debugger issued, latest first. -/
  issued : List SuspendCall
  faults : KCall → ℕ → Option {e : KernReturn // e ≠ 0#32}
  calls : KCall → ℕ

namespace Kernel

/-- A port that names a live task. -/
def live (k : Kernel) (p : Port) : Bool := p ≠ 0 && (k.task p).alive

/-- Count one more call of the given kind. -/
def tally (k : Kernel) (c : KCall) : Kernel :=
  { k with calls := Function.update k.calls c (k.calls c + 1) }

/-- Issue a call of kind `c`: an injected failure is all that happens, otherwise `act` does the
call's work. -/
def issue {β : Type} (k : Kernel) (c : KCall) (fail : KernReturn → β) (act : Kernel → β × Kernel) :
    β × Kernel :=
  match k.faults c (k.calls c) with
  | some e => (fail e.1, k.tally c)
  | none => act (k.tally c)

/-- Change one task. -/
def setTask (k : Kernel) (p : Port) (f : Task → Task) : Kernel :=
  { k with task := Function.update k.task p (f (k.task p)) }

/-- `task_suspend` on a live task. -/
def suspendTask (k : Kernel) (t : Port) : Kernel :=
  { k.setTask t fun x => { x with suspendCount := x.suspendCount + 1 } with
    issued := .suspend t :: k.issued }

/-- `task_resume` on a live task; a count of `0` is refused, and stays. -/
def resumeTask (k : Kernel) (t : Port) : Kernel :=
  { k.setTask t fun x => { x with suspendCount := x.suspendCount - 1 } with
    issued := .resume t :: k.issued }

/-- `task_set_exception_ports` on a live task. -/
def assignPorts (k : Kernel) (t : Port) (m : ExceptionMask) (a : ExcAction) : Kernel :=
  k.setTask t fun x => { x with excPorts := x.excPorts.assign m a }

/-- No failure is injected from now on. -/
def FaultFree (k : Kernel) : Prop := ∀ c n, k.calls c ≤ n → k.faults c n = none

theorem FaultFree.tally {k : Kernel} (h : k.FaultFree) (c : KCall) : (k.tally c).FaultFree := by
  intro c' n hn
  refine h c' n (le_trans ?_ hn)
  simp only [Kernel.tally, Function.update_apply]
  split <;> simp_all

/-- Without injected failures a call does its work. -/
theorem FaultFree.issue_eq {β : Type} {k : Kernel} (h : k.FaultFree) (c : KCall)
    (fail : KernReturn → β) (act : Kernel → β × Kernel) :
    k.issue c fail act = act (k.tally c) := by
  simp [issue, h c _ le_rfl]

/-- A property of the answer and the state after a call, from the two ways it can go. -/
theorem issue_ind {β : Type} {k : Kernel} {c : KCall} {fail : KernReturn → β}
    {act : Kernel → β × Kernel} {M : β × Kernel → Prop} (hf : ∀ e ≠ 0#32, M (fail e, k.tally c))
    (ha : M (act (k.tally c))) : M (k.issue c fail act) := by
  unfold issue
  split
  · rename_i e _
    exact hf e.1 e.2
  · exact ha

/-- What a call that was made has left, from the two ways it can go. -/
theorem issue_inv {β : Type} {k k' : Kernel} {c : KCall} {fail : KernReturn → β}
    {act : Kernel → β × Kernel} {b : β} (h : k.issue c fail act = (b, k')) {M : Kernel → Prop}
    (hf : M (k.tally c)) (ha : M (act (k.tally c)).2) : M k' := by
  rw [show k' = (k.issue c fail act).2 by rw [h]]
  exact issue_ind (M := fun r => M r.2) (fun _ _ => hf) ha

section Fields

variable (k : Kernel) (c : KCall)

@[simp] theorem tally_task : (k.tally c).task = k.task := rfl

@[simp] theorem tally_debug : (k.tally c).debug = k.debug := rfl

@[simp] theorem tally_taskOf : (k.tally c).taskOf = k.taskOf := rfl

@[simp] theorem tally_excPorts : (k.tally c).excPorts = k.excPorts := rfl

@[simp] theorem tally_excThread : (k.tally c).excThread = k.excThread := rfl

@[simp] theorem tally_queue : (k.tally c).queue = k.queue := rfl

@[simp] theorem tally_nextSerial : (k.tally c).nextSerial = k.nextSerial := rfl

@[simp] theorem tally_replied : (k.tally c).replied = k.replied := rfl

@[simp] theorem tally_issued : (k.tally c).issued = k.issued := rfl

@[simp] theorem tally_faults : (k.tally c).faults = k.faults := rfl

@[simp] theorem tally_lastPort : (k.tally c).lastPort = k.lastPort := rfl

@[simp] theorem tally_live (p : Port) : (k.tally c).live p = k.live p := rfl

@[simp] theorem tally_calls_self : (k.tally c).calls c = k.calls c + 1 := by simp [tally]

@[simp] theorem tally_calls_of_ne {c' : KCall} (h : c' ≠ c) :
    (k.tally c).calls c' = k.calls c' := by
  simp [tally, h]

end Fields

/-- A call counts for its own kind only. -/
theorem issue_calls {β : Type} {k k' : Kernel} {c c' : KCall} {fail : KernReturn → β}
    {act : Kernel → β × Kernel} {b : β} (hc : c' ≠ c) (hact : ∀ k, (act k).2.calls = k.calls)
    (h : k.issue c fail act = (b, k')) : k'.calls c' = k.calls c' := by
  refine issue_inv h (M := fun k' => k'.calls c' = k.calls c') ?_ ?_
  · exact k.tally_calls_of_ne c hc
  · rw [hact]
    exact k.tally_calls_of_ne c hc

/-! ## What happens on the target side -/

/-- An event on the target side: an exception message is sent to the debugger's port, a task ends,
or the threads of a task change. -/
inductive Event
  | send (m : ExcMsg)
  | exit (t : Port)
  | threads (t : Port) (ths : List Port)

/-- The kernel after an event. A message gets the next serial. -/
def event (k : Kernel) : Event → Kernel
  | .send m =>
    { k with
      queue := k.queue ++ [{ m with serial := k.nextSerial }]
      nextSerial := k.nextSerial + 1 }
  | .exit t => k.setTask t fun x => { x with alive := false }
  | .threads t ths => k.setTask t fun x => { x with threads := ths }

/-- A kernel with one process, `7`, whose task port is `1` and whose threads are `11` and `12`. -/
def oneProcess (faults : KCall → ℕ → Option {e : KernReturn // e ≠ 0#32}) : Kernel where
  excPorts := .singletons
  taskOf pid := if pid = 7 then 1 else 0
  task p := ⟨p = 1, 7, 0, [11, 12], fun _ => ⟨0, 0, 0⟩⟩
  debug _ := ⟨fun _ => 0, fun _ => 0, fun _ => 0, fun _ => 0, 0⟩
  lastPort := 100
  excThread := false
  cancelled := false
  queue := []
  nextSerial := 0
  replied := []
  issued := []
  faults := faults
  calls _ := 0

end Kernel

/-- A breakpoint exception of the task `1`. -/
def ExcMsg.breakpoint : ExcMsg where
  serial := 0
  msghId := 2405
  task := 1
  thread := 11
  excType := 6
  codes := [1, 0]

end MachDebug
