import MachDebug.Memory.Controller
import MachDebug.Program.Embed
import MachDebug.Threads.StopRule

/-!
# The program

`main` and `DebuggerController` of `main.cpp`. The program attaches to a process, overwrites the
first two bytes at a fixed address, lets the target run three times, steps it a hundred times with
its program counters read after each step, and detaches. It catches no exception.

## Main definitions

* `MainOp`, `CtlOp`, `Machine`, `machine`: the operations of the program, its state, and the handler
* `exceptionMachine`: the handler of the exception thread's operations
* `MachProcess.readRegister`: the registers of all threads
* `DebuggerController.attach` and the other calls of the controller
* `main`: the program
-/

namespace MachDebug

open Program

/-! ## Operations -/

/-- `arm_thread_state64_t`. -/
structure ArmThreadState64 where
  x : Fin 29 → BitVec 64 := fun _ => 0
  fp : BitVec 64 := 0
  lr : BitVec 64 := 0
  sp : BitVec 64 := 0
  pc : BitVec 64 := 0
  cpsr : BitVec 32 := 0

/-- An operation that only the program makes. -/
inductive MainOp : Type → Type
  /-- `std::make_shared<MachProcess>()` -/
  | newProcess : MainOp Unit
  /-- `thread_get_state` with `ARM_THREAD_STATE64` -/
  | threadGetRegisters (thread : Port) : MainOp (KernReturn × ArmThreadState64)
  /-- `MachTask::ReadMemory` -/
  | readMemory (a : Addr) (size : BitVec 64) (buf : List Byte) :
      MainOp (BitVec 64 × Option (List Byte))
  /-- `MachTask::WriteMemory` -/
  | writeMemory (a : Addr) (size : BitVec 64) (buf : List Byte) : MainOp (BitVec 64)
  | sleepFor (seconds : ℕ) : MainOp Unit

/-- An operation of the program. -/
inductive CtlOp : Type → Type
  | debugger {β : Type} (o : Op β) : CtlOp β
  | own {β : Type} (o : MainOp β) : CtlOp β

/-- The state of the program: the debugger and the kernel, the registers of the target's threads,
the target's memory, and a record of the run. -/
structure Machine where
  world : World
  registers : Port → ArmThreadState64
  memory : VmState
  /-- A kernel call of the program has failed. -/
  failed : Bool := false
  /-- The number of single steps that the exception thread has ended. -/
  ended : ℕ := 0

/-- The answer is that of a failed call. A lookup of a process that finds `-1` has failed too. -/
def Op.fails : {β : Type} → Op β → β → Bool
  | _, .member _, _ => false
  | _, .sys (.pidForTask _), r => r.1 ≠ 0 || r.2.getD (-1) = -1
  | _, .sys o, b => o.answer b ≠ 0

/-- The effect of an operation of the program. An access to the memory that does not return
blocks. -/
def MainOp.exec {β : Type} : MainOp β → Machine → Option (β × Machine)
  | .newProcess, m => some ((), { m with world.proc := {}, memory.memory := {} })
  | .threadGetRegisters thread, m =>
    let r := m.world.kern.issue .threadGetState (·, {}) fun k => ((0, m.registers thread), k)
    some (r.1, { m with world.kern := r.2, failed := m.failed || r.1.1 ≠ 0 })
  | .readMemory a size buf, m =>
    ((m.world.proc.mTask.readMemory (size.toNat + 1) a size (some buf)).run m.memory).map fun r =>
      (r.1, { m with memory := r.2 })
  | .writeMemory a size buf, m =>
    ((m.world.proc.mTask.writeMemory (size.toNat + 1) a size (some buf)).run m.memory).map fun r =>
      (r.1, { m with memory := r.2 })
  | .sleepFor _, m => some ((), m)

/-- The effect of an operation. -/
def CtlOp.exec {β : Type} : CtlOp β → Machine → Option (β × Machine)
  | .debugger o, m => (MachDebug.world.exec o m.world).map fun r =>
      (r.1, { m with world := r.2, failed := m.failed || o.fails r.1 })
  | .own o, m => o.exec m

/-- The handler of the program's operations. -/
def machine : Handler CtlOp Machine := ⟨CtlOp.exec⟩

/-- The single steps that an operation of the exception thread ends. -/
def Op.ends : {β : Type} → Op β → ℕ
  | _, .member (.setSingleStep false) => 1
  | _, _ => 0

/-- The handler of the exception thread's operations. -/
def exceptionMachine : Handler Op Machine where
  exec o m := (MachDebug.world.exec o m.world).map fun r =>
    (r.1, { m with world := r.2, ended := m.ended + o.ends })

/-- A part of the program. -/
abbrev Main (α : Type) := Prog CtlOp RuntimeError α

/-- Make an operation that only the program makes. -/
def own {β : Type} (o : MainOp β) : Main β := Prog.call (.own o)

/-- A program of the debugger, as a part of the program. -/
def debugger {α : Type} (p : Code α) : Main α := p.lift .debugger

/-! ## Registers and memory -/

namespace MachProcess

/-- The loop of `MachProcess::ReadRegister`. -/
def readEach : List Port → Main (List ArmThreadState64)
  | [] => return []
  | thread :: threads => do
    let (kr, gpr) ← own (.threadGetRegisters thread)
    if kr ≠ 0 then Prog.throw (.error "" (.ofKern kr))
    else return gpr :: (← readEach threads)

/-- `MachProcess::ReadRegister`: the registers of all threads, in the order of the threads. -/
def readRegister : Main (List ArmThreadState64) := do
  let (kr, threads) ← debugger do sys (.taskThreads (← member .taskPort))
  if kr ≠ 0 then Prog.throw (.error "" (.ofKern kr))
  else readEach threads

end MachProcess

/-! ## The controller and the program -/

namespace DebuggerController

/-- `EXC_MASK_BAD_ACCESS`, `EXC_MASK_BAD_INSTRUCTION` and `EXC_MASK_ARITHMETIC`. -/
def ignores : List ExceptionMask := [BitVec.twoPow 32 1, BitVec.twoPow 32 2, BitVec.twoPow 32 3]

/-- `DebuggerController::attach`. -/
def attach (sdk : Sdk) (pid : ℤ) : Main Unit := do
  own .newProcess
  debugger (MachProcess.attach sdk pid ignores)

/-- `DebuggerController::detach`. -/
def detach : Main Unit := debugger MachProcess.detach

/-- `DebuggerController::resume`. -/
def resume : Main Unit := debugger MachProcess.resume

/-- `DebuggerController::stop`. -/
def stop : Main Unit := debugger MachProcess.stop

/-- `DebuggerController::single_step`. -/
def singleStep : Main Unit := debugger MachProcess.singleStep

/-- The assertion of `MachProcess::ReadMemory` and `MachProcess::WriteMemory`. -/
def assertStopped : Main Unit := debugger do Prog.assert ((← member .status) = .stop)

/-- `DebuggerController::read_memory`, of a size that a vector can have. -/
def readVector (addr : Addr) (size : BitVec 64) : Main (List Byte) := do
  assertStopped
  let (_, memoryData) ← own (.readMemory addr size (List.replicate size.toNat 0))
  return memoryData.getD []

/-- `DebuggerController::write_memory`, of the contents of a vector. -/
def writeVector (addr : Addr) (data : List Byte) : Main Unit := do
  assertStopped
  let _ ← own (.writeMemory addr (BitVec.ofNat 64 data.length) data)

/-- `DebuggerController::read_pc`. -/
def readPc : Main (List (BitVec 64)) := do
  return (← MachProcess.readRegister).map ArmThreadState64.pc

end DebuggerController

/-- `isspace`. -/
def isSpace (c : Char) : Bool := c = ' ' || (9 ≤ c.toNat && c.toNat ≤ 13)

/-- `std::atoi`, of a number that an `int` holds. -/
def atoi (s : String) : ℤ :=
  let digits (cs : List Char) : ℕ :=
    (cs.takeWhile Char.isDigit).foldl (fun n c => 10 * n + (c.toNat - '0'.toNat)) 0
  match s.toList.dropWhile isSpace with
  | '-' :: cs => -digits cs
  | '+' :: cs => digits cs
  | cs => digits cs

/-- `ADDR`. -/
def mainAddr : Addr := 0x104910000#64

open DebuggerController in
/-- `main`. -/
def main (sdk : Sdk) (argv : List String) : Main Unit := do
  Prog.assert (argv.length = 2)
  let pid := atoi (argv.getD 1 "")
  attach sdk pid
  own (.sleepFor 1)
  let data ← readVector mainAddr 12
  writeVector mainAddr ((data.set 0 0).set 1 0)
  Prog.repeated 3 do
    resume
    own (.sleepFor 2)
    stop
    own (.sleepFor 2)
  Prog.repeated 100 do
    singleStep
    let _ ← readPc
  resume
  detach

end MachDebug
