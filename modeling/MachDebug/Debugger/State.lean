import MachDebug.Kernel.State

/-!
# The debugger's data

The data of the debugger process, as the classes declare it: errors, exception messages, the
saved exception ports, and the members of `MachTask` and `MachProcess` that a session changes.
-/

namespace MachDebug

/-! ## Errors -/

/-- `DNBError::FlavorType`. -/
inductive FlavorType
  | generic
  | machKernel
  | posix
  deriving DecidableEq

/-- `DNBError`: a code, its flavor and a text that overrides the code's own. -/
structure DNBError where
  err : BitVec 32 := 0
  flavor : FlavorType := .generic
  str : String := ""
  deriving DecidableEq

/-- The system's texts for error codes, `mach_error_string` and `strerror`. -/
structure ErrorTexts where
  machErrorString : BitVec 32 → String
  strerror : BitVec 32 → String

namespace DNBError

/-- Assignment of a `kern_return_t`. -/
def ofKern (e : KernReturn) : DNBError := { err := e, flavor := .machKernel }

/-- `SetError` with a flavor. -/
def setError (e : BitVec 32) (flavor : FlavorType) : DNBError := { err := e, flavor := flavor }

/-- `SetErrorString`: the code is left as it is. -/
def setErrorString (d : DNBError) (s : String) : DNBError := { d with str := s }

/-- `Success`. -/
def success (d : DNBError) : Bool := d.err = 0

/-- `Fail`. -/
def fail (d : DNBError) : Bool := d.err ≠ 0

/-- `AsString`. -/
def asString (t : ErrorTexts) (d : DNBError) : String :=
  if d.success then "success"
  else
    let str := if d.str = "" then
        match d.flavor with
        | .machKernel => t.machErrorString d.err
        | .posix => t.strerror d.err
        | .generic => ""
      else d.str
    if str = "" then "unknown" else str

@[simp] theorem success_ofKern (e : KernReturn) : (ofKern e).success = decide (e = 0) := rfl

@[simp] theorem fail_ofKern (e : KernReturn) : (ofKern e).fail = decide (e ≠ 0) := rfl

end DNBError

/-- The `std::runtime_error` exceptions of the debugger: a fixed text, the text of an error after
a fixed beginning, or the text of `errno`. -/
inductive RuntimeError
  | text (s : String)
  | error (start : String) (err : DNBError)
  | errno (code : BitVec 32)
  deriving DecidableEq

/-! ## Exceptions -/

/-- `EXC_SOFTWARE`. -/
def excSoftware : ℤ := 5

/-- `EXC_SOFT_SIGNAL`. -/
def excSoftSignal : BitVec 64 := 0x10003#64

/-- `SIGTRAP`. -/
def sigtrap : BitVec 64 := 5#64

/-- `SIGSTOP`. -/
def sigstop : BitVec 32 := 17#32

/-- `MachException::Data`. -/
structure Data where
  taskPort : Port := 0
  threadPort : Port := 0
  excType : ℤ := 0
  excData : List (BitVec 64) := []
  deriving DecidableEq

namespace Data

/-- `IsValid`. -/
def isValid (d : Data) : Bool := d.taskPort ≠ 0 && d.threadPort ≠ 0 && d.excType ≠ 0

/-- `SoftSignal`: the signal of a soft-signal exception, or `0`. -/
def softSignal (d : Data) : BitVec 32 :=
  match d.excData with
  | [c, s] => if d.excType = excSoftware ∧ c = excSoftSignal then s.setWidth 32 else 0
  | _ => 0

end Data

/-- `MachException::Message`: the message received, the return code in its reply, and the data
caught from it. -/
structure Message where
  excMsg : ExcMsg
  retCode : KernReturn
  state : Data
  deriving DecidableEq

/-- `MachException::PortInfo`: the mask and the saved entries; `count` is their number. -/
structure PortInfo where
  mask : ExceptionMask := 0
  entries : List PortEntry := []
  deriving DecidableEq

/-! ## The process and its task -/

/-- `MachProcess::ProcessStatus`. -/
inductive ProcessStatus
  | detach
  | running
  | stop
  deriving DecidableEq

/-- The members of `MachTask` that a session changes. -/
structure MachTask where
  mTask : Port := 0
  mExcPortInfo : PortInfo := {}
  mExceptionPort : Port := 0
  deriving DecidableEq

/-- The members of `MachProcess`. The default values are those of a new object. -/
structure MachProcess where
  mStatus : ProcessStatus := .detach
  mPid : ℤ := 0
  mTask : MachTask := {}
  mExceptionMessages : List Message := []
  mSingleStep : Bool := false
  deriving DecidableEq

end MachDebug
