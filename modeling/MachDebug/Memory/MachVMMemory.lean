import MachDebug.Debugger.State
import MachDebug.Memory.Vm
import MachDebug.Program.Partial

/-!
# Reading and writing the memory of the target

The read and write paths of `MachVMRegion.cpp` and `MachVMMemory.cpp`, from
`MachProcess::ReadMemory` and `MachProcess::WriteMemory` down to the kernel calls. The loops take
fuel: a loop that uses it up does not return.

## Main definitions

* `VmState`, `VmM`: the state of a memory access, and computations on it
* `MachVMRegion`: the region object, with `GetRegionForAddress`, `SetProtections` and `Clear`
* `MachVMMemory.read`: the read loop
* `MachVMMemory.writeRegion`, `MachVMMemory.write`: the two write loops
* `MachProcess.readMemory`, `MachProcess.writeMemory`: the calls of the controller
-/

namespace MachDebug

open Program

/-- `kInvalidPageSize`. -/
def kInvalidPageSize : BitVec 64 := ~~~0

/-- `INVALID_NUB_ADDRESS`. -/
def invalidNubAddress : Addr := ~~~0

/-- The members of `MachVMMemory`. -/
structure MachVMMemory where
  mPageSize : BitVec 64 := kInvalidPageSize
  mErr : DNBError := {}

/-- The state of a memory access: the target's memory and the members of `MachVMMemory`. -/
structure VmState where
  vm : Vm
  memory : MachVMMemory

/-- A computation on the memory. -/
abbrev VmM := Partial VmState

/-- Make a kernel call. -/
def vmCall {β : Type} (f : Vm → β × Vm) : VmM β :=
  fun s => some ((f s.vm).1, { s with vm := (f s.vm).2 })

/-- Assign a `kern_return_t` to `MachVMMemory::m_err`. -/
def setErr (kr : KernReturn) : VmM Unit :=
  modify fun s => { s with memory.mErr := .ofKern kr }

/-- Assign `MachVMMemory::m_page_size`. -/
def setPageSize (size : BitVec 64) : VmM Unit :=
  modify fun s => { s with memory.mPageSize := size }

/-- `mach_vm_write`. -/
def machVmWrite (a : Addr) (bytes : List Byte) : VmM KernReturn := vmCall (·.machVmWrite a bytes)

/-- `vm_machine_attribute`. -/
def vmMachineAttribute (a : Addr) (size : BitVec 64) : VmM KernReturn :=
  vmCall (·.vmMachineAttribute a size)

/-- The `mach_vm_protect` that restores a protection. -/
def machVmRestore (a : Addr) (size : BitVec 64) (prot : VmProt) : VmM KernReturn := do
  let kr ← vmCall (·.machVmProtect a size prot)
  modify fun s => { s with vm.restores := s.vm.restores ++ [kr] }
  return kr

/-! ## Regions -/

/-- The members of `MachVMRegion` that are read; `mDataProtection` is `m_data.protection`. -/
structure MachVMRegion where
  mErr : DNBError := {}
  mStart : Addr := invalidNubAddress
  mSize : BitVec 64 := 0
  mDataProtection : VmProt := 0
  mCurrProtection : VmProt := 0
  mProtectionAddr : Addr := invalidNubAddress
  mProtectionSize : BitVec 64 := 0

namespace MachVMRegion

/-- `EndAddress`. -/
def endAddress (r : MachVMRegion) : Addr := r.mStart + r.mSize

/-- `ContainsAddress`. -/
def containsAddress (r : MachVMRegion) (a : Addr) : Bool := r.mStart ≤ a && a < r.endAddress

/-- `BytesRemaining`. -/
def bytesRemaining (r : MachVMRegion) (a : Addr) : BitVec 64 :=
  if r.containsAddress a then r.mSize - (a - r.mStart) else 0

/-- `RestoreProtections`. -/
def restoreProtections (r : MachVMRegion) : VmM (Bool × MachVMRegion) := do
  if r.mCurrProtection ≠ r.mDataProtection ∧ 0 < r.mProtectionSize then
    let kr ← machVmRestore r.mProtectionAddr r.mProtectionSize r.mDataProtection
    if kr = 0 then
      return (true, { r with
        mErr := .ofKern kr
        mProtectionSize := 0
        mProtectionAddr := invalidNubAddress
        mCurrProtection := r.mDataProtection })
    else
      return (false, { r with mErr := .ofKern kr })
  else
    return (true, { r with mErr := {} })

/-- `Clear`: restore the protections, and forget the region. -/
def clear (r : MachVMRegion) : VmM MachVMRegion := do
  let _ ← r.restoreProtections
  return {}

/-- The change of a protection in `SetProtections`, which is tried again with `VM_PROT_COPY`. -/
def protectOrCopy (a : Addr) (size : BitVec 64) (prot : VmProt) : VmM KernReturn := do
  let kr ← vmCall (·.machVmProtect a size prot)
  if kr ≠ 0 then vmCall (·.machVmProtect a size (prot ||| vmProtCopy)) else return kr

/-- `SetProtections`. -/
def setProtections (r : MachVMRegion) (a : Addr) (size : BitVec 64) (prot : VmProt) :
    VmM (Bool × MachVMRegion) := do
  if r.containsAddress a then
    let protSize := if r.endAddress - a < size then r.endAddress - a else size
    if 0 < protSize then
      if prot = r.mCurrProtection &&& vmProtAll then
        return (true, r)
      else
        let kr ← protectOrCopy a protSize prot
        if kr = 0 then
          return (true, { r with
            mErr := .ofKern kr
            mCurrProtection := prot
            mProtectionAddr := a
            mProtectionSize := protSize })
        else
          return (false, { r with mErr := .ofKern kr })
    else
      return (false, r)
  else
    return (false, r)

/-- `GetRegionForAddress`. The kernel may answer with the next region. -/
def getRegionForAddress (r : MachVMRegion) (a : Addr) : VmM (Bool × MachVMRegion) := do
  let r ← r.clear
  match ← vmCall (·.machVmRegionRecurse a) with
  | .error kr => return (false, { r with mErr := .ofKern kr, mStart := a })
  | .ok x =>
    let r := { r with
      mErr := .ofKern 0
      mStart := BitVec.ofNat 64 x.start
      mSize := BitVec.ofNat 64 x.size
      mDataProtection := x.protection
      mCurrProtection := x.protection }
    return (!(a < r.mStart || r.mStart + r.mSize ≤ a), r)

end MachVMRegion

/-! ## The read loop -/

/-- `memcpy` to an offset of a buffer. -/
def memcpy (buf : List Byte) (i : ℕ) (bytes : List Byte) : List Byte :=
  buf.take i ++ bytes ++ buf.drop (i + bytes.length)

namespace MachVMMemory

/-- The part of `PageSize` that asks the host; no size is stored as `0`. -/
def hostPageSize : VmM (BitVec 64) := do
  let (kr, size) ← vmCall Vm.hostPageSizeCall
  setErr kr
  let size := if kr ≠ 0 then 0 else size
  setPageSize size
  return size

/-- `MachVMMemory::PageSize`. The page size of the task is an `integer_t`. -/
def pageSize (task : Port) : VmM (BitVec 64) := do
  let s ← get
  if s.memory.mPageSize = kInvalidPageSize then
    if task ≠ 0 then
      let (kr, size) ← vmCall Vm.taskVmInfo
      if kr = 0 then
        setPageSize (size.signExtend 64)
        return size.signExtend 64
      else hostPageSize
    else hostPageSize
  else return s.memory.mPageSize

/-- `MachVMMemory::MaxBytesLeftInPage`. -/
def maxBytesLeftInPage (task : Port) (a : Addr) (count : BitVec 64) : VmM (BitVec 64) := do
  let pageSize ← pageSize task
  if 0 < pageSize then
    let left := pageSize - a % pageSize
    return if left < count then left else count
  else return count

/-- The loop of `MachVMMemory::Read`, with an offset into the buffer for `curr_data`. The number of
bytes read is a `mach_msg_type_number_t`. -/
def readLoop (task : Port) (dataCount : BitVec 64) :
    ℕ → BitVec 64 → Addr → ℕ → List Byte → VmM (BitVec 64 × List Byte)
  | 0, _, _, _, _ => Partial.diverge
  | fuel + 1, total, currAddr, currData, data => do
    if total < dataCount then
      let currSize ← maxBytesLeftInPage task currAddr (dataCount - total)
      match ← vmCall (·.machVmRead currAddr currSize) with
      | .ok bytes =>
        setErr 0
        let currBytesRead := (BitVec.ofNat 32 bytes.length).setWidth 64
        readLoop task dataCount fuel (total + currBytesRead) (currAddr + currBytesRead)
          (currData + currBytesRead.toNat)
          (memcpy data currData (bytes.take currBytesRead.toNat))
      | .error kr =>
        setErr kr
        return (total, data)
    else return (total, data)

/-- `MachVMMemory::Read`: the number of bytes read and the buffer; no buffer is a null pointer. -/
def read (fuel : ℕ) (task : Port) (a : Addr) (data : Option (List Byte)) (dataCount : BitVec 64) :
    VmM (BitVec 64 × Option (List Byte)) :=
  match data with
  | none => return (0, none)
  | some buf =>
    if dataCount = 0 then return (0, some buf)
    else do
      let (total, buf) ← readLoop task dataCount fuel 0 a 0 buf
      return (total, some buf)

/-! ## The write loops -/

/-- One piece of `MachVMMemory::WriteRegion`: whether `m_err` is a success after it. The error of
the cache flush replaces that of the write. -/
def writePiece (a : Addr) (bytes : List Byte) (count : BitVec 64) : VmM Bool := do
  setErr (← machVmWrite a bytes)
  setErr (← vmMachineAttribute a count)
  return (← get).memory.mErr.success

/-- Only the answer to the flush is left of a piece. -/
theorem writePiece_run {a : Addr} {bytes : List Byte} {count : BitVec 64} {s : VmState}
    {v v' : Vm} {kr : KernReturn} (hwrite : (s.vm.machVmWrite a bytes).2 = v)
    (hflush : v.vmMachineAttribute a count = (kr, v')) :
    (writePiece a bytes count).run s =
      some (decide (kr = 0), ⟨v', { s.memory with mErr := .ofKern kr }⟩) := by
  subst hwrite
  have hkr : kr = ((s.vm.machVmWrite a bytes).2.vmMachineAttribute a count).1 := by rw [hflush]
  have hv' : v' = ((s.vm.machVmWrite a bytes).2.vmMachineAttribute a count).2 := by rw [hflush]
  rw [hkr, hv']
  rfl

/-- The loop of `MachVMMemory::WriteRegion`. The size of a piece is a `mach_msg_type_number_t`. -/
def writeRegionLoop (task : Port) (dataCount : BitVec 64) :
    ℕ → BitVec 64 → Addr → List Byte → VmM (BitVec 64)
  | 0, _, _, _ => Partial.diverge
  | fuel + 1, total, currAddr, currData => do
    if total < dataCount then
      let left ← maxBytesLeftInPage task currAddr (dataCount - total)
      let currDataCount := (left.setWidth 32).setWidth 64
      if ← writePiece currAddr (currData.take currDataCount.toNat) currDataCount then
        writeRegionLoop task dataCount fuel (total + currDataCount) (currAddr + currDataCount)
          (currData.drop currDataCount.toNat)
      else return total
    else return total

/-- `MachVMMemory::WriteRegion`; no data is a null pointer. -/
def writeRegion (fuel : ℕ) (task : Port) (a : Addr) (data : Option (List Byte))
    (dataCount : BitVec 64) : VmM (BitVec 64) :=
  match data with
  | none => return 0
  | some bytes =>
    if dataCount = 0 then return 0 else writeRegionLoop task dataCount fuel 0 a bytes

/-- The loop of `MachVMMemory::Write`: the number of bytes written and the region object. -/
def writeLoop (inner : ℕ) (task : Port) (dataCount : BitVec 64) :
    ℕ → MachVMRegion → BitVec 64 → Addr → Option (List Byte) → VmM (BitVec 64 × MachVMRegion)
  | 0, _, _, _, _ => Partial.diverge
  | fuel + 1, region, total, currAddr, currData => do
    if total < dataCount then
      let (found, region) ← region.getRegionForAddress currAddr
      if found then
        let left := region.bytesRemaining currAddr
        if left = 0 then return (total, region)
        else
          let currDataCount := if left < dataCount - total then left else dataCount - total
          let (ok, region) ←
            region.setProtections currAddr currDataCount (vmProtRead ||| vmProtWrite)
          if ok then
            let bytesWritten ← writeRegion inner task currAddr currData currDataCount
            if bytesWritten ≤ 0 then return (total, region)
            else
              writeLoop inner task dataCount fuel region (total + bytesWritten)
                (currAddr + bytesWritten) (currData.map (·.drop bytesWritten.toNat))
          else return (total, region)
      else return (total, region)
    else return (total, region)

/-- `MachVMMemory::Write`. The region object is destroyed at the end. -/
def write (fuel : ℕ) (task : Port) (a : Addr) (data : Option (List Byte)) (dataCount : BitVec 64) :
    VmM (BitVec 64) := do
  let (total, region) ← writeLoop fuel task dataCount fuel {} 0 a data
  let _ ← region.clear
  return total

end MachVMMemory

/-- `MachTask::ReadMemory`. -/
def MachTask.readMemory (t : MachTask) (fuel : ℕ) (a : Addr) (size : BitVec 64)
    (buf : Option (List Byte)) : VmM (BitVec 64 × Option (List Byte)) :=
  if t.mTask ≠ 0 then MachVMMemory.read fuel t.mTask a buf size else return (0, buf)

/-- `MachTask::WriteMemory`. -/
def MachTask.writeMemory (t : MachTask) (fuel : ℕ) (a : Addr) (size : BitVec 64)
    (buf : Option (List Byte)) : VmM (BitVec 64) :=
  if t.mTask ≠ 0 then MachVMMemory.write fuel t.mTask a buf size else return 0

/-- `MachProcess::ReadMemory`; a failed assertion does not return. -/
def MachProcess.readMemory (p : MachProcess) (fuel : ℕ) (a : Addr) (size : BitVec 64)
    (buf : Option (List Byte)) : VmM (BitVec 64 × Option (List Byte)) :=
  if p.mStatus = .stop then p.mTask.readMemory fuel a size buf else Partial.diverge

/-- `MachProcess::WriteMemory`; a failed assertion does not return. -/
def MachProcess.writeMemory (p : MachProcess) (fuel : ℕ) (a : Addr) (size : BitVec 64)
    (buf : Option (List Byte)) : VmM (BitVec 64) :=
  if p.mStatus = .stop then p.mTask.writeMemory fuel a size buf else Partial.diverge

end MachDebug
