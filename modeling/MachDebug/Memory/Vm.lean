import MachDebug.Kernel.State
import Mathlib.Data.List.GetD

/-!
# The memory of the target

The target's memory as the kernel's `mach_vm` calls see it: bytes, and regions with a protection
each. As with the other kernel calls, every call can be made to fail: `faults c n` is the failure
injected into the `n`-th call of kind `c`, and a failed call changes nothing.

## Main definitions

* `Region`, `AddressMap`: the regions of an address space
* `AddressMap.protect`: `mach_vm_protect` on the regions
* `Vm`: the memory, and the calls on it
-/

namespace MachDebug

/-- A `mach_vm_address_t`. -/
abbrev Addr := BitVec 64

/-- A byte. -/
abbrev Byte := BitVec 8

/-- A `vm_prot_t`. -/
abbrev VmProt := BitVec 32

/-- `VM_PROT_READ`. -/
def vmProtRead : VmProt := 1#32

/-- `VM_PROT_WRITE`. -/
def vmProtWrite : VmProt := 2#32

/-- `VM_PROT_ALL`. -/
def vmProtAll : VmProt := 7#32

/-- `VM_PROT_COPY`. -/
def vmProtCopy : VmProt := 0x10#32

/-- `KERN_INVALID_ADDRESS`. -/
def kernInvalidAddress : KernReturn := 1#32

/-- `KERN_PROTECTION_FAILURE`. -/
def kernProtectionFailure : KernReturn := 2#32

theorem kernInvalidAddress_ne_zero : kernInvalidAddress ≠ 0#32 := by decide

theorem kernProtectionFailure_ne_zero : kernProtectionFailure ≠ 0#32 := by decide

/-! ## Regions -/

/-- A region of an address space: its bounds, its protection, and the protections that
`mach_vm_protect` grants on it. -/
structure Region where
  start : ℕ
  size : ℕ
  protection : VmProt
  grants : VmProt → Bool
  size_pos : 0 < size
  end_le : start + size ≤ 2 ^ 64

namespace Region

/-- The region contains the address. -/
def Contains (r : Region) (a : ℕ) : Prop := r.start ≤ a ∧ a < r.start + r.size

instance (r : Region) (a : ℕ) : Decidable (r.Contains a) := inferInstanceAs (Decidable (_ ∧ _))

/-- The part of a region between two addresses, with a protection of its own. -/
def between (r : Region) (lo hi : ℕ) (prot : VmProt) : Option Region :=
  if h : max r.start lo < min (r.start + r.size) hi then
    some
      { start := max r.start lo
        size := min (r.start + r.size) hi - max r.start lo
        protection := prot
        grants := r.grants
        size_pos := Nat.sub_pos_of_lt h
        end_le := by have := r.end_le; omega }
  else none

/-- Cut a region at two addresses, and change the protection of the part in between. -/
def cut (r : Region) (lo hi : ℕ) (prot : VmProt) : List Region :=
  (r.between 0 lo r.protection).toList ++ (r.between lo hi prot).toList ++
    (r.between (max lo hi) (2 ^ 64) r.protection).toList

/-- A part lies inside the region and between the two addresses. -/
theorem mem_between {r x : Region} {lo hi : ℕ} {prot : VmProt}
    (h : x ∈ (r.between lo hi prot).toList) :
    r.start ≤ x.start ∧ x.start + x.size ≤ r.start + r.size ∧ lo ≤ x.start ∧
      x.start + x.size ≤ hi := by
  unfold between at h
  split at h
  · simp only [Option.toList_some, List.mem_singleton] at h
    subst h
    refine ⟨?_, ?_, ?_, ?_⟩ <;> simp only <;> omega
  · simp at h

theorem mem_cut {r x : Region} {lo hi : ℕ} {prot : VmProt} (h : x ∈ r.cut lo hi prot) :
    r.start ≤ x.start ∧ x.start + x.size ≤ r.start + r.size := by
  simp only [cut, List.mem_append] at h
  rcases h with (h | h) | h <;> exact ⟨(mem_between h).1, (mem_between h).2.1⟩

end Region

/-- Regions that end before the next one starts. -/
def Region.Before (x y : Region) : Prop := x.start + x.size ≤ y.start

/-- The parts of a cut region come one after the other. -/
theorem Region.pairwise_cut (r : Region) (lo hi : ℕ) (prot : VmProt) :
    (r.cut lo hi prot).Pairwise Region.Before := by
  have hone (lo hi : ℕ) (prot : VmProt) :
      (r.between lo hi prot).toList.Pairwise Region.Before := by
    cases r.between lo hi prot <;> simp
  refine List.pairwise_append.mpr ⟨List.pairwise_append.mpr ⟨hone _ _ _, hone _ _ _, ?_⟩,
    hone _ _ _, ?_⟩
  · intro x hx y hy
    exact (mem_between hx).2.2.2.trans (mem_between hy).2.2.1
  · intro x hx y hy
    have hlo := (mem_between hy).2.2.1
    rcases List.mem_append.mp hx with hx | hx <;> have hhi := (mem_between hx).2.2.2 <;>
      exact hhi.trans (by omega)

/-- The regions of an address space, in the order of their addresses. -/
structure AddressMap where
  regions : List Region
  sorted : regions.Pairwise Region.Before

namespace AddressMap

/-- The region that contains the address. -/
def find (m : AddressMap) (a : ℕ) : Option Region := m.regions.find? fun r => r.Contains a

/-- The first region that does not end before the address, as `mach_vm_region_recurse` finds it. -/
def next (m : AddressMap) (a : ℕ) : Option Region :=
  m.regions.find? fun r => a < r.start + r.size

/-- Every address of the range lies in a region with the property. -/
def All (m : AddressMap) (lo hi : ℕ) (p : Region → Bool) : Prop :=
  ∀ i < hi - lo, (m.find (lo + i)).any p = true

instance (m : AddressMap) (lo hi : ℕ) (p : Region → Bool) : Decidable (m.All lo hi p) :=
  inferInstanceAs (Decidable (∀ i < hi - lo, (m.find (lo + i)).any p = true))

/-- A range whose regions all pass a test is mapped. -/
theorem All.mapped {m : AddressMap} {lo hi : ℕ} {p : Region → Bool} (h : m.All lo hi p) :
    m.All lo hi fun _ => true := by
  intro i hi'
  have hany := h i hi'
  cases hfind : m.find (lo + i) with
  | none => rw [hfind] at hany; cases hany
  | some r => rfl

/-- Change the protection of a range of addresses. -/
def protect (m : AddressMap) (lo hi : ℕ) (prot : VmProt) : AddressMap where
  regions := m.regions.flatMap fun r => r.cut lo hi prot
  sorted := by
    refine List.pairwise_flatMap.mpr ⟨fun r _ => r.pairwise_cut lo hi prot, m.sorted.imp ?_⟩
    intro x y hxy a ha b hb
    have hbefore : x.start + x.size ≤ y.start := hxy
    exact (Region.mem_cut ha).2.trans (hbefore.trans (Region.mem_cut hb).1)

end AddressMap

/-! ## The calls -/

/-- The kinds of calls on the memory of the target. -/
inductive VmCall
  | taskVmInfo
  | hostPageSize
  | regionRecurse
  | protect
  | read
  | write
  | machineAttribute
  deriving DecidableEq

/-- The memory of the target, with the page size of its address map and the page sizes that the
kernel reports. -/
structure Vm where
  byte : Addr → Byte
  map : AddressMap
  granularity : ℕ
  taskPageSize : BitVec 32
  hostPageSize : BitVec 64
  faults : VmCall → ℕ → Option {e : KernReturn // e ≠ 0#32}
  calls : VmCall → ℕ
  /-- The answers to the calls that were to restore a protection, oldest first. -/
  restores : List KernReturn := []

namespace Vm

/-- Count one more call of the given kind. -/
def tally (v : Vm) (c : VmCall) : Vm :=
  { v with calls := Function.update v.calls c (v.calls c + 1) }

/-- Issue a call of kind `c`: an injected failure is all that happens, otherwise `act` does the
call's work. -/
def issue {β : Type} (v : Vm) (c : VmCall) (fail : KernReturn → β) (act : Vm → β × Vm) : β × Vm :=
  match v.faults c (v.calls c) with
  | some e => (fail e.1, v.tally c)
  | none => act (v.tally c)

/-- A property of the answer and the memory after a call, from the two ways it can go. -/
theorem issue_ind {β : Type} {v : Vm} {c : VmCall} {fail : KernReturn → β} {act : Vm → β × Vm}
    {M : β × Vm → Prop} (hf : ∀ e ≠ 0#32, M (fail e, v.tally c)) (ha : M (act (v.tally c))) :
    M (v.issue c fail act) := by
  unfold issue
  split
  · rename_i e _
    exact hf e.1 e.2
  · exact ha

@[simp] theorem tally_byte (v : Vm) (c : VmCall) : (v.tally c).byte = v.byte := rfl

@[simp] theorem tally_map (v : Vm) (c : VmCall) : (v.tally c).map = v.map := rfl

@[simp] theorem tally_faults (v : Vm) (c : VmCall) : (v.tally c).faults = v.faults := rfl

/-- The page that contains the address starts here. -/
def truncPage (v : Vm) (a : ℕ) : ℕ := a / v.granularity * v.granularity

/-- The first page boundary from the address on. -/
def roundPage (v : Vm) (a : ℕ) : ℕ := v.truncPage (a + v.granularity - 1)

/-- `task_info` with `TASK_VM_INFO`: the page size. -/
def taskVmInfo (v : Vm) : (KernReturn × BitVec 32) × Vm :=
  v.issue .taskVmInfo (·, 0) fun v => ((0, v.taskPageSize), v)

/-- `host_page_size`. -/
def hostPageSizeCall (v : Vm) : (KernReturn × BitVec 64) × Vm :=
  v.issue .hostPageSize (·, 0) fun v => ((0, v.hostPageSize), v)

/-- `mach_vm_region_recurse`: the region that contains the address, or the next one. -/
def machVmRegionRecurse (v : Vm) (a : Addr) : Except KernReturn Region × Vm :=
  v.issue .regionRecurse .error fun v =>
    match v.map.next a.toNat with
    | some r => (.ok r, v)
    | none => (.error kernInvalidAddress, v)

/-- `mach_vm_protect`, which acts on all pages that the range touches. `VM_PROT_COPY` is not part
of the protection. -/
def machVmProtect (v : Vm) (a : Addr) (size : BitVec 64) (prot : VmProt) : KernReturn × Vm :=
  v.issue .protect id fun v =>
    let lo := v.truncPage a.toNat
    let hi := v.roundPage (a.toNat + size.toNat)
    if v.map.All lo hi fun _ => true then
      if v.map.All lo hi fun r => r.grants prot then
        (0, { v with map := v.map.protect lo hi (prot &&& ~~~vmProtCopy) })
      else (kernProtectionFailure, v)
    else (kernInvalidAddress, v)

/-- The bytes at an address. -/
def load (v : Vm) (a : Addr) (n : ℕ) : List Byte :=
  (List.range n).map fun i => v.byte (a + BitVec.ofNat 64 i)

/-- `mach_vm_read`, on memory that can be read. -/
def machVmRead (v : Vm) (a : Addr) (size : BitVec 64) : Except KernReturn (List Byte) × Vm :=
  v.issue .read .error fun v =>
    let hi := a.toNat + size.toNat
    if hi ≤ 2 ^ 64 ∧ v.map.All a.toNat hi (fun _ => true) then
      if v.map.All a.toNat hi fun r => r.protection &&& vmProtRead ≠ 0 then
        (.ok (v.load a size.toNat), v)
      else (.error kernProtectionFailure, v)
    else (.error kernInvalidAddress, v)

/-- Store bytes at an address. -/
def store (v : Vm) (a : Addr) (bytes : List Byte) : Vm :=
  { v with byte := fun x => bytes.getD (x - a).toNat (v.byte x) }

/-- `mach_vm_write`, on memory that can be written. -/
def machVmWrite (v : Vm) (a : Addr) (bytes : List Byte) : KernReturn × Vm :=
  v.issue .write id fun v =>
    let hi := a.toNat + bytes.length
    if hi ≤ 2 ^ 64 ∧ v.map.All a.toNat hi (fun _ => true) then
      if v.map.All a.toNat hi fun r => r.protection &&& vmProtWrite ≠ 0 then (0, v.store a bytes)
      else (kernProtectionFailure, v)
    else (kernInvalidAddress, v)

/-- `vm_machine_attribute` with `MATTR_CACHE`, on mapped memory. -/
def vmMachineAttribute (v : Vm) (a : Addr) (size : BitVec 64) : KernReturn × Vm :=
  v.issue .machineAttribute id fun v =>
    let hi := a.toNat + size.toNat
    if hi ≤ 2 ^ 64 ∧ v.map.All a.toNat hi (fun _ => true) then (0, v) else (kernInvalidAddress, v)

/-! ## Bytes at offsets -/

section Offsets

variable (v : Vm) (a : Addr)

@[simp] theorem length_load (n : ℕ) : (v.load a n).length = n := by simp [load]

theorem offset_offset (i j : ℕ) :
    a + BitVec.ofNat 64 i + BitVec.ofNat 64 j = a + BitVec.ofNat 64 (i + j) := by
  rw [BitVec.add_assoc, BitVec.ofNat_add]

theorem offset_add (i : ℕ) (n : BitVec 64) :
    a + BitVec.ofNat 64 i + n = a + BitVec.ofNat 64 (i + n.toNat) := by
  rw [← offset_offset, BitVec.ofNat_toNat, BitVec.setWidth_eq]

/-- The `std::min` of two sizes. -/
theorem toNat_min (m n : BitVec 64) :
    (if m < n then m else n).toNat = min m.toNat n.toNat := by
  split
  · rename_i hlt
    exact (min_eq_left (le_of_lt hlt)).symm
  · rename_i hlt
    exact (min_eq_right (not_lt.mp hlt)).symm

/-- An offset that does not wrap around the address space. -/
theorem toNat_offset {a : Addr} {i : ℕ} (h : a.toNat + i < 2 ^ 64) :
    (a + BitVec.ofNat 64 i).toNat = a.toNat + i := by
  rw [BitVec.toNat_add, BitVec.toNat_ofNat]
  omega

theorem getElem_load {n i j : ℕ} (h : i < (v.load (a + BitVec.ofNat 64 j) n).length) :
    (v.load (a + BitVec.ofNat 64 j) n)[i] = v.byte (a + BitVec.ofNat 64 (j + i)) := by
  simp [load, offset_offset]

/-- A load finds the bytes of a buffer exactly when each of them is there. -/
theorem load_eq_iff (bytes : List Byte) (n j : ℕ) (h : j + n ≤ bytes.length) :
    v.load (a + BitVec.ofNat 64 j) n = (bytes.drop j).take n ↔
      ∀ i < n, bytes[j + i]? = some (v.byte (a + BitVec.ofNat 64 (j + i))) := by
  have hlen : ((bytes.drop j).take n).length = n := by
    rw [List.length_take, List.length_drop]
    omega
  constructor
  · intro heq i hi
    have hget := List.getElem_of_eq heq (i := i) (by simpa using hi)
    rw [getElem_load, List.getElem_take, List.getElem_drop] at hget
    rw [hget, List.getElem?_eq_getElem (by omega)]
  · intro hall
    refine List.ext_getElem (by rw [length_load, hlen]) ?_
    intro i hi _
    rw [getElem_load, List.getElem_take, List.getElem_drop]
    have hget := hall i (by simpa using hi)
    rw [List.getElem?_eq_getElem (by simp at hi; omega)] at hget
    exact (Option.some.inj hget).symm

/-- The distance of two offsets from an address. -/
theorem sub_offset_toNat {i j : ℕ} (hi : i < 2 ^ 64) (hj : j < 2 ^ 64) :
    (a + BitVec.ofNat 64 i - (a + BitVec.ofNat 64 j)).toNat =
      if j ≤ i then i - j else 2 ^ 64 + i - j := by
  split <;> bv_omega

/-- Every address is an offset from any other. -/
theorem add_offset (x : Addr) : a + BitVec.ofNat 64 (x - a).toNat = x := by
  rw [BitVec.ofNat_toNat, BitVec.setWidth_eq]
  bv_omega

end Offsets

end Vm

end MachDebug
