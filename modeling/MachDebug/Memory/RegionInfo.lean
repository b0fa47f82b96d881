import MachDebug.Memory.MachVMMemory
import Mathlib.Data.List.Range

/-!
# Describing the memory of the target

`GetMemoryRegionInfo` of `MachVMMemory.cpp` with what it collects from `MachVMRegion.cpp`: the
permissions, the types and the dirty pages of a region. The pages of a region are asked for in
chunks, so that the array for the answers stays small.

## Main definitions

* `DNBRegionInfo`: what is told about an address
* `MachVMRegion.getDNBPermissions`, `RegionTags.getMemoryTypes`: the permissions and the types
* `PageQuery`, `getDirtyPages`: the dirty pages, chunk by chunk
* `MachVMMemory.getMemoryRegionInfo`

## Main results

* `getDirtyPages_eq`: the chunks together are the dirty pages of the region
-/

namespace MachDebug

open Program

/-! ## Permissions and types -/

/-- `VM_PROT_EXECUTE`. -/
def vmProtExecute : VmProt := 4#32

/-- `eMemoryPermissionsWritable`. -/
def eMemoryPermissionsWritable : BitVec 32 := 1#32

/-- `eMemoryPermissionsReadable`. -/
def eMemoryPermissionsReadable : BitVec 32 := 2#32

/-- `eMemoryPermissionsExecutable`. -/
def eMemoryPermissionsExecutable : BitVec 32 := 4#32

/-- The permissions that stand for a protection. -/
def dnbPermissions (prot : VmProt) : BitVec 32 :=
  (if prot &&& vmProtRead = vmProtRead then eMemoryPermissionsReadable else 0) |||
    (if prot &&& vmProtWrite = vmProtWrite then eMemoryPermissionsWritable else 0) |||
    (if prot &&& vmProtExecute = vmProtExecute then eMemoryPermissionsExecutable else 0)

/-- `MachVMRegion::GetDNBPermissions`, of a region object that was asked for the address `mAddr`. -/
def MachVMRegion.getDNBPermissions (r : MachVMRegion) (mAddr : Addr) : BitVec 32 :=
  if mAddr = invalidNubAddress ∨ r.mStart = invalidNubAddress ∨ r.mSize = 0 then 0
  else dnbPermissions r.mDataProtection

/-- What the kernel tells about a region next to its bounds and its protection. -/
structure RegionTags where
  userTag : BitVec 32
  shareMode : BitVec 8

/-- `VM_MEMORY_MALLOC`. -/
def vmMemoryMalloc : BitVec 32 := 1#32

/-- `VM_MEMORY_MALLOC_SMALL`. -/
def vmMemoryMallocSmall : BitVec 32 := 2#32

/-- `VM_MEMORY_MALLOC_LARGE`. -/
def vmMemoryMallocLarge : BitVec 32 := 3#32

/-- `VM_MEMORY_MALLOC_TINY`. -/
def vmMemoryMallocTiny : BitVec 32 := 7#32

/-- The tags of the heap: `VM_MEMORY_MALLOC_NANO`, `_TINY`, `_SMALL`, `_LARGE`, `_LARGE_REUSED`,
`_LARGE_REUSABLE` and `_HUGE`, `VM_MEMORY_REALLOC` and `VM_MEMORY_SBRK`. -/
def heapTags : List (BitVec 32) :=
  [11#32, vmMemoryMallocTiny, vmMemoryMallocSmall, vmMemoryMallocLarge, 9#32, 8#32, 4#32, 6#32,
    5#32]

/-- `VM_MEMORY_STACK`. -/
def vmMemoryStack : BitVec 32 := 30#32

/-- `SM_EMPTY`. -/
def smEmpty : BitVec 8 := 3#8

/-- `MachVMRegion::GetMemoryTypes`. -/
def RegionTags.getMemoryTypes (t : RegionTags) (prot : VmProt) : List String :=
  (if t.userTag = vmMemoryStack then if prot = 0 then ["stack-guard"] else ["stack"] else []) ++
  (if t.userTag = vmMemoryMalloc then
    if prot = 0 then ["malloc-guard"]
    else if t.shareMode = smEmpty then ["malloc-reserved"] else ["malloc-metadata"]
  else []) ++
  (if t.userTag ∈ heapTags then
    ["heap"] ++ (if t.userTag = vmMemoryMallocTiny then ["malloc-tiny"] else []) ++
      (if t.userTag = vmMemoryMallocLarge then ["malloc-large"] else []) ++
      (if t.userTag = vmMemoryMallocSmall then ["malloc-small"] else [])
  else [])

/-! ## Dirty pages -/

/-- `MAX_STACK_ALLOC_DISPOSITIONS`. -/
def maxStackAllocDispositions : BitVec 64 := 4096#64

/-- `VM_PAGE_QUERY_PAGE_DIRTY`. -/
def vmPageQueryPageDirty : BitVec 32 := 8#32

/-- `vm_page_size`, and the answers to `mach_vm_page_range_query`: by the number of the call, the
address and the number of pages, the dispositions of the pages. -/
structure PageQuery where
  vmPageSize : BitVec 64
  answer : ℕ → Addr → BitVec 64 → Except KernReturn (List (BitVec 32))

namespace PageQuery

variable (q : PageQuery)

/-- The addresses of the pages of a chunk whose dispositions are dirty. -/
def dirtyIn (start : Addr) : ℕ → List (BitVec 32) → List Addr
  | _, [] => []
  | i, d :: ds =>
    (if d &&& vmPageQueryPageDirty ≠ 0 then [start + BitVec.ofNat 64 i * q.vmPageSize] else []) ++
      dirtyIn start (i + 1) ds

/-- The loop over the chunks, from the chunk `chunk` on. It stops at the first failure. -/
def dirtyChunks (addr : Addr) (pages dispositionsSize : BitVec 64) : ℕ → ℕ → List Addr
  | 0, _ => []
  | left + 1, chunk =>
    let already := BitVec.ofNat 64 chunk * maxStackAllocDispositions
    let count := if dispositionsSize < pages - already then dispositionsSize else pages - already
    let start := addr + already * q.vmPageSize
    match q.answer chunk start count with
    | .error _ => []
    | .ok ds => q.dirtyIn start 0 ds ++ dirtyChunks addr pages dispositionsSize left (chunk + 1)

end PageQuery

/-- `get_dirty_pages`. The number of pages is an `int`; an array of negative length is undefined
behaviour, and gives no result here. -/
def getDirtyPages (q : PageQuery) (addr : Addr) (size : BitVec 64) : Option (List Addr) :=
  let pagesToQuery := (size / q.vmPageSize).setWidth 32
  if pagesToQuery.msb then none
  else
    let pages := pagesToQuery.setWidth 64
    let dispositionsSize := if maxStackAllocDispositions < pages then maxStackAllocDispositions
      else pages
    let chunkCount := (pages + maxStackAllocDispositions - 1) / maxStackAllocDispositions
    some (q.dirtyChunks addr pages dispositionsSize chunkCount.toNat 0)

/-! ## The information about an address -/

/-- `DNBRegionInfo`. -/
structure DNBRegionInfo where
  addr : Addr := 0
  size : BitVec 64 := 0
  permissions : BitVec 32 := 0
  dirtyPages : List Addr := []
  vmTypes : List String := []

namespace MachVMMemory

/-- The part of `GetMemoryRegionInfo` for an address that is in no region. The pages and types of
the record are left as they are. -/
def unmappedInfo (r : MachVMRegion) (a : Addr) (info : DNBRegionInfo) : DNBRegionInfo :=
  let size := if r.mErr.success ∧ a < r.mStart then r.mStart - a else 0
  { info with
    addr := a
    size := if size = 0 then invalidNubAddress - a else size
    permissions := 0 }

/-- The part of `GetMemoryRegionInfo` for an address in a region. -/
def mappedInfo (q : PageQuery) (tags : Addr → RegionTags) (r : MachVMRegion) (a : Addr) :
    VmM DNBRegionInfo :=
  match getDirtyPages q r.mStart r.mSize with
  | none => Partial.diverge
  | some pages => pure
      { addr := r.mStart
        size := r.mSize
        permissions := r.getDNBPermissions a
        dirtyPages := pages
        vmTypes := (tags r.mStart).getMemoryTypes r.mDataProtection }

/-- The two parts of `GetMemoryRegionInfo`. -/
def regionInfo (q : PageQuery) (tags : Addr → RegionTags) (found : Bool) (r : MachVMRegion)
    (a : Addr) (info : DNBRegionInfo) : VmM DNBRegionInfo :=
  if found then mappedInfo q tags r a else pure (unmappedInfo r a info)

/-- `MachVMMemory::GetMemoryRegionInfo`, with the tags of the region that starts at an address. The
region object is destroyed at the end. -/
def getMemoryRegionInfo (q : PageQuery) (tags : Addr → RegionTags) (a : Addr)
    (info : DNBRegionInfo) : VmM (Bool × DNBRegionInfo) := do
  let (found, r) ← ({} : MachVMRegion).getRegionForAddress a
  let info ← regionInfo q tags found r a info
  let _ ← r.clear
  return (true, info)

end MachVMMemory

/-! ## The chunks together -/

/-- The pages of a range that are dirty, all at once. -/
def dirtyPages (dirty : Addr → Bool) (pageSize : BitVec 64) (addr : Addr) (n : ℕ) : List Addr :=
  ((List.range n).map fun i => addr + BitVec.ofNat 64 i * pageSize).filter dirty

theorem dirtyPages_add (dirty : Addr → Bool) (pageSize : BitVec 64) (addr : Addr) (m n : ℕ) :
    dirtyPages dirty pageSize addr (m + n) = dirtyPages dirty pageSize addr m ++
      dirtyPages dirty pageSize (addr + BitVec.ofNat 64 m * pageSize) n := by
  have hshift (i : ℕ) : addr + BitVec.ofNat 64 (m + i) * pageSize =
      addr + BitVec.ofNat 64 m * pageSize + BitVec.ofNat 64 i * pageSize := by
    rw [BitVec.ofNat_add, BitVec.add_mul, BitVec.add_assoc]
  rw [dirtyPages, List.range_add, List.map_append, List.filter_append, List.map_map]
  congr 2
  exact List.map_congr_left fun i _ => hshift i

theorem dirtyPages_one (dirty : Addr → Bool) (pageSize : BitVec 64) (addr : Addr) :
    dirtyPages dirty pageSize addr 1 = if dirty addr = true then [addr] else [] := by
  have hfirst : addr + BitVec.ofNat 64 0 * pageSize = addr := by
    rw [BitVec.zero_mul, BitVec.add_zero]
  rw [dirtyPages, List.range_one, List.map_singleton, hfirst, List.filter_singleton,
    Bool.cond_eq_ite]

/-- The answers are about the pages that were asked for: one disposition for each, which tells
whether the page is dirty. -/
def PageQuery.Reports (q : PageQuery) (dirty : Addr → Bool) : Prop :=
  ∀ chunk start count ds, q.answer chunk start count = .ok ds → ds.length = count.toNat ∧
    ∀ i d, ds[i]? = some d →
      (d &&& vmPageQueryPageDirty ≠ 0 ↔ dirty (start + BitVec.ofNat 64 i * q.vmPageSize) = true)

namespace PageQuery

variable {q : PageQuery} {dirty : Addr → Bool}

/-- The dirty pages of a chunk, from the disposition `i` on. -/
theorem dirtyIn_eq (start : Addr) (ds : List (BitVec 32)) (i : ℕ)
    (h : ∀ j d, ds[j]? = some d → (d &&& vmPageQueryPageDirty ≠ 0 ↔
      dirty (start + BitVec.ofNat 64 (i + j) * q.vmPageSize) = true)) :
    q.dirtyIn start i ds =
      dirtyPages dirty q.vmPageSize (start + BitVec.ofNat 64 i * q.vmPageSize) ds.length := by
  induction ds generalizing i with
  | nil => rfl
  | cons d ds ih =>
    have hhead := h 0 d rfl
    rw [Nat.add_zero] at hhead
    rw [List.length_cons, Nat.add_comm, dirtyPages_add, dirtyPages_one, dirtyIn, ih (i + 1)]
    · simp only [hhead]
      rw [BitVec.ofNat_add, BitVec.add_mul, BitVec.add_assoc]
    · intro j e hj
      rw [Nat.add_assoc, Nat.add_comm 1 j]
      exact h (j + 1) e hj

/-- The answer to the query for the chunk `chunk` of `pages` pages from `addr` on: at most `4096`
pages are asked for at once. -/
def ask (q : PageQuery) (addr : Addr) (pages chunk : ℕ) : Except KernReturn (List (BitVec 32)) :=
  q.answer chunk (addr + BitVec.ofNat 64 (4096 * chunk) * q.vmPageSize)
    (BitVec.ofNat 64 (min 4096 (pages - 4096 * chunk)))

/-- **The loop over the chunks** collects the dirty pages from its first chunk on: all of them when
every query succeeds, or those of the chunks before the first query that fails. -/
theorem dirtyChunks_eq (hq : q.Reports dirty) (addr : Addr) {pages size : BitVec 64}
    (hpages : pages.toNat < 2 ^ 31) (hsize : size.toNat = min 4096 pages.toNat) (left chunk : ℕ)
    (hchunk : left + chunk = (pages.toNat + 4095) / 4096) :
    ∃ k, q.dirtyChunks addr pages size left chunk = dirtyPages dirty q.vmPageSize
        (addr + BitVec.ofNat 64 (4096 * chunk) * q.vmPageSize) k ∧
      ((4096 * chunk + k = max (4096 * chunk) pages.toNat ∧
          ∀ c ≥ chunk, 4096 * c < pages.toNat → ∃ ds, q.ask addr pages.toNat c = .ok ds) ∨
        ∃ failed e, q.ask addr pages.toNat failed = .error e ∧
          (∀ c ≥ chunk, c < failed → ∃ ds, q.ask addr pages.toNat c = .ok ds) ∧
          4096 * chunk + k = 4096 * failed ∧ 4096 * failed < pages.toNat) := by
  induction left generalizing chunk with
  | zero => exact ⟨0, rfl, .inl ⟨by omega, fun c hc hlt => by omega⟩⟩
  | succ left ih =>
    have hlt : 4096 * chunk < pages.toNat := by omega
    have halready : BitVec.ofNat 64 chunk * maxStackAllocDispositions =
        BitVec.ofNat 64 (4096 * chunk) := by
      rw [Nat.mul_comm, BitVec.ofNat_mul]
      rfl
    have hnat : (BitVec.ofNat 64 (4096 * chunk)).toNat = 4096 * chunk := by
      rw [BitVec.toNat_ofNat]
      omega
    unfold dirtyChunks
    simp only [halready]
    set count := if size < pages - BitVec.ofNat 64 (4096 * chunk) then size
      else pages - BitVec.ofNat 64 (4096 * chunk) with hcount
    have hsub : (pages - BitVec.ofNat 64 (4096 * chunk)).toNat = pages.toNat - 4096 * chunk := by
      rw [BitVec.toNat_sub_of_le (by rw [BitVec.le_def]; omega), hnat]
    have hc : count.toNat = min 4096 (pages.toNat - 4096 * chunk) := by
      rw [hcount, Vm.toNat_min, hsub, hsize]
      omega
    have hask : q.answer chunk (addr + BitVec.ofNat 64 (4096 * chunk) * q.vmPageSize) count =
        q.ask addr pages.toNat chunk := by
      rw [ask, ← hc, BitVec.ofNat_toNat, BitVec.setWidth_eq]
    cases hans : q.answer chunk (addr + BitVec.ofNat 64 (4096 * chunk) * q.vmPageSize) count with
    | error e =>
      refine ⟨0, rfl, .inr ⟨chunk, e, hask.symm.trans hans, fun c hge hlt' => ?_, rfl, hlt⟩⟩
      omega
    | ok ds =>
      obtain ⟨hlen, hds⟩ := hq _ _ _ _ hans
      obtain ⟨k, hk, hend⟩ := ih (chunk + 1) (by omega)
      have hin := dirtyIn_eq (q := q) (addr + BitVec.ofNat 64 (4096 * chunk) * q.vmPageSize) ds 0
        (by simpa only [Nat.zero_add] using hds)
      rw [BitVec.zero_mul, BitVec.add_zero, hlen] at hin
      -- a chunk that is followed by another is full
      have hmore : 0 < k → 4096 * (chunk + 1) < pages.toNat := by
        rcases hend with ⟨hend, -⟩ | ⟨failed, e, -, -, heq, hlt'⟩ <;> omega
      have hnext : dirtyPages dirty q.vmPageSize
          (addr + BitVec.ofNat 64 (4096 * (chunk + 1)) * q.vmPageSize) k = dirtyPages dirty
          q.vmPageSize (addr + BitVec.ofNat 64 (4096 * chunk) * q.vmPageSize +
            BitVec.ofNat 64 count.toNat * q.vmPageSize) k := by
        rcases Nat.eq_zero_or_pos k with rfl | hpos
        · rfl
        · have hfull : 4096 * chunk + count.toNat = 4096 * (chunk + 1) := by
            have hlt' := hmore hpos
            clear hend
            omega
          rw [BitVec.add_assoc, ← BitVec.add_mul, ← BitVec.ofNat_add, hfull]
      have hsucceeds {m : ℕ} (h : ∀ c ≥ chunk + 1, c < m → ∃ ds, q.ask addr pages.toNat c = .ok ds)
          (c : ℕ) (hge : c ≥ chunk) (hcm : c < m) : ∃ ds, q.ask addr pages.toNat c = .ok ds := by
        rcases hge.eq_or_lt with rfl | hgt
        · exact ⟨ds, hask.symm.trans hans⟩
        · exact h c hgt hcm
      refine ⟨count.toNat + k, by simp only [hin, hk, hnext, dirtyPages_add], ?_⟩
      rcases hend with ⟨hend, hok⟩ | ⟨failed, e, hfail, hok, heq, hlt'⟩
      · refine .inl ⟨by omega, fun c hge hlt' => ?_⟩
        exact hsucceeds (m := c + 1) (fun c' hge' hc' => hok c' hge' (by omega)) c hge (by omega)
      · exact .inr ⟨failed, e, hfail, hsucceeds hok, by omega, hlt'⟩

end PageQuery

/-- **The dirty pages of a region**: those among as many pages as the `int` holds, when it is not
negative. They are all listed, in the order of their addresses, when every query succeeds;
otherwise those of the chunks before the first query that fails are listed. -/
theorem getDirtyPages_eq (q : PageQuery) (dirty : Addr → Bool) (hq : q.Reports dirty) (addr : Addr)
    (size : BitVec 64) (hpages : (size / q.vmPageSize).toNat % 2 ^ 32 < 2 ^ 31) :
    ∃ k, getDirtyPages q addr size = some (dirtyPages dirty q.vmPageSize addr k) ∧
      ((k = (size / q.vmPageSize).toNat % 2 ^ 32 ∧ ∀ chunk, 4096 * chunk < k →
          ∃ ds, q.ask addr ((size / q.vmPageSize).toNat % 2 ^ 32) chunk = .ok ds) ∨
        ∃ failed e, q.ask addr ((size / q.vmPageSize).toNat % 2 ^ 32) failed = .error e ∧
          (∀ chunk < failed,
            ∃ ds, q.ask addr ((size / q.vmPageSize).toNat % 2 ^ 32) chunk = .ok ds) ∧
          k = 4096 * failed ∧ k < (size / q.vmPageSize).toNat % 2 ^ 32) := by
  set pages := ((size / q.vmPageSize).setWidth 32).setWidth 64 with hset
  have hnat : pages.toNat = (size / q.vmPageSize).toNat % 2 ^ 32 := by
    rw [hset, BitVec.toNat_setWidth, BitVec.toNat_setWidth]
    omega
  have hmsb : ((size / q.vmPageSize).setWidth 32).msb = false := by
    rw [BitVec.msb_eq_decide, BitVec.toNat_setWidth, decide_eq_false_iff_not]
    omega
  have hsize : (if maxStackAllocDispositions < pages then maxStackAllocDispositions
      else pages).toNat = min 4096 pages.toNat := Vm.toNat_min _ _
  have hcount : ((pages + maxStackAllocDispositions - 1) / maxStackAllocDispositions).toNat =
      (pages.toNat + 4095) / 4096 := by
    have hsum : (pages + maxStackAllocDispositions - 1).toNat = pages.toNat + 4095 := by
      unfold maxStackAllocDispositions
      bv_omega
    rw [BitVec.toNat_udiv, hsum]
    rfl
  obtain ⟨k, hk, hend⟩ := PageQuery.dirtyChunks_eq hq addr (by omega) hsize
    ((pages + maxStackAllocDispositions - 1) / maxStackAllocDispositions).toNat 0 hcount
  rw [Nat.mul_zero, BitVec.zero_mul, BitVec.add_zero] at hk
  simp only [Nat.mul_zero, Nat.zero_add, Nat.zero_max, hnat] at hend
  refine ⟨k, ?_, ?_⟩
  · rw [getDirtyPages]
    simp only [hmsb, Bool.false_eq_true, if_false, ← hset]
    rw [hk]
  · rcases hend with ⟨rfl, hok⟩ | ⟨failed, e, hfail, hok, rfl, hlt⟩
    · exact .inl ⟨rfl, fun chunk hlt => hok chunk (Nat.zero_le _) hlt⟩
    · exact .inr ⟨failed, e, hfail, fun chunk hlt => hok chunk (Nat.zero_le _) hlt, rfl, hlt⟩

/-- Pages of sixteen bytes, every other of them dirty. -/
def PageQuery.everyOther : PageQuery where
  vmPageSize := 16
  answer _ start count := .ok <| (List.range count.toNat).map fun i =>
    if (start + BitVec.ofNat 64 i * 16).getLsbD 4 then vmPageQueryPageDirty else 0

theorem PageQuery.everyOther_reports : PageQuery.everyOther.Reports fun x => x.getLsbD 4 := by
  intro chunk start count ds h
  obtain rfl := Except.ok.inj h
  refine ⟨by simp, fun i d hd => ?_⟩
  rw [List.getElem?_map] at hd
  obtain ⟨j, hj, rfl⟩ := Option.map_eq_some_iff.mp hd
  obtain ⟨-, rfl⟩ := List.getElem?_eq_some_iff.mp hj
  rw [List.getElem_range]
  show (if (start + BitVec.ofNat 64 i * 16).getLsbD 4 then vmPageQueryPageDirty else 0) &&&
    vmPageQueryPageDirty ≠ 0 ↔ (start + BitVec.ofNat 64 i * 16).getLsbD 4 = true
  split <;> simp_all [vmPageQueryPageDirty]

/-- Two of four pages are dirty. -/
theorem getDirtyPages_everyOther :
    ∃ k, getDirtyPages .everyOther 0x1000 64 =
      some (dirtyPages (fun x => x.getLsbD 4) 16 0x1000 k) ∧ k = 4 ∧
      dirtyPages (fun x => x.getLsbD 4) 16 0x1000 k = [0x1010, 0x1030] := by
  obtain ⟨k, hk, ⟨rfl, -⟩ | ⟨failed, e, hfail, -⟩⟩ := getDirtyPages_eq .everyOther
    (fun x => x.getLsbD 4) PageQuery.everyOther_reports 0x1000 64 (by decide)
  · exact ⟨_, hk, by decide, by decide⟩
  · cases hfail

end MachDebug
