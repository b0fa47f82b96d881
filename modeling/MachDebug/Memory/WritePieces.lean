import MachDebug.Memory.Pages
import MachDebug.Memory.Regions

/-!
# Writing inside a region

Without failures, the inner loop writes all bytes of a range that can be written, piece by piece.

## Main definitions

* `Vm.FaultFree v`: no failure is injected
* `Ready task P s`: what the loops rely on, apart from the map

## Main results

* `store_store`: storing the next bytes of a buffer is storing more of it
* `Ready.of_vm`: the page size is as before when the map or the bytes change
* `writeRegionLoop_returns`: the inner loop writes the whole range
* `writeRegion_returns`: so does `WriteRegion`
-/

namespace MachDebug

open Program

/-- No failure is injected. -/
def Vm.FaultFree (v : Vm) : Prop := ∀ c n, v.faults c n = none

theorem Vm.FaultFree.issue_eq {β : Type} {v : Vm} (h : v.FaultFree) (c : VmCall)
    (fail : KernReturn → β) (act : Vm → β × Vm) : v.issue c fail act = act (v.tally c) := by
  simp [Vm.issue, h c]

/-! ## Bytes -/

theorem Vm.store_byte_eq (v : Vm) (a : Addr) (bytes : List Byte) (x : Addr) :
    (v.store a bytes).byte x = bytes[(x - a).toNat]?.getD (v.byte x) := by
  simp [Vm.store, List.getD_eq_getElem?_getD]

/-- Storing the next bytes of a buffer is storing more of it. -/
theorem Vm.store_store (v : Vm) (a : Addr) (bytes : List Byte) {n k : ℕ}
    (hn64 : n + k < 2 ^ 64) (u : Vm)
    (hu : u.byte = (v.store a (bytes.take n)).byte) :
    (u.store (a + BitVec.ofNat 64 n) ((bytes.drop n).take k)).byte =
      (v.store a (bytes.take (n + k))).byte := by
  funext x
  have hoffset : (x - (a + BitVec.ofNat 64 n)).toNat =
      if n ≤ (x - a).toNat then (x - a).toNat - n else 2 ^ 64 + (x - a).toNat - n := by
    have hx := sub_offset_toNat a (x - a).isLt (show n < 2 ^ 64 by omega)
    rwa [add_offset] at hx
  rw [store_byte_eq, hu, store_byte_eq, store_byte_eq, hoffset]
  have hx := (x - a).isLt
  by_cases hle : n ≤ (x - a).toNat
  · have hnone : (bytes.take n)[(x - a).toNat]? = none := List.getElem?_take_eq_none hle
    have hiff : (x - a).toNat - n < k ↔ (x - a).toNat < n + k := by omega
    rw [if_pos hle, hnone, Option.getD_none, List.getElem?_take, List.getElem?_take,
      List.getElem?_drop, Nat.add_sub_cancel' hle]
    simp only [hiff]
  · have hnone : ((bytes.drop n).take k)[2 ^ 64 + (x - a).toNat - n]? = none :=
      List.getElem?_take_eq_none (by omega)
    rw [if_neg hle, hnone, Option.getD_none, List.getElem?_take_of_lt (by omega),
      List.getElem?_take_of_lt (by omega)]

/-! ## The calls -/

/-- A `mach_vm_write` to memory that can be written. -/
theorem machVmWrite_eq {v : Vm} (hk : v.FaultFree) {a : Addr} {bytes : List Byte}
    (hend : a.toNat + bytes.length ≤ 2 ^ 64)
    (hw : ∀ i < bytes.length, (v.map.find (a.toNat + i)).any
      (fun r => r.protection &&& vmProtWrite ≠ 0) = true) :
    v.machVmWrite a bytes = (0, (v.tally .write).store a bytes) := by
  have hwrite : (v.tally .write).map.All a.toNat (a.toNat + bytes.length)
      fun r => r.protection &&& vmProtWrite ≠ 0 := by
    intro i hi
    exact hw i (by omega)
  unfold Vm.machVmWrite
  rw [hk.issue_eq]
  simp only
  rw [if_pos ⟨hend, hwrite.mapped⟩, if_pos hwrite]

/-- A `vm_machine_attribute` on mapped memory. -/
theorem vmMachineAttribute_eq {v : Vm} (hk : v.FaultFree) {a : Addr} {size : BitVec 64}
    (hend : a.toNat + size.toNat ≤ 2 ^ 64)
    (hm : ∀ i < size.toNat, (v.map.find (a.toNat + i)).isSome = true) :
    v.vmMachineAttribute a size = (0, v.tally .machineAttribute) := by
  have hmapped : (v.tally .machineAttribute).map.All a.toNat (a.toNat + size.toNat)
      fun _ => true := by
    intro i hi
    obtain ⟨r, hr⟩ := Option.isSome_iff_exists.mp (hm i (by omega))
    show ((v.map.find (a.toNat + i)).any fun _ => true) = true
    rw [hr]
    rfl
  unfold Vm.vmMachineAttribute
  rw [hk.issue_eq]
  simp only
  rw [if_pos ⟨hend, hmapped⟩]

/-! ## What the loops rely on -/

/-- No failure is injected, and the pages have the size that `PageSize` returns. -/
structure Ready (task : Port) (P : BitVec 64) (s : VmState) : Prop where
  faultFree : s.vm.FaultFree
  granularity : s.vm.granularity = P.toNat
  sized : Sized task P s

/-- What `PageSize` returns without failures. -/
def VmState.reportedPageSize (s : VmState) (task : Port) : BitVec 64 :=
  if s.memory.mPageSize = kInvalidPageSize then
    if task ≠ 0 then s.vm.taskPageSize.signExtend 64 else s.vm.hostPageSize
  else s.memory.mPageSize

theorem sized_iff {task : Port} {P : BitVec 64} {s : VmState} (hk : s.vm.FaultFree) :
    Sized task P s ↔ s.reportedPageSize task = P := by
  have hnext : s.nextPageSize task = s.reportedPageSize task := by
    simp [VmState.nextPageSize, VmState.reportedPageSize, hk _ _]
  rw [sized_iff_next, hnext]

section Ready

variable {task : Port} {P : BitVec 64} {s s' : VmState}

/-- A change of the map or of the bytes keeps the loops ready. -/
theorem Ready.of_vm (h : Ready task P s) {map : AddressMap} {byte : Addr → Byte}
    {calls : VmCall → ℕ} {restores : List KernReturn}
    (hvm : s'.vm = { s.vm with map := map, byte := byte, calls := calls, restores := restores })
    (hmem : s'.memory.mPageSize = s.memory.mPageSize) : Ready task P s' := by
  have hk : s'.vm.FaultFree := by
    rw [hvm]
    exact h.faultFree
  refine ⟨hk, ?_, ?_⟩
  · rw [hvm]
    exact h.granularity
  · have hsized := (sized_iff h.faultFree).mp h.sized
    rw [sized_iff hk, ← hsized, VmState.reportedPageSize, VmState.reportedPageSize, hmem, hvm]

/-- The page size that has been kept is the one to come. -/
theorem Ready.of_recalled (h : Ready task P s) (hP : P ≠ kInvalidPageSize)
    (hkept : s'.memory.mPageSize = P) (hrec : Recalled s s') : Ready task P s' := by
  refine ⟨?_, ?_, .of_kept hP hkept⟩
  · rw [hrec.vm]
    exact h.faultFree
  · rw [hrec.vm]
    exact h.granularity

/-! ## The loop -/

/-- A piece of memory that can be written is written, and its cache is flushed. -/
theorem writePiece_returns (h : Ready task P s) (x : Addr) (bytes : List Byte) (count : BitVec 64)
    (hlen : bytes.length = count.toNat) (hend : x.toNat + count.toNat ≤ 2 ^ 64)
    (hw : ∀ i < count.toNat, (s.vm.map.find (x.toNat + i)).any
      (fun r => r.protection &&& vmProtWrite ≠ 0) = true) :
    Partial.Returns (MachVMMemory.writePiece x bytes count) (fun ok s' => ok = true ∧
      s'.vm.byte = (s.vm.store x bytes).byte ∧ s'.vm.map = s.vm.map ∧ Ready task P s') s := by
  have hwrite := machVmWrite_eq h.faultFree (show x.toNat + bytes.length ≤ 2 ^ 64 by omega)
    (by rwa [hlen])
  have hattr := vmMachineAttribute_eq (v := (s.vm.tally .write).store x bytes) h.faultFree hend
    fun i hi => Option.isSome_of_any (hw i hi)
  have hrun := MachVMMemory.writePiece_run (congrArg Prod.snd hwrite) hattr
  exact ⟨_, _, hrun, rfl, rfl, rfl, h.of_vm rfl rfl⟩

/-- **The inner loop** writes the whole of a range that can be written. -/
theorem writeRegionLoop_returns {k : ℕ} (hP : P.toNat = 2 ^ k) (hP32 : P.toNat < 2 ^ 32) {v : Vm}
    {x : Addr} {data : List Byte} {dataCount : BitVec 64} (hlen : dataCount.toNat ≤ data.length)
    (hend : x.toNat + dataCount.toNat ≤ 2 ^ 64) (hw : ∀ i < dataCount.toNat,
      (v.map.find (x.toNat + i)).any (fun r => r.protection &&& vmProtWrite ≠ 0) = true)
    (fuel : ℕ) (total : BitVec 64) (htotal : total.toNat ≤ dataCount.toNat)
    (hfuel : dataCount.toNat - total.toNat < fuel) (h : Ready task P s)
    (hbyte : s.vm.byte = (v.store x (data.take total.toNat)).byte) (hmap : s.vm.map = v.map) :
    Partial.Returns (MachVMMemory.writeRegionLoop task dataCount fuel total
        (x + BitVec.ofNat 64 total.toNat) (data.drop total.toNat))
      (fun n s' => n = dataCount ∧ s'.vm.byte = (v.store x (data.take dataCount.toNat)).byte ∧
        s'.vm.map = v.map ∧ Ready task P s') s := by
  have hPpos : 0 < P.toNat := hP ▸ Nat.two_pow_pos k
  -- the induction is on the fuel, which bounds the bytes that are left
  induction fuel generalizing total s with
  | zero => exact absurd hfuel (Nat.not_lt_zero _)
  | succ fuel ih =>
    unfold MachVMMemory.writeRegionLoop
    refine .ite (fun hlt => ?_) fun hge => ?_
    · have hlt' : total.toNat < dataCount.toNat := hlt
      refine .bind <| (maxBytesLeftInPage_returns h.sized hPpos _ _).mono ?_
      intro n t ht
      obtain ⟨hn, hkept, hrec⟩ := ht
      have hready := h.of_recalled (ne_kInvalidPageSize hP32) hkept hrec
      have hnat : (x + BitVec.ofNat 64 total.toNat).toNat = x.toNat + total.toNat :=
        Vm.toNat_offset (by omega)
      -- a piece has at least one byte and at most a page, so 32 bits hold its size
      have hsub : (dataCount - total).toNat = dataCount.toNat - total.toNat := by bv_omega
      rw [hnat] at hn
      have hleft := leftInPage_pos (a := x.toNat + total.toNat) hPpos
      have hleft' := leftInPage_le P.toNat (x.toNat + total.toNat)
      have hcount : (n.setWidth 32).setWidth 64 = n := by bv_omega
      have hsum : (total + n).toNat = total.toNat + n.toNat := by bv_omega
      simp only [hcount]
      have hpiece := writePiece_returns hready (x + BitVec.ofNat 64 total.toNat)
        ((data.drop total.toNat).take n.toNat) n
        (by rw [List.length_take, List.length_drop]; omega) (by rw [hnat]; omega)
        fun i hi => by
          have htv : t.vm.map = v.map := by rw [hrec.vm, hmap]
          rw [htv, hnat, Nat.add_assoc]
          exact hw (total.toNat + i) (by omega)
      refine .bind <| hpiece.mono ?_
      intro ok u hu
      obtain ⟨rfl, hbyte', hmap', hready'⟩ := hu
      rw [if_pos rfl, Vm.offset_add, List.drop_drop, ← hsum]
      refine ih (total + n) (by omega) (by omega) hready' ?_ ?_
      · rw [hbyte', hsum]
        refine Vm.store_store v x data (by omega) t.vm ?_
        rw [hrec.vm]
        exact hbyte
      · rw [hmap', hrec.vm]
        exact hmap
    · have hge' : dataCount.toNat ≤ total.toNat := not_lt.mp hge
      have heq : total = dataCount := BitVec.eq_of_toNat_eq (by omega)
      subst heq
      exact .ret ⟨rfl, hbyte, hmap, h⟩

/-- **`WriteRegion`** writes the whole of a range that can be written. -/
theorem writeRegion_returns {k : ℕ} (hP : P.toNat = 2 ^ k) (hP32 : P.toNat < 2 ^ 32) {x : Addr}
    {data : List Byte} {dataCount : BitVec 64} (hlen : dataCount.toNat ≤ data.length)
    (hend : x.toNat + dataCount.toNat ≤ 2 ^ 64) (hw : ∀ i < dataCount.toNat,
      (s.vm.map.find (x.toNat + i)).any (fun r => r.protection &&& vmProtWrite ≠ 0) = true)
    {fuel : ℕ} (hfuel : dataCount.toNat < fuel) (h : Ready task P s) :
    Partial.Returns (MachVMMemory.writeRegion fuel task x (some data) dataCount)
      (fun n s' => n = dataCount ∧ s'.vm.byte = (s.vm.store x (data.take dataCount.toNat)).byte ∧
        s'.vm.map = s.vm.map ∧ Ready task P s') s := by
  have hnil : s.vm.byte = (s.vm.store x (data.take 0)).byte := by
    funext y
    simp [Vm.store_byte_eq]
  refine .ite (fun hz => ?_) fun _ => ?_
  · subst hz
    exact .ret ⟨rfl, hnil, rfl, h⟩
  · have hloop :=
      writeRegionLoop_returns hP hP32 hlen hend hw fuel 0 (Nat.zero_le _) hfuel h hnil rfl
    simpa using hloop

end Ready

end MachDebug
