import MachDebug.Memory.Read
import MachDebug.Memory.Write
import MachDebug.Memory.WriteExact

/-!
# Memory of the target, as the controller sees it

`DebuggerController` reads into a vector of zeros and writes from a buffer. The number of bytes that
were read or written comes up through `MachVMMemory`, `MachTask` and `MachProcess`, and is dropped
here: the bytes that could not be read are zeros in the result, and the bytes that could not be
written are missing from the target, without a sign of it.

## Main definitions

* `DebuggerController.readMemory`, `DebuggerController.writeMemory`
* `Vm.byteAt v x`: the byte of the target at an address, if the address is mapped
* `ReadFaithful`, `WriteFaithful`: what the caller takes a normal return for

## Main results

* `write_mapped`: a write maps and unmaps nothing
* `DebuggerController.faithful_iff`: when the caller is right
-/

namespace MachDebug

open Program

/-- The `max_size` of a `std::vector<uint8_t>`; a longer one cannot be made. -/
def vectorMaxSize : BitVec 64 := 0x7fffffffffffffff#64

namespace DebuggerController

/-- `DebuggerController::read_memory`. The vector starts out with zeros. -/
def readMemory (p : MachProcess) (fuel : ℕ) (addr : Addr) (size : BitVec 64) : VmM (List Byte) :=
  if vectorMaxSize < size then Partial.diverge
  else do
    let (_, memoryData) ← p.readMemory fuel addr size (some (List.replicate size.toNat 0))
    return memoryData.getD []

/-- `DebuggerController::write_memory`. -/
def writeMemory (p : MachProcess) (fuel : ℕ) (addr : Addr) (data : Option (List Byte))
    (size : BitVec 64) : VmM Unit := do
  let _ ← p.writeMemory fuel addr size data
  return ()

end DebuggerController

/-- The byte of the target at an address, if the address is mapped. -/
def Vm.byteAt (v : Vm) (x : Addr) : Option Byte :=
  if (v.map.find x.toNat).isSome then some (v.byte x) else none

/-- Every byte of the result is the target's byte at its address. -/
def ReadFaithful (v : Vm) (a : Addr) (c : ℕ) (data : List Byte) : Prop :=
  data.length = c ∧ ∀ i < c, data[i]? = v.byteAt (a + BitVec.ofNat 64 i)

/-- Every byte of the buffer is in the target, at its address. -/
def WriteFaithful (v : Vm) (a : Addr) (c : ℕ) (data : List Byte) : Prop :=
  ∀ i < c, v.byteAt (a + BitVec.ofNat 64 i) = data[i]?

/-! ## The mapped addresses -/

/-- The same addresses are mapped. -/
def SameMapped (s s' : VmState) : Prop :=
  ∀ x, (s'.vm.map.find x).isSome = (s.vm.map.find x).isSome

instance : Std.Refl SameMapped := ⟨fun _ _ => rfl⟩

instance : IsTrans VmState SameMapped := ⟨fun _ _ _ h h' x => (h' x).trans (h x)⟩

/-- The calls that leave the map alone. -/
theorem mapped_of_sameMap {α : Type} {p : VmM α} (h : Partial.Keeps SameMap p) :
    Partial.Keeps SameMapped p :=
  fun s => (h s).mono fun _ _ hs x => by rw [hs.map]

theorem machVmProtect_mapped (a : Addr) (size : BitVec 64) (prot : VmProt) :
    Partial.Keeps SameMapped (vmCall (·.machVmProtect a size prot)) := by
  rintro s kr s' hrun x
  cases hrun
  rcases machVmProtect_cases s.vm a size prot with ⟨-, hv⟩ | ⟨-, hv⟩
  · rw [hv]
    rfl
  · rw [hv]
    show ((s.vm.map.protect _ _ _).find x).isSome = (s.vm.map.find x).isSome
    cases hfind : s.vm.map.find x with
    | none => rw [AddressMap.find_protect_eq_none hfind]
    | some r =>
      obtain ⟨y, hy, -⟩ := AddressMap.find_protect hfind _ _ _
      rw [hy]
      rfl

theorem restoreProtections_mapped (r : MachVMRegion) :
    Partial.Keeps SameMapped r.restoreProtections := by
  refine .ite (.bind (.bind (machVmProtect_mapped _ _ _) fun kr => .bind ?_ fun _ => .ret _)
    fun _ => .ite (.ret _) (.ret _)) (.ret _)
  rintro s u s' hrun x
  cases hrun
  rfl

theorem clear_mapped (r : MachVMRegion) : Partial.Keeps SameMapped r.clear :=
  .bind (restoreProtections_mapped r) fun _ => .ret _

theorem setProtections_mapped (r : MachVMRegion) (a : Addr) (size : BitVec 64) (prot : VmProt) :
    Partial.Keeps SameMapped (r.setProtections a size prot) := by
  refine .ite (.ite (.ite (.ret _) (.bind (.bind (machVmProtect_mapped _ _ _) fun kr => ?_)
    fun _ => .ite (.ret _) (.ret _))) (.ret _)) (.ret _)
  exact .ite (machVmProtect_mapped _ _ _) (.ret _)

theorem getRegionForAddress_mapped (r : MachVMRegion) (a : Addr) :
    Partial.Keeps SameMapped (r.getRegionForAddress a) := by
  refine .bind (clear_mapped r) fun _ => .bind
    (mapped_of_sameMap (vmCall_sameMap (machVmRegionRecurse_sameMap a))) ?_
  intro answer
  cases answer with
  | error kr => exact .ret _
  | ok x => exact .ret _

theorem writeLoop_mapped (inner : ℕ) (task : Port) (dataCount : BitVec 64) (fuel : ℕ)
    (r : MachVMRegion) (total : BitVec 64) (a : Addr) (data : Option (List Byte)) :
    Partial.Keeps SameMapped (MachVMMemory.writeLoop inner task dataCount fuel r total a data) := by
  induction fuel generalizing r total a data with
  | zero => exact fun _ => .diverge
  | succ fuel ih =>
    refine .ite (.bind (getRegionForAddress_mapped r a) fun p => ?_) (.ret _)
    refine .ite (.ite (.ret _) (.bind (setProtections_mapped _ _ _ _) fun q => ?_)) (.ret _)
    refine .ite (.bind (mapped_of_sameMap (MachVMMemory.writeRegion_sameMap _ _ _ _ _)) fun n => ?_)
      (.ret _)
    exact .ite (.ret _) (ih _ _ _ _)

/-- **A write** maps and unmaps nothing. -/
theorem write_mapped (fuel : ℕ) (task : Port) (a : Addr) (data : Option (List Byte))
    (dataCount : BitVec 64) :
    Partial.Keeps SameMapped (MachVMMemory.write fuel task a data dataCount) :=
  .bind (writeLoop_mapped _ _ _ _ _ _ _ _) fun _ => .bind (clear_mapped _) fun _ => .ret _

/-! ## The controller -/

section Controller

variable {p : MachProcess} {s : VmState} {P : BitVec 64} {k : ℕ} {a : Addr} {c : BitVec 64}
  {fuel : ℕ}

theorem Vm.byteAt_of_any {v : Vm} {x : Addr} {q : Region → Bool}
    (h : (v.map.find x.toNat).any q = true) : v.byteAt x = some (v.byte x) :=
  if_pos (Option.isSome_of_any h)

/-- The bytes that were read are those that can be read with all before them. -/
theorem ReadExact.lt_iff {v : Vm} {n m i : ℕ} {buf buf' : List Byte}
    (h : ReadExact v a m buf buf' n) (hi : i < m) :
    i < n ↔ ∀ j ≤ i, v.readable (a + BitVec.ofNat 64 j) = true := by
  -- either nothing stops the read, or the first byte that cannot be read does
  by_cases hall : ∀ j < m, v.readable (a + BitVec.ofNat 64 j) = true
  · have hn := h.all hall
    constructor
    · intro _ j hj
      exact hall j (by omega)
    · intro _
      omega
  · obtain ⟨-, hstop, hread⟩ := h.first hall
    constructor
    · intro hin j hj
      exact hread j (by omega)
    · intro hreach
      by_contra hge
      rw [hreach n (by omega)] at hstop
      cases hstop

theorem ReadExact.length_eq {v : Vm} {n m : ℕ} {buf buf' : List Byte}
    (h : ReadExact v a m buf buf' n) (hm : buf.length = m) : buf'.length = m := by
  apply Nat.le_antisymm
  · have hnone := h.rest m h.le
    rwa [List.getElem?_eq_none hm.le, List.getElem?_eq_none_iff] at hnone
  · by_contra hlt
    have hnone : buf'[buf'.length]? = none := List.getElem?_eq_none le_rfl
    by_cases hin : buf'.length < n
    · rw [h.read _ hin] at hnone
      cases hnone
    · rw [h.rest _ (by omega), List.getElem?_eq_none_iff] at hnone
      omega

/-- A byte of the request that can be read, with all before it. -/
def DebuggerController.ReadReaches (p : MachProcess) (v : Vm) (a : Addr) (i : ℕ) : Prop :=
  p.mTask.mTask ≠ 0 ∧ ∀ j ≤ i, v.readable (a + BitVec.ofNat 64 j) = true

/-- A byte of the request that a write can reach, with all before it. -/
def DebuggerController.WriteReaches (p : MachProcess) (v : Vm) (a : Addr) (i : ℕ) : Prop :=
  p.mTask.mTask ≠ 0 ∧ ∀ j ≤ i, v.writable (a + BitVec.ofNat 64 j) = true

/-- **A read** returns as many bytes as were asked for. Those that it reaches are the target's, and
the others are zeros. -/
theorem DebuggerController.readMemory_returns (hstop : p.mStatus = .stop) (hP : P.toNat = 2 ^ k)
    (hP32 : P.toNat < 2 ^ 32) (h : Ready p.mTask.mTask P s) (hal : s.vm.map.Aligned P.toNat)
    (hc : ¬ vectorMaxSize < c) (hfuel : c.toNat < fuel) :
    Partial.Returns (DebuggerController.readMemory p fuel a c) (fun data _ =>
      data.length = c.toNat ∧ ∀ i < c.toNat,
        (ReadReaches p s.vm a i → data[i]? = some (s.vm.byte (a + BitVec.ofNat 64 i))) ∧
        (¬ ReadReaches p s.vm a i → data[i]? = some 0)) s := by
  have hzero (i : ℕ) (hi : i < c.toNat) : (List.replicate c.toNat (0 : Byte))[i]? = some 0 := by
    rw [List.getElem?_replicate, if_pos hi]
  refine .ite (fun hlt => absurd hlt hc) fun _ => .bind <| .ite (fun _ => ?_)
    fun hne => absurd hstop hne
  by_cases ht : p.mTask.mTask = 0
  · rw [MachTask.readMemory, if_neg (not_not.mpr ht)]
    refine .ret <| .ret ⟨List.length_replicate, fun i hi => ⟨fun hr => absurd ht hr.1, fun _ => ?_⟩⟩
    exact hzero i hi
  · refine (p.mTask.readMemory_returns ht hP hP32 h.sized
      (hal.pageReadable (hP ▸ Nat.two_pow_pos k)) (h.faultFree _) a c _
      (by rw [List.length_replicate]) fuel hfuel).mono ?_
    rintro ⟨n, out⟩ t ⟨buf, rfl, hexact, -⟩
    refine .ret ⟨hexact.length_eq List.length_replicate, fun i hi => ⟨fun hr => ?_, fun hr => ?_⟩⟩
    · exact hexact.read i ((hexact.lt_iff hi).mpr hr.2)
    · have hge : ¬ i < n.toNat := fun hin => hr ⟨ht, (hexact.lt_iff hi).mp hin⟩
      exact (hexact.rest i (not_lt.mp hge)).trans (hzero i hi)

/-- The bytes that were written are those that a write reaches with all before them. -/
theorem WriteExact.lt_iff {w : Addr → Bool} {v : Vm} {n m i : ℕ} {bytes : List Byte}
    {byte : Addr → Byte} (h : WriteExact w v a m bytes n byte) (hi : i < m) :
    i < n ↔ ∀ j ≤ i, w (a + BitVec.ofNat 64 j) = true := by
  constructor
  · intro hin j hj
    exact h.reached j (by omega)
  · intro hreach
    by_contra hge
    have hstop := h.stop (by omega)
    rw [hreach n (by omega)] at hstop
    cases hstop

/-- **A write** leaves the buffer's bytes where it reaches, and the target's elsewhere. -/
theorem DebuggerController.writeMemory_returns (hstop : p.mStatus = .stop) (hP : P.toNat = 2 ^ k)
    (hP32 : P.toNat < 2 ^ 32) (h : Ready p.mTask.mTask P s) (hal : s.vm.map.Aligned P.toNat)
    {data : List Byte} (hdata : c.toNat ≤ data.length) (hfuel : c.toNat < fuel) :
    Partial.Returns (DebuggerController.writeMemory p fuel a (some data) c) (fun _ s' =>
      ∀ i < c.toNat,
        (WriteReaches p s.vm a i → s'.vm.byteAt (a + BitVec.ofNat 64 i) = data[i]?) ∧
        (¬ WriteReaches p s.vm a i →
          s'.vm.byteAt (a + BitVec.ofNat 64 i) = s.vm.byteAt (a + BitVec.ofNat 64 i))) s := by
  refine .bind <| .ite (fun _ => ?_) fun hne => absurd hstop hne
  by_cases ht : p.mTask.mTask = 0
  · rw [MachTask.writeMemory, if_neg (not_not.mpr ht)]
    exact .ret <| .ret fun i hi => ⟨fun hr => absurd ht hr.1, fun _ => rfl⟩
  · have hmapped : Partial.Keeps SameMapped (p.mTask.writeMemory fuel a c (some data)) :=
      .ite (write_mapped _ _ _ _ _) (.ret _)
    refine ((p.mTask.writeMemory_returns ht hP hP32 h hal a c data hdata fuel hfuel).and_post
      (hmapped s)).mono ?_
    rintro n t ⟨hexact, hsame⟩
    refine .ret fun i hi => ⟨fun hr => ?_, fun hr => ?_⟩
    -- a change of protection does not unmap what was written
    · have hin := (hexact.lt_iff hi).mpr hr.2
      have hsome : (t.vm.map.find (a + BitVec.ofNat 64 i).toNat).isSome = true := by
        rw [hsame]
        exact Option.isSome_of_any (hr.2 i le_rfl)
      rw [Vm.byteAt, if_pos hsome, hexact.written i hin]
    · have hge : ¬ i < n.toNat := fun hin => hr ⟨ht, (hexact.lt_iff hi).mp hin⟩
      have hbyte := hexact.rest (a + BitVec.ofNat 64 i) fun j hj he => by
        have hc := c.isLt
        have hle := hexact.le
        bv_omega
      rw [Vm.byteAt, Vm.byteAt, hsame, hbyte]

end Controller

/-- **When the controller is right.** A read returns the target's bytes exactly when every byte of
the request can be read with all before it, or is a zero of the target anyway; a write puts the
whole buffer into the target exactly when it reaches every byte, or the byte is there already. -/
theorem DebuggerController.faithful_iff (p : MachProcess) (hstop : p.mStatus = .stop) (s : VmState)
    (P : BitVec 64) (k : ℕ) (hP : P.toNat = 2 ^ k) (hP32 : P.toNat < 2 ^ 32)
    (hsize : ∃ s₁, (MachVMMemory.pageSize p.mTask.mTask).run s = some (P, s₁))
    (hgranularity : s.vm.granularity = P.toNat) (hal : s.vm.map.Aligned P.toNat)
    (hfault : s.vm.FaultFree) (a : Addr) (c : BitVec 64) (data : List Byte)
    (hdata : c.toNat ≤ data.length) (fuel : ℕ) (hfuel : c.toNat < fuel) :
    ((∀ out s', (readMemory p fuel a c).run s = some (out, s') → ReadFaithful s.vm a c.toNat out) ↔
      (c ≤ vectorMaxSize → ∀ i < c.toNat,
        ReadReaches p s.vm a i ∨ s.vm.byteAt (a + BitVec.ofNat 64 i) = some 0)) ∧
    ((∀ u s', (writeMemory p fuel a (some data) c).run s = some (u, s') →
        WriteFaithful s'.vm a c.toNat data) ↔
      ∀ i < c.toNat, WriteReaches p s.vm a i ∨ s.vm.byteAt (a + BitVec.ofNat 64 i) = data[i]?) := by
  have hready : Ready p.mTask.mTask P s := ⟨hfault, hgranularity, hsize⟩
  constructor
  · by_cases hc : vectorMaxSize < c
    · constructor
      · intro _ hle
        exact absurd hc (Nat.not_lt.mpr hle)
      · intro _ out s' hrun
        rw [readMemory, if_pos hc] at hrun
        cases hrun
    · obtain ⟨out, s', hrun, hlen, hbytes⟩ :=
        readMemory_returns (a := a) hstop hP hP32 hready hal hc hfuel
      have hone (i : ℕ) (hi : i < c.toNat) : out[i]? = s.vm.byteAt (a + BitVec.ofNat 64 i) ↔
          ReadReaches p s.vm a i ∨ s.vm.byteAt (a + BitVec.ofNat 64 i) = some 0 := by
        obtain ⟨hread, hrest⟩ := hbytes i hi
        by_cases hr : ReadReaches p s.vm a i
        · rw [hread hr, Vm.byteAt_of_any (hr.2 i le_rfl)]
          exact iff_of_true rfl (.inl hr)
        · rw [hrest hr, or_iff_right hr, eq_comm]
      constructor
      · intro hfaithful _ i hi
        exact (hone i hi).mp ((hfaithful out s' hrun).2 i hi)
      · intro hcond out' s'' hrun'
        obtain ⟨rfl, rfl⟩ := Prod.mk.inj (Option.some.inj (hrun.symm.trans hrun'))
        exact ⟨hlen, fun i hi => (hone i hi).mpr (hcond (Nat.not_lt.mp hc) i hi)⟩
  · obtain ⟨u, s', hrun, hbytes⟩ :=
      writeMemory_returns (a := a) hstop hP hP32 hready hal hdata hfuel
    have hone (i : ℕ) (hi : i < c.toNat) : s'.vm.byteAt (a + BitVec.ofNat 64 i) = data[i]? ↔
        WriteReaches p s.vm a i ∨ s.vm.byteAt (a + BitVec.ofNat 64 i) = data[i]? := by
      obtain ⟨hwritten, hrest⟩ := hbytes i hi
      by_cases hr : WriteReaches p s.vm a i
      · exact iff_of_true (hwritten hr) (.inl hr)
      · rw [hrest hr, or_iff_right hr]
    constructor
    · intro hfaithful i hi
      exact (hone i hi).mp (hfaithful u s' hrun i hi)
    · intro hcond u' s'' hrun' i hi
      obtain ⟨-, rfl⟩ := Prod.mk.inj (Option.some.inj (hrun.symm.trans hrun'))
      exact (hone i hi).mpr (hcond i hi)

/-- Both are right about eight bytes on two adjacent pages. -/
theorem DebuggerController.faithful_iff_adjacent :
    (∀ out s', (readMemory .stopped 9 28 8).run ⟨.dataAndCode fun _ _ => none, {}⟩ =
      some (out, s') → ReadFaithful (.dataAndCode fun _ _ => none) 28 8 out) ∧
    (∀ u s', (writeMemory .stopped 9 28 (some (List.replicate 8 0xEE)) 8).run
        ⟨.dataAndCode fun _ _ => none, {}⟩ = some (u, s') →
      WriteFaithful s'.vm 28 8 (List.replicate 8 0xEE)) := by
  have hreadable : ∀ j < 8, (Vm.dataAndCode fun _ _ => none).readable
      (28 + BitVec.ofNat 64 j) = true := by decide +kernel
  have hwritable : ∀ j < 8, (Vm.dataAndCode fun _ _ => none).writable
      (28 + BitVec.ofNat 64 j) = true := by decide +kernel
  obtain ⟨hread, hwrite⟩ := DebuggerController.faithful_iff .stopped rfl
    ⟨.dataAndCode fun _ _ => none, {}⟩ 16 4 rfl (by decide) ⟨_, rfl⟩ rfl
    (Vm.forall_dataAndCode (by decide) (by decide)) (fun _ _ => rfl) 28 8 (List.replicate 8 0xEE)
    (by decide) 9 (by decide)
  refine ⟨hread.mpr fun _ i hi => .inl ⟨by decide, fun j hj => ?_⟩,
    hwrite.mpr fun i hi => .inl ⟨by decide, fun j hj => ?_⟩⟩
  · exact hreadable j (lt_of_le_of_lt hj hi)
  · exact hwritable j (lt_of_le_of_lt hj hi)

/-- At the end of a page that can only be read, a read of eight bytes makes up four of them, and a
write of eight bytes writes none, and both return. -/
theorem DebuggerController.not_faithful_at_end :
    (∃ out s', (readMemory .stopped 9 28 8).run ⟨.readOnlyPage, {}⟩ = some (out, s') ∧
      ¬ ReadFaithful .readOnlyPage 28 8 out) ∧
    ∃ u s', (writeMemory .stopped 9 28 (some (List.replicate 8 0xEE)) 8).run
        ⟨.readOnlyPage, {}⟩ = some (u, s') ∧
      ¬ WriteFaithful s'.vm 28 8 (List.replicate 8 0xEE) := by
  have hread : ((readMemory .stopped 9 28 8).run ⟨.readOnlyPage, {}⟩).map (fun r => r.1) =
      some [28, 29, 30, 31, 0, 0, 0, 0] := by decide +kernel
  have hwrite : ((writeMemory .stopped 9 28 (some (List.replicate 8 0xEE)) 8).run
      ⟨.readOnlyPage, {}⟩).map (fun r => r.2.vm.byteAt 28) = some (some 28) := by
    decide +kernel
  obtain ⟨⟨out, s₁⟩, hrun₁, hout⟩ := Option.map_eq_some_iff.mp hread
  obtain ⟨⟨u, s₂⟩, hrun₂, hbyte⟩ := Option.map_eq_some_iff.mp hwrite
  refine ⟨⟨out, s₁, hrun₁, fun h => ?_⟩, u, s₂, hrun₂, fun h => ?_⟩
  · have hlast := h.2 4 (by decide)
    simp only at hout
    rw [hout] at hlast
    exact absurd hlast (by decide)
  · have hfirst := h 0 (by decide)
    simp only at hbyte
    rw [show (28 : Addr) + BitVec.ofNat 64 0 = 28 by decide, hbyte] at hfirst
    exact absurd hfirst (by decide)

end MachDebug
