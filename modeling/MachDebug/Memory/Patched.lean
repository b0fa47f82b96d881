import MachDebug.Memory.Write
import MachDebug.Memory.WritePieces

/-!
# What a memory write may change

Whatever calls fail, and wherever the write stops, every byte of the target is as it was, or is the
byte of the buffer for its place.

## Main definitions

* `Patched a bytes s s'`: the bytes of the target that have changed are those of the buffer at `a`

## Main results

* `writeLoop_patched`: the loops patch
* `MachTask.writeMemory_patched`: so does a write
-/

namespace MachDebug

open Program

/-- Every byte is as it was, or is the byte of the buffer for its place. -/
def Patched (a : Addr) (bytes : List Byte) (s s' : VmState) : Prop :=
  ∀ x, s'.vm.byte x = s.vm.byte x ∨
    ∃ i, x = a + BitVec.ofNat 64 i ∧ bytes[i]? = some (s'.vm.byte x)

section

variable {a : Addr} {bytes : List Byte} {s s' : VmState}

instance : Std.Refl (Patched a bytes) := ⟨fun _ _ => .inl rfl⟩

instance : IsTrans VmState (Patched a bytes) := by
  refine ⟨fun s t u h h' x => ?_⟩
  rcases h' x with hsame | hbuf
  · rw [hsame]
    exact h x
  · exact .inr hbuf

theorem Patched.of_byte (h : s'.vm.byte = s.vm.byte) : Patched a bytes s s' :=
  fun x => .inl (congrFun h x)

/-- The rest of the buffer, at its place. -/
theorem Patched.of_drop {n : ℕ} (h : Patched (a + BitVec.ofNat 64 n) (bytes.drop n) s s') :
    Patched a bytes s s' := by
  intro x
  rcases h x with hsame | ⟨i, hx, hbyte⟩
  · exact .inl hsame
  · refine .inr ⟨n + i, ?_, ?_⟩
    · rw [hx, Vm.offset_offset]
    · rw [← hbyte, List.getElem?_drop]

theorem Blind.patched {α : Type} {p : VmM α} (h : Blind p) : Partial.Keeps (Patched a bytes) p :=
  fun s => (h.byte s).mono fun _ _ => .of_byte

/-- A piece patches, whether it is written or not. -/
theorem writePiece_patched (a : Addr) (bytes : List Byte) (n : ℕ) (count : BitVec 64) :
    Partial.Keeps (Patched a bytes) (MachVMMemory.writePiece a (bytes.take n) count) := by
  rintro s ok s' hrun x
  have hpiece := MachVMMemory.writePiece_run (machVmWrite_tried s.vm a (bytes.take n))
    (Vm.vmMachineAttribute_withByte (s.vm.tally .write) _ a count)
  obtain ⟨-, rfl⟩ := Prod.mk.inj (Option.some.inj (hpiece.symm.trans hrun))
  simp only [Vm.withByte]
  split
  · exact .inl rfl
  · simp only [List.getD_eq_getElem?_getD]
    cases hget : (bytes.take n)[(x - a).toNat]? with
    | none => exact .inl rfl
    | some b =>
      refine .inr ⟨(x - a).toNat, (Vm.add_offset a x).symm, ?_⟩
      rw [List.getElem?_take] at hget
      split at hget
      · exact hget
      · cases hget

end

/-- **The loop of `WriteRegion`** patches. -/
theorem writeRegionLoop_patched (task : Port) (dataCount : BitVec 64) (fuel : ℕ)
    (total : BitVec 64) (a : Addr) (bytes : List Byte) :
    Partial.Keeps (Patched a bytes)
      (MachVMMemory.writeRegionLoop task dataCount fuel total a bytes) := by
  induction fuel generalizing total a bytes with
  | zero => exact fun _ => .diverge
  | succ fuel ih =>
    unfold MachVMMemory.writeRegionLoop
    refine .ite (.bind (MachVMMemory.maxBytesLeftInPage_blind task a _).patched fun left => ?_)
      (.ret _)
    refine .bind (writePiece_patched a bytes _ _) fun ok => .ite ?_ (.ret _)
    intro s
    refine (ih _ _ _ s).mono fun _ s' h =>
      Patched.of_drop (n := ((left.setWidth 32).setWidth 64).toNat) ?_
    rwa [BitVec.ofNat_toNat, BitVec.setWidth_eq]

/-- **The loop of `Write`** patches. -/
theorem writeLoop_patched (inner : ℕ) (task : Port) (dataCount : BitVec 64) (fuel : ℕ)
    (region : MachVMRegion) (total : BitVec 64) (a : Addr) (bytes : List Byte) :
    Partial.Keeps (Patched a bytes)
      (MachVMMemory.writeLoop inner task dataCount fuel region total a (some bytes)) := by
  induction fuel generalizing region total a bytes with
  | zero => exact fun _ => .diverge
  | succ fuel ih =>
    unfold MachVMMemory.writeLoop
    refine .ite (.bind (region.getRegionForAddress_blind a).patched ?_) (.ret _)
    rintro ⟨found, region⟩
    refine .ite (.ite (.ret _) (.bind (region.setProtections_blind _ _ _).patched ?_))
      (.ret _)
    rintro ⟨ok, region⟩
    refine .ite (.bind ?_ fun written => .ite (.ret _) ?_) (.ret _)
    · exact .ite (.ret _) (writeRegionLoop_patched task _ inner 0 a bytes)
    intro s
    refine (ih _ _ _ _ s).mono fun _ s' h => Patched.of_drop (n := written.toNat) ?_
    rwa [BitVec.ofNat_toNat, BitVec.setWidth_eq]

/-- **A write patches**, whatever calls fail. -/
theorem MachTask.writeMemory_patched (t : MachTask) (fuel : ℕ) (a : Addr) (size : BitVec 64)
    (bytes : List Byte) :
    Partial.Keeps (Patched a bytes) (t.writeMemory fuel a size (some bytes)) := by
  refine .ite (.bind (writeLoop_patched fuel _ size fuel {} 0 a bytes) ?_) (.ret _)
  rintro ⟨total, region⟩
  exact .bind region.clear_blind.patched fun _ => .ret _

end MachDebug
