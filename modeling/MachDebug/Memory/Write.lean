import MachDebug.Memory.Tries

/-!
# What a memory write reports

`WriteMemory` counts a piece as written when the cache flush after it succeeded, whatever the write
itself answered. The tries of the write are known from the map, the page size and the failures of
the calls, so it is known there too whether the count will be right: a refused piece must not be
flushed, unless its bytes are there before the call or are written with another piece.

## Main definitions

* `stored`: the bytes of the target after some tries
* `WriteReported`: the report of a write is right

## Main results

* `writeRegionLoop_tries`, `writeLoop_tries`: the loops do what is tried, and nothing else
* `MachProcess.writeMemory_reported_iff`: when the report is right
-/

namespace MachDebug

open Program

/-! ## The bytes after the tries -/

/-- The bytes after a try: those of the buffer are there when the kernel has not refused them. -/
def Try.overlay (a : Addr) (bytes : List Byte) (b : Addr → Byte) (t : Try) : Addr → Byte :=
  if t.refused then b
  else fun x =>
    ((bytes.drop t.offset).take t.count).getD (x - (a + BitVec.ofNat 64 t.offset)).toNat (b x)

/-- The bytes after the tries, in their order. -/
def stored (a : Addr) (bytes : List Byte) (ts : List Try) (b : Addr → Byte) : Addr → Byte :=
  ts.foldl (Try.overlay a bytes) b

theorem stored_append (a : Addr) (bytes : List Byte) (ts ts' : List Try) (b : Addr → Byte) :
    stored a bytes (ts ++ ts') b = stored a bytes ts' (stored a bytes ts b) :=
  List.foldl_append

section Stored

variable {a : Addr} {bytes : List Byte} {size i : ℕ} {ts : List Try}

/-- A piece that has been written is there, and the other bytes are as they were. -/
theorem Try.overlay_offset {t : Try} (b : Addr → Byte) (hacc : t.refused = false)
    (ht : t.offset + t.count ≤ size) (hsize : size < 2 ^ 64) (hi : i < 2 ^ 64) :
    t.overlay a bytes b (a + BitVec.ofNat 64 i) =
      if t.Covers i then bytes.getD i (b (a + BitVec.ofNat 64 i))
      else b (a + BitVec.ofNat 64 i) := by
  unfold Try.overlay
  rw [if_neg (by simp [hacc]), Vm.sub_offset_toNat a hi (by omega)]
  simp only [List.getD_eq_getElem?_getD, List.getElem?_take, List.getElem?_drop]
  split
  · by_cases hlt : i < t.offset + t.count
    · rw [if_pos (by omega), if_pos ⟨‹_›, hlt⟩, Nat.add_sub_cancel' ‹_›]
    · rw [if_neg (by omega), if_neg fun h => hlt h.2, Option.getD_none]
  · rw [if_neg (by omega), if_neg fun h => absurd h.1 ‹_›, Option.getD_none]

/-- A byte that no written piece covers is as it was. -/
theorem stored_eq (hin : ∀ t ∈ ts, t.offset + t.count ≤ size) (hsize : size < 2 ^ 64)
    (hi : i < 2 ^ 64) (b : Addr → Byte) (h : ∀ t ∈ ts, t.refused = false → ¬ t.Covers i) :
    stored a bytes ts b (a + BitVec.ofNat 64 i) = b (a + BitVec.ofNat 64 i) := by
  induction ts generalizing b with
  | nil => rfl
  | cons t ts ih =>
    rw [List.forall_mem_cons] at hin h
    refine (ih hin.2 _ h.2).trans ?_
    cases hacc : t.refused with
    | true => exact congrFun (if_pos hacc) _
    | false => rw [t.overlay_offset b hacc hin.1 hsize hi, if_neg (h.1 hacc)]

/-- A byte that a written piece covers is that of the buffer. -/
theorem stored_covered (hin : ∀ t ∈ ts, t.offset + t.count ≤ size) (hsize : size < 2 ^ 64)
    (hlen : size ≤ bytes.length) (b : Addr → Byte)
    (h : ∃ t ∈ ts, t.refused = false ∧ t.Covers i) :
    bytes[i]? = some (stored a bytes ts b (a + BitVec.ofNat 64 i)) := by
  induction ts generalizing b with
  | nil => simp at h
  | cons t ts ih =>
    rw [List.forall_mem_cons] at hin
    by_cases hlater : ∃ t ∈ ts, t.refused = false ∧ t.Covers i
    · exact ih hin.2 _ hlater
    · rw [List.exists_mem_cons_iff, or_iff_left hlater] at h
      obtain ⟨hacc, hcov⟩ := h
      have hlt : i < size := hcov.2.trans_le hin.1
      have hkept : stored a bytes ts (t.overlay a bytes b) (a + BitVec.ofNat 64 i) =
          t.overlay a bytes b (a + BitVec.ofNat 64 i) :=
        stored_eq hin.2 hsize (by omega) _ fun t ht hacc hcov => hlater ⟨t, ht, hacc, hcov⟩
      refine Eq.trans ?_ (congrArg some hkept.symm)
      rw [t.overlay_offset b hacc hin.1 hsize (by omega), if_pos hcov,
        List.getD_eq_getElem _ _ (by omega), List.getElem?_eq_getElem (by omega)]

end Stored

/-! ## The loops do what is tried -/

/-- A `mach_vm_write` stores its bytes unless it is refused. -/
theorem machVmWrite_tried (v : Vm) (x : Addr) (bytes : List Byte) :
    (v.machVmWrite x bytes).2 = (v.tally .write).withByte
      (if v.refusesWrite x bytes.length then v.byte
        else fun y => bytes.getD (y - x).toNat (v.byte y)) := by
  unfold Vm.machVmWrite Vm.refusesWrite Vm.issue
  cases v.faults .write (v.calls .write) with
  | some e => rfl
  | none =>
    simp only [Option.isSome_none, Bool.false_or]
    by_cases hcan : v.CanWrite x bytes.length
    · have hmap : (v.tally .write).map.All x.toNat (x.toNat + bytes.length)
          fun r => r.protection &&& vmProtWrite ≠ 0 := hcan.2
      rw [if_pos ⟨hcan.1, hmap.mapped⟩, if_pos hmap, if_neg (by simpa using hcan)]
      rfl
    · rw [if_pos (show (!decide (v.CanWrite x bytes.length)) = true by simpa using hcan)]
      split
      · rename_i hmapped
        have hno : ¬ (v.tally .write).map.All x.toNat (x.toNat + bytes.length)
            fun r => r.protection &&& vmProtWrite ≠ 0 := fun hw => hcan ⟨hmapped.1, hw⟩
        rw [if_neg hno]
        rfl
      · rfl

section Loops

variable {a : Addr} {bytes : List Byte} {size : ℕ}

/-- A piece does what is tried. -/
theorem writePiece_tries (j : ℕ) (count : BitVec 64) (hlen : j + count.toNat ≤ bytes.length)
    (s : VmState) (b : Addr → Byte) :
    Partial.Sim (fun ok s' t u => ok = t.flushed ∧ s' = u.withByte (stored a bytes [t] b))
      (MachVMMemory.writePiece (a + BitVec.ofNat 64 j) ((bytes.drop j).take count.toNat) count)
      (s.withByte b) (tryPiece a j count) s := by
  have hpiece : ((bytes.drop j).take count.toNat).length = count.toNat := by
    rw [List.length_take, List.length_drop]
    omega
  set refused := s.vm.refusesWrite (a + BitVec.ofNat 64 j) count.toNat
  have hwrite : ((s.withByte b).vm.machVmWrite (a + BitVec.ofNat 64 j)
      ((bytes.drop j).take count.toNat)).2 = (s.vm.tally .write).withByte
        (stored a bytes [⟨j, count.toNat, refused, true⟩] b) := by
    rw [machVmWrite_tried, hpiece]
    rfl
  have hrun := MachVMMemory.writePiece_run hwrite
    (Vm.vmMachineAttribute_withByte (s.vm.tally .write) _ (a + BitVec.ofNat 64 j) count)
  intro ok s' hok
  obtain ⟨rfl, rfl⟩ := Prod.mk.inj (Option.some.inj (hrun.symm.trans hok))
  exact ⟨_, _, rfl, rfl, rfl⟩

/-- **The loop of `WriteRegion`** does what is tried, and nothing else. -/
theorem writeRegionLoop_tries (task : Port) (start : ℕ) (dataCount : BitVec 64)
    (hlen : start + dataCount.toNat ≤ bytes.length) (fuel : ℕ) (total : BitVec 64)
    (htotal : total.toNat ≤ dataCount.toNat) (s : VmState) (b : Addr → Byte) :
    Partial.Sim (fun n s' r t => n = r.1 ∧ s' = t.withByte (stored a bytes r.2 b))
      (MachVMMemory.writeRegionLoop task dataCount fuel total
        (a + BitVec.ofNat 64 (start + total.toNat)) (bytes.drop (start + total.toNat)))
      (s.withByte b) (regionTries task a start dataCount fuel total) s := by
  induction fuel generalizing total s b with
  | zero => exact .diverge
  | succ fuel ih =>
    unfold MachVMMemory.writeRegionLoop regionTries
    refine .ite (fun hlt => ?_) fun _ => .ret ⟨rfl, rfl⟩
    refine .bind ((MachVMMemory.maxBytesLeftInPage_blind task _ _ s b).and_post
      (MachVMMemory.maxBytesLeftInPage_le task _ _ _)) ?_
    rintro left s' left' t ⟨⟨rfl, rfl⟩, hleft⟩
    have hlow := toNat_low_le left'
    simp only
    set count := (left'.setWidth 32).setWidth 64
    have hle : total.toNat + count.toNat ≤ dataCount.toNat := by bv_omega
    have hsum : (total + count).toNat = total.toNat + count.toNat := by bv_omega
    refine .bind (writePiece_tries (start + total.toNat) count (by omega) t b) ?_
    rintro ok u try' v ⟨rfl, rfl⟩
    refine .ite (fun _ => ?_) fun _ => .ret ⟨rfl, rfl⟩
    rw [Vm.offset_add, List.drop_drop, Nat.add_assoc, ← hsum]
    refine (ih (total + count) (by omega) v _).bind_right ?_
    rintro n w r x ⟨rfl, rfl⟩
    exact .ret ⟨rfl, rfl⟩

/-- **The loop of `Write`** does what is tried, and nothing else. -/
theorem writeLoop_tries (inner : ℕ) (task : Port) (dataCount : BitVec 64)
    (hlen : dataCount.toNat ≤ bytes.length) (fuel : ℕ) (region : MachVMRegion) (total : BitVec 64)
    (htotal : total.toNat ≤ dataCount.toNat) (s : VmState) (b : Addr → Byte) :
    Partial.Sim (fun r s' r' t => r.1 = r'.1 ∧ s' = t.withByte (stored a bytes r'.2 b))
      (MachVMMemory.writeLoop inner task dataCount fuel region total
        (a + BitVec.ofNat 64 total.toNat) (some (bytes.drop total.toNat)))
      (s.withByte b) (writeTriesLoop inner task a dataCount fuel region total) s := by
  induction fuel generalizing region total s b with
  | zero => exact .diverge
  | succ fuel ih =>
    unfold MachVMMemory.writeLoop writeTriesLoop
    refine .ite (fun hlt => ?_) fun _ => .ret ⟨rfl, rfl⟩
    refine .bind (region.getRegionForAddress_blind _ s b) ?_
    rintro r s' ⟨found, region⟩ t ⟨rfl, rfl⟩
    refine .ite (fun _ => .ite (fun _ => .ret ⟨rfl, rfl⟩) fun hleft => ?_)
      fun _ => .ret ⟨rfl, rfl⟩
    simp only
    set currAddr := a + BitVec.ofNat 64 total.toNat with hcurr
    set count := if region.bytesRemaining currAddr < dataCount - total then
      region.bytesRemaining currAddr else dataCount - total with hcount
    have hsub : (dataCount - total).toNat = dataCount.toNat - total.toNat := by bv_omega
    have hend : total.toNat + count.toNat ≤ dataCount.toNat := by
      rw [hcount, Vm.toNat_min, hsub]
      omega
    have hpos : count ≠ 0 := by
      rw [hcount]
      split
      · exact hleft
      · bv_omega
    refine .bind (region.setProtections_blind _ _ _ t b) ?_
    rintro r s' ⟨ok, region⟩ u ⟨rfl, rfl⟩
    refine .ite (fun _ => ?_) fun _ => .ret ⟨rfl, rfl⟩
    have hregion : MachVMMemory.writeRegion inner task currAddr (some (bytes.drop total.toNat))
        count = MachVMMemory.writeRegionLoop task count inner 0 currAddr
          (bytes.drop total.toNat) := if_neg hpos
    have hloop := @writeRegionLoop_tries a bytes task total.toNat count (by omega) inner 0
      (Nat.zero_le _) u b
    rw [hregion]
    refine .bind (hloop.and_post (regionTries_tried task a total.toNat count hend inner 0
      (Nat.zero_le _) u)) ?_
    rintro written s' w v ⟨⟨rfl, rfl⟩, hw, -⟩
    have hsum : (total + w.1).toNat = total.toNat + w.1.toNat := by bv_omega
    refine .ite (fun _ => .ret ⟨rfl, rfl⟩) fun _ => ?_
    rw [hcurr, Vm.offset_add, Option.map_some, List.drop_drop, ← hsum]
    refine (ih region (total + w.1) (by omega) v _).bind_right ?_
    rintro r s' r' x ⟨hr, rfl⟩
    exact .ret ⟨hr, congrArg x.withByte (stored_append a bytes w.2 r'.2 b).symm⟩

end Loops

/-- **What `WriteMemory` returns and leaves in the target** is what is tried. -/
theorem MachProcess.writeMemory_tries (p : MachProcess) (fuel : ℕ) (a : Addr) (size : BitVec 64)
    (bytes : List Byte) (hlen : size.toNat ≤ bytes.length) (s : VmState) :
    Partial.Post (p.writeMemory fuel a size (some bytes)) (fun n s' =>
      Tried size.toNat 0 n.toNat (p.writeTries fuel a size s) ∧
      s'.vm.byte = stored a bytes (p.writeTries fuel a size s) s.vm.byte) s := by
  refine .ite (fun _ => .ite (fun ht => .bind ?_) fun ht => .ret ?_) fun _ => .diverge
  · have hloop := writeLoop_tries (a := a) fuel p.mTask.mTask size hlen fuel {} 0 (Nat.zero_le _) s
      s.vm.byte
    rw [show a + BitVec.ofNat 64 (0 : BitVec 64).toNat = a by simp,
      show bytes.drop (0 : BitVec 64).toNat = bytes by simp] at hloop
    refine Partial.Post.mono hloop fun r s' hr => ?_
    obtain ⟨r', t, hrun, hr, rfl⟩ := hr
    have htries : p.writeTries fuel a size s = r'.2 := by
      unfold writeTries
      rw [if_pos ht, hrun]
    have htried := writeTriesLoop_tried _ _ _ _ _ _ _ (Nat.zero_le _) s r' t hrun
    refine .bind <| (r.2.clear_blind.byte _).mono fun _ u hbyte => .ret ?_
    rw [htries, hbyte, hr]
    exact ⟨htried, rfl⟩
  · have htries : p.writeTries fuel a size s = [] := if_neg ht
    rw [htries]
    exact ⟨.nil (Nat.zero_le _), rfl⟩

/-- The report of `n` written bytes is right: they are there, and nothing outside the range has
changed. -/
structure WriteReported (a : Addr) (bytes : List Byte) (size : ℕ) (v v' : Vm) (n : ℕ) : Prop where
  le : n ≤ size
  written : v'.load a n = bytes.take n
  outside : ∀ x, size ≤ (x - a).toNat → v'.byte x = v.byte x

/-- **What `WriteMemory` reports is right** exactly when every piece that it tries, that the kernel
refuses, and whose flush succeeds has its bytes in the target before the call, or another piece
writes them. The tries are known from the map, the page size and the failures of the calls. -/
theorem MachProcess.writeMemory_reported_iff (p : MachProcess) (fuel : ℕ) (a : Addr)
    (size : BitVec 64) (bytes : List Byte) (hlen : size.toNat ≤ bytes.length) (vm : Vm)
    (memory : MachVMMemory) (n : BitVec 64) (s' : VmState)
    (h : (p.writeMemory fuel a size (some bytes)).run ⟨vm, memory⟩ = some (n, s')) :
    WriteReported a bytes size.toNat vm s'.vm n.toNat ↔
      ∀ t ∈ p.writeTries fuel a size ⟨vm, memory⟩, t.refused = true → t.flushed = true →
        ∀ i, t.Covers i → bytes[i]? = some (vm.byte (a + BitVec.ofNat 64 i)) ∨
          ∃ t' ∈ p.writeTries fuel a size ⟨vm, memory⟩, t'.refused = false ∧ t'.Covers i := by
  obtain ⟨htried, hbyte⟩ := writeMemory_tries p fuel a size bytes hlen ⟨vm, memory⟩ n s' h
  set ts := p.writeTries fuel a size ⟨vm, memory⟩
  have hwritten : s'.vm.load a n.toNat = bytes.take n.toNat ↔
      ∀ i < n.toNat, bytes[i]? = some (s'.vm.byte (a + BitVec.ofNat 64 i)) := by
    have hle := htried.hi_le
    simpa using s'.vm.load_eq_iff a bytes n.toNat 0 (by omega)
  have hkept (i : ℕ) (hi : i < 2 ^ 64) (hother : ¬ ∃ t ∈ ts, t.refused = false ∧ t.Covers i) :
      s'.vm.byte (a + BitVec.ofNat 64 i) = vm.byte (a + BitVec.ofNat 64 i) := by
    rw [hbyte]
    exact stored_eq htried.inside size.isLt hi vm.byte
      fun t ht hacc hcov => hother ⟨t, ht, hacc, hcov⟩
  constructor
  · intro hr t ht _ hflushed i hcov
    have hi := (htried.counted i).mpr ⟨t, ht, hflushed, hcov⟩
    have hget := hwritten.mp hr.written i hi.2
    by_cases hother : ∃ t' ∈ ts, t'.refused = false ∧ t'.Covers i
    · exact .inr hother
    · rw [hkept i (hi.2.trans n.isLt) hother] at hget
      exact .inl hget
  · intro hall
    refine ⟨htried.hi_le, hwritten.mpr fun i hi => ?_, fun x hx => ?_⟩
    · by_cases hother : ∃ t' ∈ ts, t'.refused = false ∧ t'.Covers i
      · rw [hbyte]
        exact stored_covered htried.inside size.isLt hlen vm.byte hother
      · obtain ⟨t, ht, hflushed, hcov⟩ := (htried.counted i).mp ⟨Nat.zero_le _, hi⟩
        have hrefused : t.refused = true := by
          by_contra hacc
          exact hother ⟨t, ht, Bool.eq_false_iff.mpr hacc, hcov⟩
        rw [hkept i (hi.trans n.isLt) hother]
        exact (hall t ht hrefused hflushed i hcov).resolve_right hother
    · rw [← Vm.add_offset a x]
      refine hkept _ (x - a).isLt ?_
      rintro ⟨t, ht, -, -, hlt⟩
      exact absurd hlt (not_lt.mpr ((htried.inside t ht).trans hx))

/-- A memory with one page of sixteen bytes, which can be read and written. -/
def Vm.onePage (faults : VmCall → ℕ → Option {e : KernReturn // e ≠ 0#32}) : Vm where
  byte _ := 0
  map := ⟨[⟨16, 16, 3, fun _ => true, by decide, by decide⟩], by simp⟩
  granularity := 16
  taskPageSize := 16
  hostPageSize := 16
  faults := faults
  calls _ := 0

/-- A stopped process with the task `1`. -/
def MachProcess.stopped : MachProcess where
  mStatus := .stop
  mPid := 7
  mTask := { mTask := 1 }

/-- Without failures, two bytes are written and reported. -/
theorem MachProcess.writeMemory_two_reported : ∃ s',
    (MachProcess.stopped.writeMemory 5 20 2 (some [0xAA, 0xBB])).run
      ⟨.onePage fun _ _ => none, {}⟩ = some (2, s') ∧
    WriteReported 20 [0xAA, 0xBB] 2 (.onePage fun _ _ => none) s'.vm 2 := by
  refine ⟨_, rfl, ?_⟩
  have haccepted : ∀ t ∈ MachProcess.stopped.writeTries 5 20 2 ⟨.onePage fun _ _ => none, {}⟩,
      t.refused = false := by decide
  refine (MachProcess.writeMemory_reported_iff .stopped 5 20 2 [0xAA, 0xBB] (by decide) _ {} 2 _
    rfl).mpr fun t ht hrefused => ?_
  exact absurd hrefused (by simp [haccepted t ht])

/-- The first write is refused. -/
def refusedWrite : VmCall → ℕ → Option {e : KernReturn // e ≠ 0#32}
  | .write, 0 => some ⟨kernProtectionFailure, by decide⟩
  | _, _ => none

/-- A refused write whose cache flush succeeds is reported as two written bytes. -/
theorem MachProcess.writeMemory_refused_not_reported : ∃ n s',
    (MachProcess.stopped.writeMemory 5 20 2 (some [0xAA, 0xBB])).run
      ⟨.onePage refusedWrite, {}⟩ = some (n, s') ∧
    ¬ WriteReported 20 [0xAA, 0xBB] 2 (.onePage refusedWrite) s'.vm n.toNat := by
  refine ⟨_, _, rfl, fun h => ?_⟩
  exact absurd h.written (by decide)

end MachDebug
