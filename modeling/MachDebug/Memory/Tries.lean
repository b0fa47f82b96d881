import MachDebug.Memory.MachVMMemory

/-!
# The pieces that a write tries

Which pieces `WriteMemory` tries, which of them the kernel refuses, and whose cache it flushes, is
settled by the map, the page size and the failures of the calls: the bytes of the target and of the
buffer play no part. So the tries are a function of the state at the call, computed here without
either of them.

## Main definitions

* `Blind p`: the computation neither reads nor changes the bytes of the target
* `Try`: a piece of a write, and what the kernel answers to it
* `Tried lo hi size ts`: the tries count the bytes from `lo` to `hi` as written
* `MachProcess.writeTries`: the tries of a write

## Main results

* `regionTries_tried`, `writeTriesLoop_tried`: what the two loops count
* `MachProcess.writeTries_withByte`: the tries do not depend on the bytes
-/

namespace MachDebug

open Program

/-! ## Calls that do not see the bytes -/

/-- The same memory with other bytes. -/
def Vm.withByte (v : Vm) (b : Addr → Byte) : Vm := { v with byte := b }

/-- The same state with other bytes in the memory. -/
def VmState.withByte (s : VmState) (b : Addr → Byte) : VmState := { s with vm := s.vm.withByte b }

/-- The computation neither reads nor changes the bytes of the target. -/
def Blind {α : Type} (p : VmM α) : Prop :=
  ∀ s b, Partial.Sim (fun a s' a' t => a' = a ∧ s' = t.withByte b) p (s.withByte b) p s

namespace Blind

variable {α β : Type}

theorem ret (a : α) : Blind (pure a) := fun _ _ => .ret ⟨rfl, rfl⟩

theorem bind {p : VmM α} {f : α → VmM β} (h : Blind p) (hf : ∀ a, Blind (f a)) :
    Blind (p >>= f) := by
  refine fun s b => (h s b).bind ?_
  rintro a s' a' t ⟨rfl, rfl⟩
  exact hf a' t b

theorem ite {c : Prop} [Decidable c] {p q : VmM α} (hp : Blind p) (hq : Blind q) :
    Blind (if c then p else q) :=
  fun s b => .ite (fun _ => hp s b) fun _ => hq s b

theorem diverge : Blind (Partial.diverge : VmM α) := fun _ _ => .diverge

/-- A part of the state that is not the bytes is read. -/
theorem get_bind {f : VmState → VmM β} (hf : ∀ s, Blind (f s))
    (hbyte : ∀ s b, f (s.withByte b) = f s) : Blind (get >>= f) := by
  intro s b c s' hrun
  refine hf s s b c s' ?_
  rw [← hbyte s b]
  exact hrun

/-- A change that does not depend on the bytes. -/
theorem modify {f : VmState → VmState} (h : ∀ s b, f (s.withByte b) = (f s).withByte b) :
    Blind (modify f : VmM Unit) := by
  rintro s b u s' hrun
  cases hrun
  exact ⟨(), f s, rfl, rfl, h s b⟩

/-- What a blind computation leaves of the bytes is all of them. -/
theorem byte {p : VmM α} (h : Blind p) (s : VmState) :
    Partial.Post p (fun _ s' => s'.vm.byte = s.vm.byte) s := by
  intro a s' hrun
  obtain ⟨a', t, -, -, rfl⟩ := h s s.vm.byte a s' hrun
  rfl

/-- A blind computation returns the same from other bytes. -/
theorem run_withByte {p : VmM α} (h : Blind p) (s : VmState) (b : Addr → Byte) :
    (p.run (s.withByte b)).map Prod.fst = (p.run s).map Prod.fst := by
  have hto (s : VmState) (b : Addr → Byte) (a : α) :
      (p.run (s.withByte b)).map Prod.fst = some a → (p.run s).map Prod.fst = some a := by
    intro hmap
    obtain ⟨⟨c, s'⟩, hrun, rfl⟩ := Option.map_eq_some_iff.mp hmap
    obtain ⟨c', t, hrun', rfl, -⟩ := h s b c s' hrun
    rw [hrun']
    rfl
  exact Option.ext fun a => ⟨hto s b a, hto (s.withByte b) s.vm.byte a⟩

end Blind

/-- A kernel call does not see the bytes when its work does not. -/
theorem Vm.issue_withByte {β : Type} {c : VmCall} {fail : KernReturn → β} {act : Vm → β × Vm}
    (h : ∀ v b, act (v.withByte b) = ((act v).1, (act v).2.withByte b)) (v : Vm) (b : Addr → Byte) :
    (v.withByte b).issue c fail act =
      ((v.issue c fail act).1, (v.issue c fail act).2.withByte b) := by
  simp only [Vm.issue, Vm.withByte]
  cases v.faults c (v.calls c) with
  | some e => rfl
  | none => exact h (v.tally c) b

/-- Both answers of a call that tests the map. -/
theorem Vm.withByte_ite {β : Type} {c : Prop} [Decidable c] {b : Addr → Byte} {x y x' y' : β × Vm}
    (hx : x' = (x.1, x.2.withByte b)) (hy : y' = (y.1, y.2.withByte b)) :
    (if c then x' else y') = ((if c then x else y).1, (if c then x else y).2.withByte b) := by
  split
  · exact hx
  · exact hy

theorem Vm.machVmProtect_withByte (v : Vm) (b : Addr → Byte) (a : Addr) (size : BitVec 64)
    (prot : VmProt) : (v.withByte b).machVmProtect a size prot =
      ((v.machVmProtect a size prot).1, (v.machVmProtect a size prot).2.withByte b) := by
  refine Vm.issue_withByte ?_ v b
  exact fun _ _ => Vm.withByte_ite (Vm.withByte_ite rfl rfl) rfl

theorem Vm.machVmRegionRecurse_withByte (v : Vm) (b : Addr → Byte) (a : Addr) :
    (v.withByte b).machVmRegionRecurse a =
      ((v.machVmRegionRecurse a).1, (v.machVmRegionRecurse a).2.withByte b) := by
  refine Vm.issue_withByte (fun v b => ?_) v b
  simp only [Vm.withByte]
  split <;> rfl

theorem Vm.vmMachineAttribute_withByte (v : Vm) (b : Addr → Byte) (a : Addr) (size : BitVec 64) :
    (v.withByte b).vmMachineAttribute a size =
      ((v.vmMachineAttribute a size).1, (v.vmMachineAttribute a size).2.withByte b) := by
  refine Vm.issue_withByte ?_ v b
  exact fun _ _ => Vm.withByte_ite rfl rfl

theorem vmCall_blind {β : Type} {f : Vm → β × Vm}
    (h : ∀ v b, f (v.withByte b) = ((f v).1, (f v).2.withByte b)) : Blind (vmCall f) := by
  rintro s b a s' hrun
  cases hrun
  refine ⟨_, _, rfl, (congrArg Prod.fst (h s.vm b)).symm, ?_⟩
  exact congrArg (VmState.mk · s.memory) (congrArg Prod.snd (h s.vm b))

theorem machVmProtect_blind (a : Addr) (size : BitVec 64) (prot : VmProt) :
    Blind (vmCall (·.machVmProtect a size prot)) :=
  vmCall_blind fun v b => v.machVmProtect_withByte b a size prot

theorem setErr_blind (kr : KernReturn) : Blind (setErr kr) := .modify fun _ _ => rfl

theorem setPageSize_blind (size : BitVec 64) : Blind (setPageSize size) := .modify fun _ _ => rfl

theorem vmMachineAttribute_blind (a : Addr) (size : BitVec 64) :
    Blind (vmMachineAttribute a size) :=
  vmCall_blind fun v b => v.vmMachineAttribute_withByte b a size

theorem machVmRestore_blind (a : Addr) (size : BitVec 64) (prot : VmProt) :
    Blind (machVmRestore a size prot) :=
  .bind (machVmProtect_blind a size prot) fun _ => .bind (.modify fun _ _ => rfl) fun _ => .ret _

namespace MachVMRegion

theorem clear_blind (r : MachVMRegion) : Blind r.clear :=
  .bind (.ite (.bind (machVmRestore_blind _ _ _) fun _ => .ite (.ret _) (.ret _)) (.ret _))
    fun _ => .ret _

theorem getRegionForAddress_blind (r : MachVMRegion) (a : Addr) :
    Blind (r.getRegionForAddress a) := by
  refine .bind r.clear_blind fun r =>
    .bind (vmCall_blind fun v b => v.machVmRegionRecurse_withByte b a) fun x => ?_
  cases x with
  | error kr => exact .ret _
  | ok x => exact .ret _

theorem setProtections_blind (r : MachVMRegion) (a : Addr) (size : BitVec 64) (prot : VmProt) :
    Blind (r.setProtections a size prot) := by
  refine .ite (.ite (.ite (.ret _) (.bind ?_ fun _ => .ite (.ret _) (.ret _))) (.ret _)) (.ret _)
  refine .bind (machVmProtect_blind _ _ _) fun kr => ?_
  exact .ite (machVmProtect_blind _ _ _) (.ret _)

end MachVMRegion

namespace MachVMMemory

theorem hostPageSize_blind : Blind hostPageSize :=
  .bind (vmCall_blind (Vm.issue_withByte fun _ _ => rfl)) fun _ => .bind (setErr_blind _) fun _ =>
    .bind (setPageSize_blind _) fun _ => .ret _

theorem pageSize_blind (task : Port) : Blind (pageSize task) := by
  have hinfo := vmCall_blind (f := Vm.taskVmInfo) (Vm.issue_withByte fun _ _ => rfl)
  refine .get_bind (fun s => .ite (.ite (.bind hinfo fun r => ?_) hostPageSize_blind) (.ret _))
    fun _ _ => rfl
  exact .ite (.bind (setPageSize_blind _) fun _ => .ret _) hostPageSize_blind

theorem maxBytesLeftInPage_blind (task : Port) (a : Addr) (count : BitVec 64) :
    Blind (maxBytesLeftInPage task a count) :=
  .bind (pageSize_blind task) fun _ => .ite (.ret _) (.ret _)

/-- A piece is not longer than what is left to write. -/
theorem maxBytesLeftInPage_le (task : Port) (a : Addr) (count : BitVec 64) (s : VmState) :
    Partial.Post (maxBytesLeftInPage task a count) (fun n _ => n.toNat ≤ count.toNat) s := by
  refine .bind fun size t _ => Partial.Post.ite (fun _ => .ret ?_) fun _ => .ret le_rfl
  split
  · exact le_of_lt ‹_›
  · exact le_rfl

end MachVMMemory

/-! ## The tries -/

/-- A piece of a write: its place in the buffer, whether the kernel refuses to write it, and whether
the flush of its cache succeeds. -/
structure Try where
  offset : ℕ
  count : ℕ
  refused : Bool
  flushed : Bool
  deriving DecidableEq

/-- The piece contains the byte of the buffer. -/
def Try.Covers (t : Try) (i : ℕ) : Prop := t.offset ≤ i ∧ i < t.offset + t.count

instance (t : Try) (i : ℕ) : Decidable (t.Covers i) := inferInstanceAs (Decidable (_ ∧ _))

/-- The `n` bytes are all in memory that can be written. -/
def Vm.CanWrite (v : Vm) (a : Addr) (n : ℕ) : Prop :=
  a.toNat + n ≤ 2 ^ 64 ∧
    v.map.All a.toNat (a.toNat + n) fun r => r.protection &&& vmProtWrite ≠ 0

instance (v : Vm) (a : Addr) (n : ℕ) : Decidable (v.CanWrite a n) :=
  inferInstanceAs (Decidable (_ ∧ _))

/-- The kernel refuses the next `mach_vm_write` of `n` bytes: it is made to fail, or the memory
cannot be written. -/
def Vm.refusesWrite (v : Vm) (a : Addr) (n : ℕ) : Bool :=
  (v.faults .write (v.calls .write)).isSome || !decide (v.CanWrite a n)

/-- The piece of `count` bytes at the offset `j` from `a`. -/
def tryPiece (a : Addr) (j : ℕ) (count : BitVec 64) : VmM Try := do
  let refused := (← get).vm.refusesWrite (a + BitVec.ofNat 64 j) count.toNat
  modify fun s => { s with vm := s.vm.tally .write }
  let kr ← vmMachineAttribute (a + BitVec.ofNat 64 j) count
  setErr kr
  return ⟨j, count.toNat, refused, kr = 0⟩

/-- The pieces that the loop of `WriteRegion` tries from the offset `start` on, with the count. -/
def regionTries (task : Port) (a : Addr) (start : ℕ) (dataCount : BitVec 64) :
    ℕ → BitVec 64 → VmM (BitVec 64 × List Try)
  | 0, _ => Partial.diverge
  | fuel + 1, total => do
    if total < dataCount then
      let left ← MachVMMemory.maxBytesLeftInPage task
        (a + BitVec.ofNat 64 (start + total.toNat)) (dataCount - total)
      let count := (left.setWidth 32).setWidth 64
      let t ← tryPiece a (start + total.toNat) count
      if t.flushed then
        let (n, ts) ← regionTries task a start dataCount fuel (total + count)
        return (n, t :: ts)
      else return (total, [t])
    else return (total, [])

/-- The pieces that the loop of `Write` tries from the offset `total` on, with the count. -/
def writeTriesLoop (inner : ℕ) (task : Port) (a : Addr) (dataCount : BitVec 64) :
    ℕ → MachVMRegion → BitVec 64 → VmM (BitVec 64 × List Try)
  | 0, _, _ => Partial.diverge
  | fuel + 1, region, total => do
    if total < dataCount then
      let currAddr := a + BitVec.ofNat 64 total.toNat
      let (found, region) ← region.getRegionForAddress currAddr
      if found then
        let left := region.bytesRemaining currAddr
        if left = 0 then return (total, [])
        else
          let count := if left < dataCount - total then left else dataCount - total
          let (ok, region) ← region.setProtections currAddr count (vmProtRead ||| vmProtWrite)
          if ok then
            let (written, ts) ← regionTries task a total.toNat count inner 0
            if written ≤ 0 then return (total, ts)
            else
              let (n, ts') ← writeTriesLoop inner task a dataCount fuel region (total + written)
              return (n, ts ++ ts')
          else return (total, [])
      else return (total, [])
    else return (total, [])

/-- The pieces that `WriteMemory` tries; none are listed when it does not return. -/
def MachProcess.writeTries (p : MachProcess) (fuel : ℕ) (a : Addr) (size : BitVec 64)
    (s : VmState) : List Try :=
  if p.mTask.mTask ≠ 0 then
    match (writeTriesLoop fuel p.mTask.mTask a size fuel {} 0).run s with
    | some (r, _) => r.2
    | none => []
  else []

/-! ## The tries do not depend on the bytes -/

theorem tryPiece_blind (a : Addr) (j : ℕ) (count : BitVec 64) : Blind (tryPiece a j count) := by
  refine .get_bind (fun s => .bind (.modify fun _ _ => rfl) fun _ => ?_) fun _ _ => rfl
  exact .bind (vmMachineAttribute_blind _ _) fun _ => .bind (setErr_blind _) fun _ => .ret _

theorem regionTries_blind (task : Port) (a : Addr) (start : ℕ) (dataCount : BitVec 64) (fuel : ℕ)
    (total : BitVec 64) : Blind (regionTries task a start dataCount fuel total) := by
  induction fuel generalizing total with
  | zero => exact .diverge
  | succ fuel ih =>
    refine .ite (.bind (MachVMMemory.maxBytesLeftInPage_blind _ _ _) fun left => ?_) (.ret _)
    exact .bind (tryPiece_blind _ _ _) fun t => .ite (.bind (ih _) fun r => .ret _) (.ret _)

theorem writeTriesLoop_blind (inner : ℕ) (task : Port) (a : Addr) (dataCount : BitVec 64)
    (fuel : ℕ) (region : MachVMRegion) (total : BitVec 64) :
    Blind (writeTriesLoop inner task a dataCount fuel region total) := by
  induction fuel generalizing region total with
  | zero => exact .diverge
  | succ fuel ih =>
    refine .ite (.bind (region.getRegionForAddress_blind _) fun r => ?_) (.ret _)
    refine .ite (.ite (.ret _) (.bind (r.2.setProtections_blind _ _ _) fun r => ?_)) (.ret _)
    refine .ite (.bind (regionTries_blind _ _ _ _ _ _) fun w => ?_) (.ret _)
    exact .ite (.ret _) (.bind (ih _ _) fun r => .ret _)

/-- **The tries are settled by the map, the page size and the failures**: with other bytes they are
the same. -/
theorem MachProcess.writeTries_withByte (p : MachProcess) (fuel : ℕ) (a : Addr) (size : BitVec 64)
    (s : VmState) (b : Addr → Byte) :
    p.writeTries fuel a size (s.withByte b) = p.writeTries fuel a size s := by
  have hrun := (writeTriesLoop_blind fuel p.mTask.mTask a size fuel {} 0).run_withByte s b
  unfold writeTries
  cases hs : (writeTriesLoop fuel p.mTask.mTask a size fuel {} 0).run s with
  | none =>
    rw [hs, Option.map_none, Option.map_eq_none_iff] at hrun
    rw [hrun]
  | some r =>
    rw [hs, Option.map_some] at hrun
    obtain ⟨r', hr', hfst⟩ := Option.map_eq_some_iff.mp hrun
    rw [hr']
    simp only [hfst]

/-! ## What the tries count -/

/-- The tries lie inside the range, and those with a successful flush are for the bytes from `lo` to
`hi`. -/
structure Tried (size lo hi : ℕ) (ts : List Try) : Prop where
  le : lo ≤ hi
  hi_le : hi ≤ size
  inside : ∀ t ∈ ts, t.offset + t.count ≤ size
  counted (i : ℕ) : lo ≤ i ∧ i < hi ↔ ∃ t ∈ ts, t.flushed = true ∧ t.Covers i

namespace Tried

variable {size lo mid hi : ℕ} {ts ts' : List Try}

theorem nil (h : lo ≤ size) : Tried size lo lo [] :=
  ⟨le_rfl, h, by simp, fun i => by simp⟩

theorem single {c : ℕ} {refused flushed : Bool} (h : lo + c ≤ size) :
    Tried size lo (if flushed then lo + c else lo) [⟨lo, c, refused, flushed⟩] := by
  cases flushed with
  | false => exact ⟨le_rfl, by simp; omega, by simpa using h, fun i => by simp⟩
  | true => exact ⟨by simp, by simpa using h, by simpa using h, fun i => by simp [Try.Covers]⟩

theorem append (h : Tried size lo mid ts) (h' : Tried size mid hi ts') :
    Tried size lo hi (ts ++ ts') := by
  refine ⟨h.le.trans h'.le, h'.hi_le, fun t ht => ?_, fun i => ?_⟩
  · rcases List.mem_append.mp ht with ht | ht
    · exact h.inside t ht
    · exact h'.inside t ht
  · have hle := h.le
    have hle' := h'.le
    have hsplit : lo ≤ i ∧ i < hi ↔ (lo ≤ i ∧ i < mid) ∨ (mid ≤ i ∧ i < hi) := by omega
    rw [hsplit, h.counted i, h'.counted i]
    simp only [List.mem_append, or_and_right, exists_or]

end Tried

/-- A piece is tried where it is, whatever its write is answered. -/
theorem tryPiece_tried (size : ℕ) {j : ℕ} (a : Addr) {count : BitVec 64}
    (h : j + count.toNat ≤ size) (s : VmState) : Partial.Post (tryPiece a j count)
      (fun t _ => Tried size j (if t.flushed then j + count.toNat else j) [t]) s := by
  rintro t s' hrun
  cases hrun
  exact .single h

/-- The low 32 bits of a size are not more than it. -/
theorem toNat_low_le (n : BitVec 64) : ((n.setWidth 32).setWidth 64).toNat ≤ n.toNat := by
  rw [BitVec.toNat_setWidth, BitVec.toNat_setWidth]
  exact (Nat.mod_le _ _).trans (Nat.mod_le _ _)

/-- **The loop of `WriteRegion`** counts the pieces whose flush succeeds. -/
theorem regionTries_tried {size : ℕ} (task : Port) (a : Addr) (start : ℕ) (dataCount : BitVec 64)
    (hend : start + dataCount.toNat ≤ size) (fuel : ℕ) (total : BitVec 64)
    (htotal : total.toNat ≤ dataCount.toNat) (s : VmState) :
    Partial.Post (regionTries task a start dataCount fuel total) (fun r _ =>
      r.1.toNat ≤ dataCount.toNat ∧
        Tried size (start + total.toNat) (start + r.1.toNat) r.2) s := by
  induction fuel generalizing total s with
  | zero => exact .diverge
  | succ fuel ih =>
    unfold regionTries
    refine .ite (fun hlt => ?_) fun _ => .ret ⟨htotal, .nil (by omega)⟩
    refine .bind <| (MachVMMemory.maxBytesLeftInPage_le task _ _ s).mono fun left u hleft => ?_
    have hlow := toNat_low_le left
    simp only
    set count := (left.setWidth 32).setWidth 64
    have hle : total.toNat + count.toNat ≤ dataCount.toNat := by bv_omega
    have hsum : (total + count).toNat = total.toNat + count.toNat := by bv_omega
    refine .bind <| (tryPiece_tried size a (by omega) u).mono fun t v ht => ?_
    refine .ite (fun hflushed => ?_) fun hflushed => ?_
    · rw [if_pos hflushed, Nat.add_assoc, ← hsum] at ht
      refine .bind <| (ih (total + count) (by omega) v).mono fun r w hr => ?_
      exact .ret ⟨hr.1, ht.append hr.2⟩
    · rw [if_neg hflushed] at ht
      exact .ret ⟨htotal, ht⟩

/-- **The loop of `Write`** counts what its calls of `WriteRegion` count. -/
theorem writeTriesLoop_tried (inner : ℕ) (task : Port) (a : Addr) (dataCount : BitVec 64)
    (fuel : ℕ) (region : MachVMRegion) (total : BitVec 64)
    (htotal : total.toNat ≤ dataCount.toNat) (s : VmState) :
    Partial.Post (writeTriesLoop inner task a dataCount fuel region total)
      (fun r _ => Tried dataCount.toNat total.toNat r.1.toNat r.2) s := by
  induction fuel generalizing region total s with
  | zero => exact .diverge
  | succ fuel ih =>
    have hstop {t : VmState} : Partial.Post (pure (total, []) : VmM (BitVec 64 × List Try))
        (fun r _ => Tried dataCount.toNat total.toNat r.1.toNat r.2) t := .ret (.nil htotal)
    unfold writeTriesLoop
    refine .ite (fun hlt => .bind fun r t _ => ?_) fun _ => hstop
    refine .ite (fun _ => .ite (fun _ => hstop) fun _ => .bind fun r' u _ => ?_) fun _ => hstop
    refine .ite (fun _ => ?_) fun _ => hstop
    simp only
    set currAddr := a + BitVec.ofNat 64 total.toNat
    set count := if r.2.bytesRemaining currAddr < dataCount - total then r.2.bytesRemaining currAddr
      else dataCount - total with hcount
    have hend : total.toNat + count.toNat ≤ dataCount.toNat := by
      have hsub : (dataCount - total).toNat = dataCount.toNat - total.toNat := by bv_omega
      rw [hcount, Vm.toNat_min, hsub]
      omega
    refine .bind <| (regionTries_tried task a total.toNat count hend inner 0 (Nat.zero_le _) u).mono
      fun w v hw => ?_
    obtain ⟨hle, hw⟩ := hw
    have hsum : (total + w.1).toNat = total.toNat + w.1.toNat := by bv_omega
    refine .ite (fun hz => ?_) fun _ => ?_
    · have hzero : w.1.toNat = 0 := by bv_omega
      rw [hzero] at hw
      exact .ret hw
    · refine .bind <| (ih r'.2 (total + w.1) (by omega) v).mono fun r'' _ hr => ?_
      rw [hsum] at hr
      exact .ret (hw.append hr)

end MachDebug
