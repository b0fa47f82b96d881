import MachDebug.Memory.MachVMMemory
import MachDebug.Program.Loop

/-!
# The iterations of the write loops

The loops of `MachVMMemory::Write` and `MachVMMemory::WriteRegion`, one iteration at a time. An
iteration of `Write` looks for the region of the next address and makes it writable; unless this
breaks the loop, it calls `WriteRegion`, which has a loop of its own.

## Main definitions

* `MachVMMemory.writeRegionBody`: an iteration of `WriteRegion`
* `MachVMMemory.enterRegion`: an iteration of `Write` up to the call of `WriteRegion`
* `MachVMMemory.writeBody`: an iteration of `Write`

## Main results

* `writeRegionLoop_eq_loop`, `writeLoop_eq_loop`: the loops repeat these iterations
-/

namespace MachDebug

open Program

/-- The variables of the loop of `WriteRegion`. -/
structure WriteRegionVars where
  total : BitVec 64 := 0
  currAddr : Addr
  currData : List Byte

/-- The variables of the loop of `Write`. -/
structure WriteVars where
  region : MachVMRegion := {}
  total : BitVec 64 := 0
  currAddr : Addr
  currData : Option (List Byte)

namespace MachVMMemory

/-- An iteration of `WriteRegion`, which breaks with the number of bytes written. -/
def writeRegionBody (task : Port) (dataCount : BitVec 64) (x : WriteRegionVars) :
    VmM (WriteRegionVars ⊕ BitVec 64) := do
  if x.total < dataCount then
    let left ← maxBytesLeftInPage task x.currAddr (dataCount - x.total)
    let currDataCount := (left.setWidth 32).setWidth 64
    if ← writePiece x.currAddr (x.currData.take currDataCount.toNat) currDataCount then
      return .inl ⟨x.total + currDataCount, x.currAddr + currDataCount,
        x.currData.drop currDataCount.toNat⟩
    else return .inr x.total
  else return .inr x.total

/-- The part of an iteration of `Write` that comes before the call of `WriteRegion`: the number of
bytes for this call, unless the loop breaks. -/
def enterRegion (region : MachVMRegion) (currAddr : Addr) (wanted : BitVec 64) :
    VmM (Option (BitVec 64) × MachVMRegion) := do
  let (found, region) ← region.getRegionForAddress currAddr
  if found then
    let left := region.bytesRemaining currAddr
    if left = 0 then return (none, region)
    else
      let currDataCount := if left < wanted then left else wanted
      let (ok, region) ←
        region.setProtections currAddr currDataCount (vmProtRead ||| vmProtWrite)
      if ok then return (some currDataCount, region) else return (none, region)
  else return (none, region)

/-- An iteration of `Write`, which breaks with the number of bytes written and the region object. -/
def writeBody (inner : ℕ) (task : Port) (dataCount : BitVec 64) (x : WriteVars) :
    VmM (WriteVars ⊕ (BitVec 64 × MachVMRegion)) := do
  if x.total < dataCount then
    let (count, region) ← enterRegion x.region x.currAddr (dataCount - x.total)
    match count with
    | none => return .inr (x.total, region)
    | some currDataCount =>
      let bytesWritten ← writeRegion inner task x.currAddr x.currData currDataCount
      if bytesWritten ≤ 0 then return .inr (x.total, region)
      else
        return .inl ⟨region, x.total + bytesWritten, x.currAddr + bytesWritten,
          x.currData.map (·.drop bytesWritten.toNat)⟩
  else return .inr (x.total, x.region)

/-- The loop of `WriteRegion` repeats its iterations. -/
theorem writeRegionLoop_eq_loop (task : Port) (dataCount : BitVec 64) (fuel : ℕ)
    (total : BitVec 64) (a : Addr) (data : List Byte) :
    writeRegionLoop task dataCount fuel total a data =
      Partial.loop (writeRegionBody task dataCount) fuel ⟨total, a, data⟩ := by
  induction fuel generalizing total a data with
  | zero => rfl
  | succ fuel ih =>
    rw [writeRegionLoop, Partial.loop, writeRegionBody]
    by_cases hlt : total < dataCount
    · simp only [if_pos hlt, bind_assoc]
      refine congrArg _ (funext fun left => congrArg _ (funext fun ok => ?_))
      cases ok with
      | true => simp only [if_true, pure_bind, Sum.elim_inl, ih]
      | false => simp only [Bool.false_eq_true, if_false, pure_bind, Sum.elim_inr]
    · simp only [if_neg hlt, pure_bind, Sum.elim_inr]

/-- The loop of `Write` repeats its iterations. -/
theorem writeLoop_eq_loop (inner : ℕ) (task : Port) (dataCount : BitVec 64) (fuel : ℕ)
    (region : MachVMRegion) (total : BitVec 64) (a : Addr) (data : Option (List Byte)) :
    writeLoop inner task dataCount fuel region total a data =
      Partial.loop (writeBody inner task dataCount) fuel ⟨region, total, a, data⟩ := by
  induction fuel generalizing region total a data with
  | zero => rfl
  | succ fuel ih =>
    rw [writeLoop, Partial.loop, writeBody, enterRegion]
    by_cases hlt : total < dataCount
    · simp only [if_pos hlt, bind_assoc]
      refine congrArg _ (funext fun found => ?_)
      by_cases hfound : found.1 = true
      · simp only [if_pos hfound]
        by_cases hleft : found.2.bytesRemaining a = 0
        · simp only [if_pos hleft, pure_bind, Sum.elim_inr]
        · simp only [if_neg hleft, bind_assoc]
          refine congrArg _ (funext fun ok => ?_)
          by_cases hok : ok.1 = true
          · simp only [if_pos hok, pure_bind, bind_assoc]
            refine congrArg _ (funext fun n => ?_)
            by_cases hn : n ≤ 0
            · simp only [if_pos hn, pure_bind, Sum.elim_inr]
            · simp only [if_neg hn, pure_bind, Sum.elim_inl, ih]
          · simp only [if_neg hok, pure_bind, Sum.elim_inr]
      · simp only [if_neg hfound, pure_bind, Sum.elim_inr]
    · simp only [if_neg hlt, pure_bind, Sum.elim_inr]

end MachVMMemory

end MachDebug
