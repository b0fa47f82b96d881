import MachDebug.Memory.Protections
import MachDebug.Memory.WritePieces

/-!
# What a memory write writes

`WriteMemory` writes region by region, up to the first address that is not mapped or that cannot be
made writable. A change of protection cuts the map below the next address only, so that the loop
goes on with the regions that were there at the start, and it ends each region at a page boundary,
so that restoring the last one does not reach into the next.

## Main definitions

* `Region.changeable r`: the region is readable and writable, or can be made so
* `WriteExact w v a c bytes n byte`: `n` of `c` bytes have been written at `a`
* `Ahead m y r s`: from the address `y` on, the map is as it was at the start

## Main results

* `Ahead.getRegionForAddress`, `setProtections_returns`: the region object, without failures
* `writeLoop_returns`: the loop writes what the plain writer does
* `MachTask.writeMemory_exact`: so does `WriteMemory`
-/

namespace MachDebug

open Program

/-- The region is readable and writable, or `SetProtections` can make it so. -/
def Region.changeable (r : Region) : Bool :=
  r.protection &&& vmProtAll = (vmProtRead ||| vmProtWrite) ||
    r.grants (vmProtRead ||| vmProtWrite) ||
    r.grants (vmProtRead ||| vmProtWrite ||| vmProtCopy)

/-- `GetRegionForAddress` finds the region and `SetProtections` can make it writable. A region that
ends with the address space is never found. -/
def Region.writable (r : Region) : Bool := r.changeable && r.start + r.size < 2 ^ 64

theorem Region.writable_iff {r : Region} :
    r.writable = true ↔ r.changeable = true ∧ r.start + r.size < 2 ^ 64 := by
  rw [Region.writable, Bool.and_eq_true, decide_eq_true_eq]

/-- The address is mapped and can be made writable. -/
def Vm.changeable (v : Vm) (x : Addr) : Bool := (v.map.find x.toNat).any Region.changeable

/-- The address is mapped, and a write can reach it. -/
def Vm.writable (v : Vm) (x : Addr) : Bool := (v.map.find x.toNat).any Region.writable

/-- `n` of `c` bytes have been written at `a`: up to the first address without `w`, and nothing but
these bytes has changed. -/
structure WriteExact (w : Addr → Bool) (v : Vm) (a : Addr) (c : ℕ) (bytes : List Byte) (n : ℕ)
    (byte : Addr → Byte) : Prop where
  le : n ≤ c
  reached : ∀ i < n, w (a + BitVec.ofNat 64 i) = true
  stop : n < c → w (a + BitVec.ofNat 64 n) = false
  written : ∀ i < n, bytes[i]? = some (byte (a + BitVec.ofNat 64 i))
  rest : ∀ x, (∀ i < n, x ≠ a + BitVec.ofNat 64 i) → byte x = v.byte x

/-! ## The region object -/

/-- Only the map, the numbers of calls and the answers to the restoring calls have changed. -/
structure Remapped (s s' : VmState) : Prop where
  memory : s'.memory = s.memory
  vm : s'.vm = { s.vm with map := s'.vm.map, calls := s'.vm.calls, restores := s'.vm.restores }

instance : IsTrans VmState Remapped :=
  ⟨fun _ _ _ h h' => ⟨h'.memory.trans h.memory, by rw [h'.vm, h.vm]⟩⟩

theorem Remapped.byte {s s' : VmState} (h : Remapped s s') : s'.vm.byte = s.vm.byte := by rw [h.vm]

theorem Remapped.granularity {s s' : VmState} (h : Remapped s s') :
    s'.vm.granularity = s.vm.granularity := by rw [h.vm]

theorem Ready.of_remapped {task : Port} {P : BitVec 64} {s s' : VmState} (h : Ready task P s)
    (hr : Remapped s s') : Ready task P s' :=
  h.of_vm hr.vm (by rw [hr.memory])

/-- The range of addresses that the region object restores. -/
def MachVMRegion.restoredEnd (r : MachVMRegion) (v : Vm) : ℕ :=
  v.roundPage (r.mProtectionAddr.toNat + r.mProtectionSize.toNat)

/-- An object that has something to restore restores at least one byte. -/
theorem MachVMRegion.Dirty.truncPage_lt {r : MachVMRegion} (h : r.Dirty) {v : Vm}
    (hg : 0 < v.granularity) : v.truncPage r.mProtectionAddr.toNat < r.restoredEnd v := by
  have hsize : 0 < r.mProtectionSize.toNat := h.2
  have hlo := v.truncPage_le r.mProtectionAddr.toNat
  have hhi := v.le_roundPage hg (r.mProtectionAddr.toNat + r.mProtectionSize.toNat)
  unfold MachVMRegion.restoredEnd
  omega

/-- `Clear` restores the range of the object, or leaves the map alone. -/
theorem clear_returns (r : MachVMRegion) (s : VmState) :
    Partial.Returns r.clear (fun r' s' => r' = {} ∧ Remapped s s' ∧
      (s'.vm.map = s.vm.map ∨ (r.Dirty ∧ ∃ q, s'.vm.map = s.vm.map.protect
        (s.vm.truncPage r.mProtectionAddr.toNat) (r.restoredEnd s.vm) q))) s := by
  have hrestore : Partial.Returns r.restoreProtections (fun _ s' => Remapped s s' ∧
      (s'.vm.map = s.vm.map ∨ (r.Dirty ∧ ∃ q, s'.vm.map = s.vm.map.protect
        (s.vm.truncPage r.mProtectionAddr.toNat) (r.restoredEnd s.vm) q))) s := by
    refine .ite (fun hd => ?_) fun _ => .ret ⟨⟨rfl, rfl⟩, .inl rfl⟩
    refine .bind <| .bind <| vmCall_returns <| .bind ⟨(), _, rfl, .ret ?_⟩
    rcases machVmProtect_cases s.vm r.mProtectionAddr r.mProtectionSize r.mDataProtection with
      ⟨hkr, hv⟩ | ⟨hkr, hv⟩
    · rw [if_neg hkr, hv]
      exact .ret ⟨⟨rfl, rfl⟩, .inl rfl⟩
    · rw [if_pos hkr, hv]
      exact .ret ⟨⟨rfl, rfl⟩, .inr ⟨hd, _, rfl⟩⟩
  exact .bind <| hrestore.mono fun _ _ ht => .ret ⟨rfl, ht⟩

/-- The map keeps its alignment when the range of an object is restored. -/
theorem aligned_of_cleared {r : MachVMRegion} {s s' : VmState}
    (hal : s.vm.map.Aligned s.vm.granularity) (hre : Remapped s s')
    (hmap : s'.vm.map = s.vm.map ∨ (r.Dirty ∧ ∃ q, s'.vm.map = s.vm.map.protect
      (s.vm.truncPage r.mProtectionAddr.toNat) (r.restoredEnd s.vm) q)) :
    s'.vm.map.Aligned s'.vm.granularity := by
  rw [hre.granularity]
  rcases hmap with hmap | ⟨-, q, hmap⟩
  · rw [hmap]
    exact hal
  · rw [hmap]
    exact hal.protect (Vm.dvd_truncPage _ _) (Vm.dvd_roundPage _ _) q

/-- A `mach_vm_protect` inside one region. -/
theorem machVmProtect_eq {v : Vm} (hk : v.FaultFree) {a : Addr} {size : BitVec 64} {x : Region}
    (hne : v.truncPage a.toNat < v.roundPage (a.toNat + size.toNat))
    (hx : ∀ y, v.truncPage a.toNat ≤ y → y < v.roundPage (a.toNat + size.toNat) →
      v.map.find y = some x) (prot : VmProt) :
    v.machVmProtect a size prot = if x.grants prot then
      (0, { v.tally .protect with
        map := v.map.protect (v.truncPage a.toNat) (v.roundPage (a.toNat + size.toNat))
          (prot &&& ~~~vmProtCopy) })
      else (kernProtectionFailure, v.tally .protect) := by
  have hall (p : Region → Bool) : (v.tally .protect).map.All (v.truncPage a.toNat)
      (v.roundPage (a.toNat + size.toNat)) p ↔ p x = true := by
    constructor
    · intro h
      have h₀ := h 0 (by omega)
      rw [Vm.tally_map, hx _ (by omega) (by omega)] at h₀
      exact h₀
    · intro h i hi
      rw [Vm.tally_map, hx _ (by omega) (by omega)]
      exact h
  unfold Vm.machVmProtect
  rw [hk.issue_eq]
  show (if (v.tally .protect).map.All (v.truncPage a.toNat)
      (v.roundPage (a.toNat + size.toNat)) fun _ => true then
    if (v.tally .protect).map.All (v.truncPage a.toNat)
      (v.roundPage (a.toNat + size.toNat)) fun r => r.grants prot then _ else _ else _) = _
  rw [if_pos ((hall _).mpr rfl)]
  by_cases hg : x.grants prot = true
  · rw [if_pos ((hall _).mpr hg), if_pos hg]
    rfl
  · rw [if_neg (mt (hall _).mp hg), if_neg hg]

/-- The change of a protection inside one region succeeds when the region grants it, with a copy or
without. -/
theorem protectOrCopy_returns {s : VmState} (hk : s.vm.FaultFree) {a : Addr} {size : BitVec 64}
    {x : Region} (hne : s.vm.truncPage a.toNat < s.vm.roundPage (a.toNat + size.toNat))
    (hx : ∀ y, s.vm.truncPage a.toNat ≤ y → y < s.vm.roundPage (a.toNat + size.toNat) →
      s.vm.map.find y = some x) :
    Partial.Returns (MachVMRegion.protectOrCopy a size (vmProtRead ||| vmProtWrite))
      (fun kr s' => Remapped s s' ∧
        (kr = 0 ↔ (x.grants (vmProtRead ||| vmProtWrite) ||
          x.grants (vmProtRead ||| vmProtWrite ||| vmProtCopy)) = true) ∧
        (kr = 0 → s'.vm.map = s.vm.map.protect (s.vm.truncPage a.toNat)
          (s.vm.roundPage (a.toNat + size.toNat)) (vmProtRead ||| vmProtWrite))) s := by
  have hcopy : (vmProtRead ||| vmProtWrite) &&& ~~~vmProtCopy = vmProtRead ||| vmProtWrite := by
    decide
  have hcopy' : (vmProtRead ||| vmProtWrite ||| vmProtCopy) &&& ~~~vmProtCopy =
      vmProtRead ||| vmProtWrite := by decide
  refine .bind <| vmCall_returns ?_
  rw [machVmProtect_eq hk hne hx]
  by_cases hg : x.grants (vmProtRead ||| vmProtWrite) = true
  · rw [if_pos hg]
    refine .ite (fun h => absurd rfl h) fun _ => .ret ⟨⟨rfl, rfl⟩, ?_, fun _ => ?_⟩
    · simp [hg]
    · simp only [hcopy]
  -- the first call has failed, and the second one sees the same map
  · rw [if_neg hg]
    refine .ite (fun _ => vmCall_returns ?_) fun h =>
      absurd h (not_not.mpr kernProtectionFailure_ne_zero)
    have hsecond := machVmProtect_eq (v := s.vm.tally .protect) hk hne hx
      (vmProtRead ||| vmProtWrite ||| vmProtCopy)
    simp only
    rw [hsecond]
    by_cases hg' : x.grants (vmProtRead ||| vmProtWrite ||| vmProtCopy) = true
    · rw [if_pos hg']
      refine ⟨⟨rfl, rfl⟩, ?_, fun _ => ?_⟩
      · simp [hg']
      · simp only [hcopy']
        rfl
    · rw [if_neg hg']
      refine ⟨⟨rfl, rfl⟩, ?_, fun h => absurd h kernProtectionFailure_ne_zero⟩
      simp only [hg, hg', Bool.or_false, Bool.false_eq_true, iff_false]
      exact kernProtectionFailure_ne_zero

section Loop

variable {task : Port} {P : BitVec 64} {s : VmState} {r : MachVMRegion} {x : Region} {a : Addr}

/-- What `SetProtections` has done when it returns true: a range that can be written, inside the
region of its first address. -/
structure Opened (x : Region) (a : Addr) (count : ℕ) (r : MachVMRegion) (s s' : VmState) :
    Prop where
  aligned : s'.vm.map.Aligned s'.vm.granularity
  write : ∀ i < count, (s'.vm.map.find (a.toNat + i)).any
    (fun r => r.protection &&& vmProtWrite ≠ 0) = true
  above : ∀ y, x.start + x.size ≤ y → s'.vm.map.traitsAt y = s.vm.map.traitsAt y
  restored : r.Dirty → r.restoredEnd s'.vm ≤ x.start + x.size

/-- A region that is readable and writable is open as it is. -/
theorem Describes.opened (hd : Describes r a s.vm x) (hal : s.vm.map.Aligned s.vm.granularity)
    {count : ℕ} (hcount : a.toNat + count ≤ x.start + x.size)
    (hprot : x.protection &&& vmProtAll = vmProtRead ||| vmProtWrite) : Opened x a count r s s where
  aligned := hal
  write i hi := by
    obtain ⟨hmem, hx⟩ := AddressMap.find_eq_some_iff.mp hd.find
    have hfind : s.vm.map.find (a.toNat + i) = some x :=
      AddressMap.find_eq_some_iff.mpr ⟨hmem, hx.1.trans (Nat.le_add_right _ _), by omega⟩
    have hwrite : x.protection &&& vmProtWrite = vmProtWrite := by
      have hall : vmProtAll &&& vmProtWrite = vmProtWrite := by decide
      rw [← hall, ← BitVec.and_assoc, hprot]
      decide
    rw [hfind, Option.any_some, hwrite]
    decide
  above _ _ := rfl
  restored hdirty := absurd hdirty.2 (by rw [hd.size]; decide)

/-- A region is open on a range whose protection has been changed. -/
theorem Describes.opened_protect (hd : Describes r a s.vm x) (hg : 0 < s.vm.granularity)
    (hal : s.vm.map.Aligned s.vm.granularity) {count : BitVec 64}
    (hcount : a.toNat + count.toNat ≤ x.start + x.size) {r' : MachVMRegion} {s' : VmState}
    (haddr : r'.mProtectionAddr = a) (hsize : r'.mProtectionSize = count) (hre : Remapped s s')
    (hmap : s'.vm.map = s.vm.map.protect (s.vm.truncPage a.toNat)
      (s.vm.roundPage (a.toNat + count.toNat)) (vmProtRead ||| vmProtWrite)) :
    Opened x a count.toNat r' s s' := by
  have hlo := s.vm.truncPage_le a.toNat
  have hhi := s.vm.le_roundPage hg (a.toNat + count.toNat)
  have hend := s.vm.roundPage_le hg (hal x (AddressMap.find_eq_some_iff.mp hd.find).1).2 hcount
  refine ⟨?_, fun i hi => ?_, fun y hy => ?_, fun _ => ?_⟩
  · rw [hre.granularity, hmap]
    exact hal.protect (Vm.dvd_truncPage _ _) (Vm.dvd_roundPage _ _) _
  · have hfind : s.vm.map.find (a.toNat + i) = some x :=
      hd.range hg hal hcount ⟨by omega, by omega⟩
    obtain ⟨z, hz, hp, -⟩ := AddressMap.find_protect hfind (s.vm.truncPage a.toNat)
      (s.vm.roundPage (a.toNat + count.toNat)) (vmProtRead ||| vmProtWrite)
    rw [hmap, hz, Option.any_some, hp, if_pos (by omega)]
    decide
  · rw [hmap]
    exact AddressMap.traitsAt_protect_above (by omega) (by omega)
  · rw [MachVMRegion.restoredEnd, haddr, hsize]
    simpa only [Vm.roundPage, Vm.truncPage, hre.granularity] using hend

/-- **`SetProtections`** succeeds on the regions that can be made writable. -/
theorem setProtections_returns (hk : s.vm.FaultFree) (hg : 0 < s.vm.granularity)
    (hal : s.vm.map.Aligned s.vm.granularity) (hd : Describes r a s.vm x) {count : BitVec 64}
    (hpos : 0 < count.toNat) (hcount : a.toNat + count.toNat ≤ x.start + x.size) :
    Partial.Returns (r.setProtections a count (vmProtRead ||| vmProtWrite))
      (fun p s' => Remapped s s' ∧ p.1 = x.changeable ∧
        (p.1 = true → Opened x a count.toNat p.2 s s')) s := by
  refine .ite (fun _ => ?_) fun hc => absurd hd.containsAddress hc
  simp only [hd.protSize_eq hcount]
  refine .ite (fun _ => .ite (fun hprot => .ret ?_) fun hprot => ?_) fun hc => absurd hpos hc
  · have hprot' : x.protection &&& vmProtAll = vmProtRead ||| vmProtWrite := by
      rw [← hd.curr, hprot]
    refine ⟨⟨rfl, rfl⟩, ?_, fun _ => hd.opened hal hcount hprot'⟩
    simp [Region.changeable, hprot']
  · have hne : s.vm.truncPage a.toNat < s.vm.roundPage (a.toNat + count.toNat) := by
      have hlo := s.vm.truncPage_le a.toNat
      have hhi := s.vm.le_roundPage hg (a.toNat + count.toNat)
      omega
    refine .bind <| (protectOrCopy_returns hk hne fun y hy hy' =>
      hd.range hg hal hcount ⟨hy, hy'⟩).mono ?_
    intro kr t ht
    obtain ⟨hre, hiff, hmap⟩ := ht
    -- the region was not open as it is, so one of the two calls has granted the change
    have hchange : x.changeable = true ↔ kr = 0 := by
      rw [hiff, Region.changeable, ← hd.curr]
      simp [Ne.symm hprot]
    refine .ite (fun hkr => .ret ⟨hre, (hchange.mpr hkr).symm, fun _ => ?_⟩)
      fun hkr => .ret ⟨hre, ?_, fun hf => by cases hf⟩
    · exact hd.opened_protect hg hal hcount rfl rfl hre (hmap hkr)
    · exact (eq_false_of_ne_true (mt hchange.mp hkr)).symm

/-- The addresses with the same traits can be reached alike. -/
theorem AddressMap.any_writable_congr {m m' : AddressMap} {y : ℕ}
    (h : m.traitsAt y = m'.traitsAt y) :
    (m.find y).any Region.writable = (m'.find y).any Region.writable := by
  have hfactor (m : AddressMap) : (m.find y).any Region.writable = (m.traitsAt y).any fun t =>
      (t.1 &&& vmProtAll = (vmProtRead ||| vmProtWrite) || t.2.1 (vmProtRead ||| vmProtWrite) ||
        t.2.1 (vmProtRead ||| vmProtWrite ||| vmProtCopy)) && t.2.2 < 2 ^ 64 := by
    rw [AddressMap.traitsAt, Option.any_map]
    rfl
  rw [hfactor, hfactor, h]

/-- The test of `GetRegionForAddress`, at an address of a region that does not end with the address
space. -/
theorem found_of_contains {y : Addr} (hx : x.Contains y.toNat) (hend : x.start + x.size < 2 ^ 64) :
    ¬ (y < BitVec.ofNat 64 x.start ∨ BitVec.ofNat 64 x.start + BitVec.ofNat 64 x.size ≤ y) := by
  obtain ⟨h₁, h₂⟩ := hx
  simp only [BitVec.lt_def, BitVec.le_def, BitVec.toNat_add, BitVec.toNat_ofNat, not_or, not_lt,
    not_le]
  omega

/-- The map is `m` from the address `y` on, and the region object has nothing to restore there. -/
structure Ahead (m : AddressMap) (y : ℕ) (r : MachVMRegion) (s : VmState) : Prop where
  faultFree : s.vm.FaultFree
  positive : 0 < s.vm.granularity
  aligned : s.vm.map.Aligned s.vm.granularity
  above : ∀ z, y ≤ z → s.vm.map.traitsAt z = m.traitsAt z
  restored : r.Dirty → r.restoredEnd s.vm ≤ y

variable {m : AddressMap}

/-- Restoring protections below an address leaves the map as it is from there on. -/
theorem Ahead.clear {y : ℕ} (h : Ahead m y r s) : Partial.Returns r.clear
    (fun r' s' => r' = {} ∧ Remapped s s' ∧ Ahead m y {} s') s := by
  refine (clear_returns r s).mono ?_
  intro r' t ht
  obtain ⟨rfl, hre, hmap⟩ := ht
  have hk : t.vm.FaultFree := by
    rw [hre.vm]
    exact h.faultFree
  refine ⟨rfl, hre, hk, hre.granularity ▸ h.positive, aligned_of_cleared h.aligned hre hmap, ?_,
    fun hd => absurd hd MachVMRegion.not_dirty⟩
  intro z hz
  rcases hmap with hmap | ⟨hd, q, hmap⟩
  · rw [hmap]
    exact h.above z hz
  -- what is restored lies below the address
  · have hend := h.restored hd
    rw [hmap, AddressMap.traitsAt_protect_above (hd.truncPage_lt h.positive).le (by omega)]
    exact h.above z hz

/-- **`GetRegionForAddress`** finds the region of an address, unless a write cannot reach it. -/
theorem Ahead.getRegionForAddress {y : Addr} (h : Ahead m y.toNat r s) :
    Partial.Returns (r.getRegionForAddress y) (fun p s' => Remapped s s' ∧
      Ahead m y.toNat p.2 s' ∧
      (p.1 = true → ∃ x, Describes p.2 y s'.vm x ∧ x.start + x.size < 2 ^ 64) ∧
      (p.1 = false → (m.find y.toNat).any Region.writable = false)) s := by
  refine .bind <| h.clear.mono ?_
  intro r' t ht
  obtain ⟨rfl, hre, ht⟩ := ht
  refine .bind <| vmCall_returns ?_
  have hre' : Remapped s { t with vm := t.vm.tally .regionRecurse } := by
    have hcall : Remapped t { t with vm := t.vm.tally .regionRecurse } := ⟨rfl, rfl⟩
    exact trans_of Remapped hre hcall
  have hsame (r' : MachVMRegion) (hr' : r'.mProtectionSize = 0) :
      Ahead m y.toNat r' { t with vm := t.vm.tally .regionRecurse } :=
    ⟨ht.faultFree, ht.positive, ht.aligned, ht.above,
      fun hd => absurd hd.2 (by rw [hr']; decide)⟩
  -- the map that the kernel looks at is `m` at the address
  have hwritable : (m.find y.toNat).any Region.writable =
      (t.vm.map.find y.toNat).any Region.writable :=
    (AddressMap.any_writable_congr (ht.above _ le_rfl)).symm
  unfold Vm.machVmRegionRecurse
  simp only [ht.faultFree.issue_eq, hwritable, Vm.tally_map]
  cases hnx : t.vm.map.next y.toNat with
  | none =>
    refine .ret ⟨hre', hsame _ rfl, (fun hf => by cases hf), fun _ => ?_⟩
    cases hfind : t.vm.map.find y.toNat with
    | none => rfl
    | some z =>
      rw [AddressMap.next_eq_find hfind] at hnx
      cases hnx
  | some x =>
    refine .ret ⟨hre', hsame _ rfl, fun hf => ⟨x, ?_⟩, fun hf => ?_⟩
    · have hd := describes_of_found (.ofKern 0) (v := t.vm.tally .regionRecurse) (a := y) hnx
        (by simpa using hf)
      exact ⟨hd, hd.finish ▸ BitVec.isLt _⟩
    · cases hfind : t.vm.map.find y.toNat with
      | none => rfl
      | some z =>
        rw [AddressMap.next_eq_find hfind] at hnx
        cases hnx
        simp only [Bool.not_eq_false', Bool.or_eq_true, decide_eq_true_eq] at hf
        rw [Option.any_some, Region.writable, Bool.and_eq_false_iff]
        refine .inr (decide_eq_false fun hend => absurd hf ?_)
        exact found_of_contains (AddressMap.find_eq_some_iff.mp hfind).2 hend

/-- A region that has been opened ends where the map is as before. -/
theorem Ahead.of_opened {y : Addr} {count : ℕ} {r' : MachVMRegion} {s' : VmState}
    (h : Ahead m y.toNat r s) (hre : Remapped s s') (ho : Opened x y count r' s s')
    (hy : y.toNat ≤ x.start + x.size) : Ahead m (x.start + x.size) r' s' := by
  have hk : s'.vm.FaultFree := by
    rw [hre.vm]
    exact h.faultFree
  refine ⟨hk, hre.granularity ▸ h.positive, ho.aligned, fun z hz => ?_, ho.restored⟩
  rw [ho.above z hz]
  exact h.above z (hy.trans hz)

/-- The invariant of the loop of `Write` after `n` of `c` bytes. While there are bytes left, the map
is the one from the start from the next address on, and the object has nothing to restore there. -/
structure Written (task : Port) (P : BitVec 64) (v : Vm) (a : Addr) (bytes : List Byte) (c n : ℕ)
    (r : MachVMRegion) (s : VmState) : Prop where
  ready : Ready task P s
  aligned : s.vm.map.Aligned P.toNat
  byte : s.vm.byte = (v.store a (bytes.take n)).byte
  reached : ∀ i < n, v.writable (a + BitVec.ofNat 64 i) = true
  inside : a.toNat + n < 2 ^ 64
  above : n < c → ∀ y, a.toNat + n ≤ y → s.vm.map.traitsAt y = v.map.traitsAt y
  restored : n < c → r.Dirty → r.restoredEnd s.vm ≤ a.toNat + n

variable {v : Vm} {bytes : List Byte} {c n : ℕ}

/-- The next address, which does not wrap around the address space. -/
theorem Written.toNat_next (h : Written task P v a bytes c n r s) :
    (a + BitVec.ofNat 64 n).toNat = a.toNat + n := by
  have hinside := h.inside
  exact Vm.toNat_offset (by omega)

theorem Written.ahead (h : Written task P v a bytes c n r s) (hg : 0 < P.toNat) (hn : n < c) :
    Ahead v.map (a + BitVec.ofNat 64 n).toNat r s := by
  rw [h.toNat_next]
  exact ⟨h.ready.faultFree, h.ready.granularity ▸ hg, h.ready.granularity ▸ h.aligned,
    h.above hn, h.restored hn⟩

/-- The invariant after a change of the map below the next address. -/
theorem Written.of_ahead {r' : MachVMRegion} {s' : VmState}
    (h : Written task P v a bytes c n r s) (hre : Remapped s s')
    (h' : Ahead v.map (a + BitVec.ofNat 64 n).toNat r' s') :
    Written task P v a bytes c n r' s' := by
  rw [h.toNat_next] at h'
  have hready := h.ready.of_remapped hre
  exact ⟨hready, hready.granularity ▸ h'.aligned, hre.byte.trans h.byte, h.reached, h.inside,
    fun _ => h'.above, fun _ => h'.restored⟩

theorem Describes.bytesRemaining {y : Addr} (hd : Describes r y s.vm x) :
    (r.bytesRemaining y).toNat = x.start + x.size - y.toNat := by
  have hsub : r.mSize - (y - r.mStart) = r.endAddress - y := by
    unfold MachVMRegion.endAddress
    bv_omega
  rw [MachVMRegion.bytesRemaining, if_pos hd.containsAddress, hsub, hd.toNat_endAddress_sub]

/-- A region that has been found has bytes left. -/
theorem Describes.bytesRemaining_ne_zero {y : Addr} (hd : Describes r y s.vm x) :
    r.bytesRemaining y ≠ 0 := by
  intro hz
  have hleft := hd.bytesRemaining
  have hx := (AddressMap.find_eq_some_iff.mp hd.find).2.2
  rw [hz, show (0 : BitVec 64).toNat = 0 from rfl] at hleft
  omega

/-- The number of bytes that `Write` asks `WriteRegion` for. -/
theorem Describes.toNat_count {y : Addr} (hd : Describes r y s.vm x) (wanted : BitVec 64) :
    (if r.bytesRemaining y < wanted then r.bytesRemaining y else wanted).toNat =
      min (x.start + x.size - y.toNat) wanted.toNat := by
  rw [Vm.toNat_min, hd.bytesRemaining]

/-- When the loop stops, what has been stored is what has been written. -/
theorem Written.writeExact (h : Written task P v a bytes c n r s) {byte : Addr → Byte}
    (hbyte : byte = s.vm.byte) (hn : n ≤ c) (hlen : c ≤ bytes.length)
    (hstop : n < c → v.writable (a + BitVec.ofNat 64 n) = false) :
    WriteExact v.writable v a c bytes n byte := by
  have hinside := h.inside
  rw [hbyte, h.byte]
  refine ⟨hn, h.reached, hstop, fun i hi => ?_, fun y hy => ?_⟩
  · have hoffset : (a + BitVec.ofNat 64 i - a).toNat = i := by bv_omega
    rw [Vm.store_byte_eq, hoffset, List.getElem?_take_of_lt hi,
      List.getElem?_eq_getElem (by omega), Option.getD_some]
  · have hnone : (bytes.take n)[(y - a).toNat]? = none := by
      refine List.getElem?_take_eq_none (Nat.not_lt.mp fun hlt => hy _ hlt ?_)
      exact (Vm.add_offset a y).symm
    rw [Vm.store_byte_eq, hnone, Option.getD_none]

/-- **One region**: the bytes up to its end, or all that are left, are written. -/
theorem Written.next {k : ℕ} (hP : P.toNat = 2 ^ k) (hP32 : P.toNat < 2 ^ 32) {inner : ℕ}
    (hinner : c < inner) (hlen : c ≤ bytes.length) (hc : c < 2 ^ 64)
    (h : Written task P v a bytes c n r s) (hn : n < c)
    (hd : Describes r (a + BitVec.ofNat 64 n) s.vm x) (hend : x.start + x.size < 2 ^ 64)
    {count : BitVec 64} (hcount : count.toNat = min (x.start + x.size - (a.toNat + n)) (c - n))
    {r' : MachVMRegion} {s' : VmState} (hre : Remapped s s') (hchange : x.changeable = true)
    (ho : Opened x (a + BitVec.ofNat 64 n) count.toNat r' s s') :
    Partial.Returns (MachVMMemory.writeRegion inner task (a + BitVec.ofNat 64 n)
        (some (bytes.drop n)) count)
      (fun m s'' => m = count ∧ Written task P v a bytes c (n + count.toNat) r' s'') s' := by
  have hnext := h.toNat_next
  obtain ⟨hmem, hx⟩ := AddressMap.find_eq_some_iff.mp hd.find
  rw [hnext] at hx
  have hx₁ := hx.1
  have hx₂ := hx.2
  have hready := h.ready.of_remapped hre
  have hgran : s'.vm.granularity = P.toNat := hready.granularity
  refine (writeRegion_returns hP hP32 (by rw [List.length_drop]; omega) (by rw [hnext]; omega)
    ho.write (by omega) hready).mono ?_
  intro m t ht
  obtain ⟨rfl, hbyte, hmap, hready'⟩ := ht
  have hgran' : t.vm.granularity = s'.vm.granularity := hready'.granularity.trans hgran.symm
  refine ⟨rfl, hready', ?_, ?_, fun i hi => ?_, by omega, fun hlt y hy => ?_, fun hlt hdirty => ?_⟩
  · rw [hmap, ← hgran]
    exact ho.aligned
  · rw [hbyte]
    refine Vm.store_store v a bytes (by omega) s'.vm ?_
    rw [hre.byte]
    exact h.byte
  · by_cases hin : i < n
    · exact h.reached i hin
    · have hnat : (a + BitVec.ofNat 64 i).toNat = a.toNat + i := Vm.toNat_offset (by omega)
      have hfind : s.vm.map.find (a.toNat + i) = some x :=
        AddressMap.find_eq_some_iff.mpr ⟨hmem, by omega, by omega⟩
      rw [Vm.writable, hnat, ← AddressMap.any_writable_congr (h.above hn _ (by omega)), hfind,
        Option.any_some, Region.writable, hchange, decide_eq_true hend]
      rfl
  -- bytes are left, so the region has been written up to its end
  · rw [hmap, ho.above y (by omega)]
    exact h.above hn y (by omega)
  · have hrestored := ho.restored hdirty
    simp only [MachVMRegion.restoredEnd, Vm.roundPage, Vm.truncPage, hgran'] at hrestored ⊢
    omega

/-- **The loop of `Write`** writes what the plain writer does. -/
theorem writeLoop_returns {k : ℕ} (hP : P.toNat = 2 ^ k) (hP32 : P.toNat < 2 ^ 32) {inner : ℕ}
    {dataCount : BitVec 64} (hinner : dataCount.toNat < inner)
    (hlen : dataCount.toNat ≤ bytes.length) (fuel : ℕ) (r : MachVMRegion) (total : BitVec 64)
    (htotal : total.toNat ≤ dataCount.toNat) (hfuel : dataCount.toNat - total.toNat < fuel)
    (h : Written task P v a bytes dataCount.toNat total.toNat r s) :
    Partial.Returns (MachVMMemory.writeLoop inner task dataCount fuel r total
        (a + BitVec.ofNat 64 total.toNat) (some (bytes.drop total.toNat)))
      (fun p s' => WriteExact v.writable v a dataCount.toNat bytes p.1.toNat s'.vm.byte) s := by
  have hPpos : 0 < P.toNat := hP ▸ Nat.two_pow_pos k
  -- the induction is on the fuel, which bounds the bytes that are left
  induction fuel generalizing r total s with
  | zero => exact absurd hfuel (Nat.not_lt_zero _)
  | succ fuel ih =>
    unfold MachVMMemory.writeLoop
    refine .ite (fun hlt => ?_) fun hge =>
      .ret (h.writeExact rfl htotal hlen fun hlt => absurd hlt hge)
    have hlt' : total.toNat < dataCount.toNat := hlt
    refine .bind <| (h.ahead hPpos hlt').getRegionForAddress.mono ?_
    rintro ⟨found, region⟩ t ⟨hre, hahead, hfound, hlost⟩
    have ht := h.of_ahead hre hahead
    refine .ite (fun hf => ?_) fun hf =>
      .ret (ht.writeExact rfl htotal hlen fun _ => hlost (by simpa using hf))
    obtain ⟨x, hd, hend⟩ := hfound hf
    have hnext := ht.toNat_next
    have hx := (AddressMap.find_eq_some_iff.mp hd.find).2.2
    refine .ite (fun hz => absurd hz hd.bytesRemaining_ne_zero) fun _ => ?_
    have hsub : (dataCount - total).toNat = dataCount.toNat - total.toNat := by bv_omega
    have hcount := hd.toNat_count (dataCount - total)
    simp only
    set count := if region.bytesRemaining (a + BitVec.ofNat 64 total.toNat) < dataCount - total then
      region.bytesRemaining (a + BitVec.ofNat 64 total.toNat) else dataCount - total
    rw [hnext] at hx
    rw [hnext, hsub] at hcount
    refine .bind <| (setProtections_returns hahead.faultFree hahead.positive hahead.aligned hd
      (by omega) (by rw [hnext]; omega)).mono ?_
    rintro ⟨ok, region'⟩ u ⟨hre, hok, hopened⟩
    refine .ite (fun hok' => ?_) fun hok' => .ret (ht.writeExact hre.byte htotal hlen fun _ => ?_)
    · have hchange : x.changeable = true := hok ▸ hok'
      refine .bind <| (ht.next hP hP32 hinner hlen dataCount.isLt hlt' hd hend hcount hre hchange
        (hopened hok')).mono ?_
      intro m w hw
      obtain ⟨rfl, hw⟩ := hw
      have hsum : (total + count).toNat = total.toNat + count.toNat := by bv_omega
      refine .ite (fun hz => ?_) fun _ => ?_
      · have hz' : count.toNat ≤ 0 := hz
        omega
      · rw [Vm.offset_add, Option.map_some, List.drop_drop, ← hsum]
        rw [← hsum] at hw
        exact ih region' (total + count) (by omega) (by omega) hw
    · have hchange : x.changeable = false := hok ▸ (by simpa using hok')
      rw [Vm.writable, hnext, ← AddressMap.any_writable_congr (ht.above hlt' _ le_rfl), ← hnext,
        hd.find, Option.any_some, Region.writable, hchange]
      rfl

end Loop

/-- **`WriteMemory`** writes up to the first address that a write cannot reach. -/
theorem MachTask.writeMemory_returns (t : MachTask) (ht : t.mTask ≠ 0) {s : VmState}
    {P : BitVec 64} {k : ℕ} (hP : P.toNat = 2 ^ k) (hP32 : P.toNat < 2 ^ 32)
    (h : Ready t.mTask P s) (hal : s.vm.map.Aligned P.toNat) (a : Addr) (c : BitVec 64)
    (buf : List Byte) (hbuf : c.toNat ≤ buf.length) (fuel : ℕ) (hfuel : c.toNat < fuel) :
    Partial.Returns (t.writeMemory fuel a c (some buf))
      (fun n s' => WriteExact s.vm.writable s.vm a c.toNat buf n.toNat s'.vm.byte) s := by
  have hstart : Written t.mTask P s.vm a buf c.toNat (0 : BitVec 64).toNat {} s :=
    ⟨h, hal, by funext y; simp [Vm.store_byte_eq], fun i hi => absurd hi (Nat.not_lt_zero i),
      a.isLt, fun _ _ _ => rfl,
      fun _ hd => absurd hd MachVMRegion.not_dirty⟩
  have hloop := writeLoop_returns hP hP32 hfuel hbuf fuel {} 0 (Nat.zero_le _) hfuel hstart
  rw [show a + BitVec.ofNat 64 (0 : BitVec 64).toNat = a by simp] at hloop
  refine .ite (fun _ => ?_) fun hz => absurd ht hz
  refine .bind <| hloop.mono ?_
  intro p u hu
  refine .bind <| (clear_returns p.2 u).mono fun r w hw => .ret ?_
  rw [hw.2.1.byte]
  exact hu

/-- **Writing equals the plain writer**: for every map of page-aligned regions that end below the
end of the address space, every address, count and buffer, with a page size that is a power of two
below `2 ^ 32`. -/
theorem MachTask.writeMemory_exact (t : MachTask) (ht : t.mTask ≠ 0) (s : VmState) (P : BitVec 64)
    (k : ℕ) (hP : P.toNat = 2 ^ k) (hP32 : P.toNat < 2 ^ 32)
    (hsize : ∃ s₁, (MachVMMemory.pageSize t.mTask).run s = some (P, s₁))
    (hgranularity : s.vm.granularity = P.toNat) (hal : s.vm.map.Aligned P.toNat)
    (hends : ∀ r ∈ s.vm.map.regions, r.start + r.size < 2 ^ 64) (hfault : s.vm.FaultFree)
    (a : Addr) (c : BitVec 64) (buf : List Byte) (hbuf : c.toNat ≤ buf.length) (fuel : ℕ)
    (hfuel : c.toNat < fuel) :
    ∃ n s', (t.writeMemory fuel a c (some buf)).run s = some (n, s') ∧
      WriteExact s.vm.changeable s.vm a c.toNat buf n.toNat s'.vm.byte := by
  have hsame : s.vm.writable = s.vm.changeable := by
    funext x
    unfold Vm.writable Vm.changeable
    cases hfind : s.vm.map.find x.toNat with
    | none => rfl
    | some r =>
      have hend := hends r (AddressMap.find_eq_some_iff.mp hfind).1
      simp only [Option.any_some, Region.writable, hend, decide_true, Bool.and_true]
  have hwrite :=
    t.writeMemory_returns ht hP hP32 ⟨hfault, hgranularity, hsize⟩ hal a c buf hbuf fuel hfuel
  rw [hsame] at hwrite
  exact hwrite

/-- A write of twenty bytes across both pages, which ends in the gap after them, writes eighteen. -/
theorem MachTask.writeMemory_exact_gap : ∃ n s',
    (MachTask.writeMemory { mTask := 1 } 21 30 20 (some (List.replicate 20 0xEE))).run
      ⟨.dataAndCode fun _ _ => none, {}⟩ = some (n, s') ∧
    WriteExact (Vm.dataAndCode fun _ _ => none).changeable (.dataAndCode fun _ _ => none) 30 20
      (List.replicate 20 0xEE) n.toNat s'.vm.byte ∧ n = 18 := by
  obtain ⟨n, s', hrun, hexact⟩ := MachTask.writeMemory_exact { mTask := 1 } (by decide)
    ⟨.dataAndCode fun _ _ => none, {}⟩ 16 4 rfl (by decide) ⟨_, rfl⟩ rfl
    (Vm.forall_dataAndCode (by decide) (by decide)) (Vm.forall_dataAndCode (by decide) (by decide))
    (fun _ _ => rfl) 30 20
    (List.replicate 20 0xEE) (by decide) 21 (by decide)
  have hn : ((MachTask.writeMemory { mTask := 1 } 21 30 20 (some (List.replicate 20 0xEE))).run
      ⟨.dataAndCode fun _ _ => none, {}⟩).map (fun r => r.1) = some 18 := by
    decide +kernel
  rw [hrun] at hn
  exact ⟨n, s', hrun, hexact, Option.some.inj hn⟩

end MachDebug
