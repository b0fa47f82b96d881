import MachDebug.Memory.Iterations
import MachDebug.Memory.WriteExact

/-!
# What a write can reach

A write goes on from region to region as long as each of them can be made readable and writable,
whatever the kernel answers to its calls. While it runs, changes of protection cut the map, but only
inside regions that the write has reached: no region grows, and none that could not be reached
becomes writable.

## Main definitions

* `AddressMap.Reaches m a i`: a write at `a` can reach its byte `i`
* `AddressMap.Cuts m m'`: `m'` is `m`, cut inside regions that a write can reach
* `Cutting m r s`: the invariant of the loop of `Write`, for all answers of the kernel

## Main results

* `AddressMap.Cuts.protect`: a change of protection inside a region that can be reached
* `enterRegion_returns`: what an iteration of `Write` finds before it calls `WriteRegion`
-/

namespace MachDebug

open Program

namespace AddressMap

variable {m m' : AddressMap}

/-- A write at `a` can reach its byte `i`: the bytes up to it lie in regions that can be made
readable and writable, and that do not end with the address space. -/
def Reaches (m : AddressMap) (a : Addr) (i : ℕ) : Prop :=
  ∀ j ≤ i, (m.find (a + BitVec.ofNat 64 j).toNat).any Region.writable = true

/-- The bytes that a write can reach do not wrap around the address space. -/
theorem Reaches.toNat_add {a : Addr} {i : ℕ} (h : m.Reaches a i) :
    (a + BitVec.ofNat 64 i).toNat = a.toNat + i := by
  induction i with
  | zero => simp
  | succ i ih =>
    have hi := ih fun j hj => h j (hj.trans (Nat.le_succ i))
    obtain ⟨x, hx, hw⟩ := (Option.any_eq_true _ _).mp (h i (Nat.le_succ i))
    have hc := (find_eq_some_iff.mp hx).2.2
    have hend := (Region.writable_iff.mp hw).2
    rw [hi] at hc
    exact Vm.toNat_offset (by omega)

/-- `m'` is `m`, cut inside regions that a write can reach: no region has grown, and a region that
can be reached is a part of one that could be. -/
def Cuts (m m' : AddressMap) : Prop :=
  ∀ y x', m'.find y = some x' → ∃ x, m.find y = some x ∧ x.start ≤ x'.start ∧
    x'.start + x'.size ≤ x.start + x.size ∧ (x'.writable = true → x.writable = true)

theorem Cuts.refl (m : AddressMap) : m.Cuts m := fun _ x hx => ⟨x, hx, le_rfl, le_rfl, id⟩

/-- **A change of protection** inside a region that a write can reach. -/
theorem Cuts.protect (h : m.Cuts m') {z : Region} (hz : z ∈ m.regions) (hw : z.writable = true)
    {lo hi : ℕ} (hlo : z.start ≤ lo) (hlt : lo < hi) (hhi : hi ≤ z.start + z.size)
    (prot : VmProt) : m.Cuts (m'.protect lo hi prot) := by
  intro y y' hy
  obtain ⟨w, hfind, hstart, hle, hprot, hgrants, hend⟩ := find_of_find_protect hy
  obtain ⟨x, hx, hxw, hwx, hwritable⟩ := h y w hfind
  refine ⟨x, hx, hxw.trans hstart, hle.trans hwx, fun hy' => ?_⟩
  have hchange (hout : ¬ (lo ≤ y ∧ y < hi)) : w.changeable = true := by
    rw [if_neg hout] at hprot
    rw [← (Region.writable_iff.mp hy').1, Region.changeable, Region.changeable, hprot, hgrants]
  have hzend := (Region.writable_iff.mp hw).2
  rcases Nat.lt_or_ge y lo with hylo | hylo
  -- below the range: the region may have been cut, but it does not end with the address space
  · refine hwritable (Region.writable_iff.mpr ⟨hchange (by omega), ?_⟩)
    by_contra hge
    have hwc := (find_eq_some_iff.mp hfind)
    have hlo' : m'.find lo = some w :=
      find_eq_some_iff.mpr ⟨hwc.1, hwc.2.1.trans hylo.le, by omega⟩
    obtain ⟨x₁, hx₁, -, hle₁, -⟩ := h lo w hlo'
    have hzlo : m.find lo = some z := find_eq_some_iff.mpr ⟨hz, hlo, by omega⟩
    obtain rfl : x₁ = z := Option.some.inj (hx₁.symm.trans hzlo)
    omega
  · rcases Nat.lt_or_ge y hi with hyhi | hyhi
    · have hzy : m.find y = some z := find_eq_some_iff.mpr ⟨hz, by omega, by omega⟩
      obtain rfl : x = z := Option.some.inj (hx.symm.trans hzy)
      exact hw
    · refine hwritable (Region.writable_iff.mpr ⟨hchange (by omega), ?_⟩)
      rw [← hend (by omega)]
      exact (Region.writable_iff.mp hy').2

end AddressMap

/-! ## An iteration of `Write`, for all answers -/

/-- The invariant of the loop of `Write`, for all answers of the kernel: the map has been cut inside
regions that the write can reach, and what the region object is to restore lies inside one. -/
structure Cutting (m : AddressMap) (r : MachVMRegion) (s : VmState) : Prop where
  positive : 0 < s.vm.granularity
  aligned : s.vm.map.Aligned s.vm.granularity
  cuts : m.Cuts s.vm.map
  owned : r.Dirty → ∃ z ∈ m.regions, z.writable = true ∧
    z.start ≤ s.vm.truncPage r.mProtectionAddr.toNat ∧ r.restoredEnd s.vm ≤ z.start + z.size

section Cutting

variable {m : AddressMap} {r : MachVMRegion} {s s' : VmState}

theorem Cutting.of_sameMap (h : Cutting m r s) (hs : SameMap s s') : Cutting m r s' := by
  refine ⟨hs.granularity ▸ h.positive, ?_, hs.map ▸ h.cuts, ?_⟩
  · rw [hs.map, hs.granularity]
    exact h.aligned
  · simpa only [MachVMRegion.restoredEnd, Vm.roundPage, Vm.truncPage, hs.granularity] using h.owned

/-- `Clear` restores inside a region that the write can reach. -/
theorem Cutting.clear (h : Cutting m r s) :
    Partial.Returns r.clear (fun r' s' => r' = {} ∧ Cutting m {} s') s := by
  refine (clear_returns r s).mono ?_
  intro r' t ht
  obtain ⟨rfl, hre, hmap⟩ := ht
  refine ⟨rfl, hre.granularity ▸ h.positive, aligned_of_cleared h.aligned hre hmap, ?_,
    fun hd => absurd hd MachVMRegion.not_dirty⟩
  rcases hmap with hmap | ⟨hd, q, hmap⟩
  · rw [hmap]
    exact h.cuts
  · obtain ⟨z, hz, hw, hlo, hhi⟩ := h.owned hd
    rw [hmap]
    exact h.cuts.protect hz hw hlo (hd.truncPage_lt h.positive) hhi q

/-- A `mach_vm_protect` that succeeds has been granted by all regions of its range. -/
theorem machVmProtect_granted {v : Vm} {a : Addr} {size : BitVec 64} {prot : VmProt}
    (h : (v.machVmProtect a size prot).1 = 0) :
    v.map.All (v.truncPage a.toNat) (v.roundPage (a.toNat + size.toNat))
      fun x => x.grants prot := by
  revert h
  refine Vm.issue_ind (M := fun r : KernReturn × Vm => r.1 = 0 →
    v.map.All (v.truncPage a.toNat) (v.roundPage (a.toNat + size.toNat)) fun x => x.grants prot)
    (fun e he h => absurd h he) ?_
  simp only
  split
  · split
    · rename_i hall
      exact fun _ => hall
    · exact fun h => absurd h kernProtectionFailure_ne_zero
  · exact fun h => absurd h kernInvalidAddress_ne_zero

/-- The change of a protection, with a copy or without, for all answers. -/
theorem protectOrCopy_granted (a : Addr) (size : BitVec 64) (prot : VmProt) (s : VmState) :
    Partial.Returns (MachVMRegion.protectOrCopy a size prot)
      (fun kr s' => Protected a size s kr s' ∧ (kr = 0 →
        s.vm.map.All (s.vm.truncPage a.toNat) (s.vm.roundPage (a.toNat + size.toNat))
          (fun x => x.grants prot) ∨
        s.vm.map.All (s.vm.truncPage a.toNat) (s.vm.roundPage (a.toNat + size.toNat))
          fun x => x.grants (prot ||| vmProtCopy))) s := by
  refine .bind <| vmCall_returns ?_
  rcases machVmProtect_cases s.vm a size prot with ⟨hkr, hv⟩ | ⟨hkr, hv⟩
  -- the second call sees the map that the first one has left alone
  · refine .ite (fun _ => vmCall_returns ?_) fun h => absurd hkr h
    rw [hv]
    refine ⟨?_, fun h => .inr (machVmProtect_granted (v := s.vm.tally .protect) h)⟩
    rcases machVmProtect_cases (s.vm.tally .protect) a size (prot ||| vmProtCopy) with
      ⟨hkr', hv'⟩ | ⟨hkr', hv'⟩ <;> rw [hv']
    · exact ⟨rfl, rfl, .inl ⟨hkr', rfl⟩⟩
    · exact ⟨rfl, rfl, .inr ⟨hkr', _, rfl⟩⟩
  · refine .ite (fun h => absurd hkr h) fun _ => .ret ⟨?_, fun h => .inl (machVmProtect_granted h)⟩
    rw [hv]
    exact ⟨rfl, rfl, .inr ⟨hkr, _, rfl⟩⟩

/-- `GetRegionForAddress` keeps the invariant, and describes the region it finds. -/
theorem Cutting.getRegionForAddress (h : Cutting m r s) (y : Addr) :
    Partial.Returns (r.getRegionForAddress y) (fun p s' => Cutting m p.2 s' ∧
      (p.1 = true → ∃ x, Describes p.2 y s'.vm x ∧ x.start + x.size < 2 ^ 64)) s := by
  refine .bind <| h.clear.mono ?_
  intro r' t ht
  obtain ⟨rfl, ht⟩ := ht
  have hsame := vmCall_sameMap (machVmRegionRecurse_sameMap y) t _ _ rfl
  have hfresh (r' : MachVMRegion) (hr' : r'.mProtectionSize = 0) :
      Cutting m r' { t with vm := (t.vm.machVmRegionRecurse y).2 } := by
    have ht' := ht.of_sameMap hsame
    exact ⟨ht'.positive, ht'.aligned, ht'.cuts, fun hd => absurd hd.2 (by rw [hr']; decide)⟩
  refine .bind <| vmCall_returns ?_
  cases hanswer : (t.vm.machVmRegionRecurse y).1 with
  | error kr => exact .ret ⟨hfresh _ rfl, fun hf => by cases hf⟩
  | ok x =>
    refine .ret ⟨hfresh _ rfl, fun hf => ⟨x, ?_⟩⟩
    have hnext : (t.vm.machVmRegionRecurse y).2.map.next y.toNat = some x := by
      rw [show (t.vm.machVmRegionRecurse y).2.map = t.vm.map from hsame.map]
      exact machVmRegionRecurse_ok hanswer
    have hd := describes_of_found (.ofKern 0) hnext (by simpa using hf)
    exact ⟨hd, hd.finish ▸ BitVec.isLt _⟩

/-- `SetProtections` succeeds only on a region that the write can reach, and keeps the invariant. -/
theorem Cutting.setProtections (h : Cutting m r s) {y : Addr} {x : Region}
    (hd : Describes r y s.vm x) (hend : x.start + x.size < 2 ^ 64) {count : BitVec 64}
    (hcount : y.toNat + count.toNat ≤ x.start + x.size) :
    Partial.Returns (r.setProtections y count (vmProtRead ||| vmProtWrite)) (fun p s' =>
      Cutting m p.2 s' ∧ (p.1 = true → x.writable = true)) s := by
  have hchanged : x.changeable = true → x.writable = true :=
    fun hchange => Region.writable_iff.mpr ⟨hchange, hend⟩
  refine .ite (fun _ => ?_) fun _ => .ret ⟨h, fun hf => by cases hf⟩
  simp only [hd.protSize_eq hcount]
  refine .ite (fun hpos => .ite (fun hprot => .ret ⟨h, fun _ => hchanged ?_⟩) fun _ => ?_)
    fun _ => .ret ⟨h, fun hf => by cases hf⟩
  · rw [hd.curr] at hprot
    simp [Region.changeable, hprot.symm]
  refine .bind <| (protectOrCopy_granted y count _ s).mono ?_
  intro kr t ht
  obtain ⟨⟨hgran, -, hmap⟩, hgranted⟩ := ht
  have hpos' : 0 < count.toNat := hpos
  have hlo := s.vm.truncPage_le y.toNat
  have hhi := s.vm.le_roundPage h.positive (y.toNat + count.toNat)
  refine .ite (fun hkr => .ret ?_) fun hkr => .ret ⟨?_, fun hf => by cases hf⟩
  · have hgrants (prot : VmProt) (hall : s.vm.map.All (s.vm.truncPage y.toNat)
        (s.vm.roundPage (y.toNat + count.toNat)) fun x => x.grants prot) :
        x.grants prot = true := by
      have hy := hall (y.toNat - s.vm.truncPage y.toNat) (by omega)
      rw [Nat.add_sub_cancel' hlo, hd.find] at hy
      exact hy
    have hw : x.writable = true := by
      refine hchanged ?_
      rcases hgranted hkr with hall | hall
      · simp [Region.changeable, hgrants _ hall]
      · simp [Region.changeable, hgrants _ hall]
    obtain ⟨h0, -⟩ | ⟨-, q, hmap⟩ := hmap
    · exact absurd hkr h0
    -- the range lies inside the region, and so inside the one that the region was cut from
    obtain ⟨z, hz, hzx, hxz, hzw⟩ := h.cuts _ _ hd.find
    obtain ⟨hmem, hx⟩ := AddressMap.find_eq_some_iff.mp hd.find
    have hlo' := s.vm.le_truncPage (h.aligned x hmem).1 hx.1
    have hhi' := s.vm.roundPage_le h.positive (h.aligned x hmem).2 hcount
    have hzmem := (AddressMap.find_eq_some_iff.mp hz).1
    refine ⟨⟨hgran ▸ h.positive, ?_, ?_, fun _ => ⟨z, hzmem, hzw hw, ?_, ?_⟩⟩, fun _ => hw⟩
    · rw [hmap, hgran]
      exact h.aligned.protect (Vm.dvd_truncPage _ _) (Vm.dvd_roundPage _ _) _
    · rw [hmap]
      exact h.cuts.protect hzmem (hzw hw) (by omega) (by omega) (by omega) q
    · simpa only [Vm.truncPage, hgran] using hzx.trans hlo'
    · simpa only [MachVMRegion.restoredEnd, Vm.roundPage, Vm.truncPage, hgran]
        using hhi'.trans hxz
  · obtain ⟨-, hmap⟩ | ⟨h0, -⟩ := hmap
    · refine ⟨hgran ▸ h.positive, ?_, hmap ▸ h.cuts, ?_⟩
      · rw [hmap, hgran]
        exact h.aligned
      · simpa only [MachVMRegion.Dirty, MachVMRegion.restoredEnd, Vm.roundPage, Vm.truncPage, hgran]
          using h.owned
    · exact absurd h0 hkr

/-- **Entering a region**: an iteration of `Write` calls `WriteRegion` for bytes of one region,
which the write can reach. -/
theorem enterRegion_returns (h : Cutting m r s) (y : Addr) {wanted : BitVec 64}
    (hwanted : 0 < wanted.toNat) : Partial.Returns (MachVMMemory.enterRegion r y wanted)
      (fun p s' => Cutting m p.2 s' ∧ ∀ count, p.1 = some count →
        ∃ x, m.find y.toNat = some x ∧ x.writable = true ∧
          y.toNat + count.toNat ≤ x.start + x.size ∧
          0 < count.toNat ∧ count.toNat ≤ wanted.toNat) s := by
  refine .bind <| (h.getRegionForAddress y).mono ?_
  rintro ⟨found, region⟩ t ⟨ht, hfound⟩
  have hnone {u : VmState} {region : MachVMRegion} (hu : Cutting m region u) :
      Partial.Returns (pure (none, region) : VmM (Option (BitVec 64) × MachVMRegion))
        (fun p s' => Cutting m p.2 s' ∧ ∀ count, p.1 = some count →
          ∃ x, m.find y.toNat = some x ∧ x.writable = true ∧
            y.toNat + count.toNat ≤ x.start + x.size ∧
            0 < count.toNat ∧ count.toNat ≤ wanted.toNat) u :=
    .ret ⟨hu, fun count hc => by cases hc⟩
  refine .ite (fun hf => .ite (fun _ => hnone ht) fun hz => ?_) fun _ => hnone ht
  obtain ⟨x, hd, hend⟩ := hfound hf
  have hcount := hd.toNat_count wanted
  simp only
  set count := if region.bytesRemaining y < wanted then region.bytesRemaining y else wanted
  have hx := (AddressMap.find_eq_some_iff.mp hd.find).2.2
  refine .bind <| (ht.setProtections hd hend (by omega)).mono ?_
  rintro ⟨ok, region'⟩ u ⟨hu, hok⟩
  refine .ite (fun hok' => .ret ⟨hu, fun c hc => ?_⟩) fun _ => hnone hu
  obtain rfl := Option.some.inj hc
  obtain ⟨z, hz, -, hxz, hzw⟩ := ht.cuts _ _ hd.find
  exact ⟨z, hz, hzw (hok hok'), by omega, by omega, by omega⟩

theorem enterRegion_sameSizes (r : MachVMRegion) (y : Addr) (wanted : BitVec 64) :
    Partial.Keeps SameSizes (MachVMMemory.enterRegion r y wanted) := by
  refine .bind (r.getRegionForAddress_sameSizes y) fun p => .ite (.ite (.ret _) ?_) (.ret _)
  exact .bind (p.2.setProtections_sameSizes _ _ _) fun q => .ite (.ret _) (.ret _)

end Cutting

end MachDebug
