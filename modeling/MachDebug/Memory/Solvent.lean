import MachDebug.Memory.WriteExact

/-!
# Restoring protections succeeds

When no call fails and every region can be given its own protection, the calls that restore a
protection succeed, and a write leaves all protections as they were. The region object can always
pay what it owes: the range it is to restore is mapped, and every part of it grants the protection
that was saved.

## Main definitions

* `AddressMap.grantsAt m x`: the protections that an address can be given, if it is mapped
* `AddressMap.SelfGranting m`: every region can be given its own protection
* `Solvent m g r s`: the region object can pay what it owes

## Main results

* `writeLoop_solvent`: the loop of `Write` keeps the object solvent
* `MachTask.writeMemory_solvent`: a write leaves all protections as they were
-/

namespace MachDebug

open Program

/-! ## What addresses can be given -/

namespace AddressMap

/-- The protections that an address can be given, if it is mapped. -/
def grantsAt (m : AddressMap) (x : ℕ) : Option (VmProt → Bool) := (m.find x).map Region.grants

/-- Every region can be given its own protection. -/
def SelfGranting (m : AddressMap) : Prop := ∀ r ∈ m.regions, r.grants r.protection = true

/-- No region ends with the address space. -/
def EndsBelow (m : AddressMap) : Prop := ∀ r ∈ m.regions, r.start + r.size < 2 ^ 64

variable {m m' : AddressMap} {x : ℕ} {r : Region}

/-- A change of protection leaves alone what an address can be given. -/
theorem grantsAt_protect (m : AddressMap) (lo hi x : ℕ) (prot : VmProt) :
    (m.protect lo hi prot).grantsAt x = m.grantsAt x := by
  unfold grantsAt
  cases h : m.find x with
  | none => rw [find_protect_eq_none h]
  | some r =>
    obtain ⟨y, hy, -, hg, -⟩ := find_protect h lo hi prot
    rw [hy, Option.map_some, Option.map_some, hg]

theorem EndsBelow.protect (h : m.EndsBelow) (lo hi : ℕ) (prot : VmProt) :
    (m.protect lo hi prot).EndsBelow := by
  intro y hy
  obtain ⟨r, hr, hyr⟩ := List.mem_flatMap.mp hy
  exact Nat.lt_of_le_of_lt (Region.mem_cut hyr).2 (h r hr)

/-- A map with the protections and grants of a self-granting one: the region of an address can be
given its protection. -/
theorem SelfGranting.grants_of_same (h : m.SelfGranting) (hp : m'.protectionAt x = m.protectionAt x)
    (hg : m'.grantsAt x = m.grantsAt x) (hr : m'.find x = some r) :
    r.grants r.protection = true := by
  rw [protectionAt, hr] at hp
  rw [grantsAt, grantsAt, hr] at hg
  obtain ⟨y, hy, hprot⟩ := Option.map_eq_some_iff.mp hp.symm
  rw [hy] at hg
  rw [Option.some.inj hg, ← hprot]
  exact h y (find_eq_some_iff.mp hy).1

/-- All addresses of a range can be given a protection when each of them can. -/
theorem all_grants_of_grantsAt {lo hi : ℕ} {prot : VmProt}
    (h : ∀ y, lo ≤ y → y < hi → (m.grantsAt y).any (· prot) = true) :
    m.All lo hi fun r => r.grants prot := by
  intro i hi'
  have hy := h (lo + i) (by omega) (by omega)
  rwa [grantsAt, Option.any_map] at hy

end AddressMap

/-- A `mach_vm_protect` that all addresses of its range grant. -/
theorem machVmProtect_of_all {v : Vm} (hk : v.FaultFree) {a : Addr} {size : BitVec 64}
    {prot : VmProt} (h : v.map.All (v.truncPage a.toNat) (v.roundPage (a.toNat + size.toNat))
      fun r => r.grants prot) :
    v.machVmProtect a size prot = (0, { v.tally .protect with
      map := v.map.protect (v.truncPage a.toNat) (v.roundPage (a.toNat + size.toNat))
        (prot &&& ~~~vmProtCopy) }) := by
  unfold Vm.machVmProtect
  rw [hk.issue_eq]
  have hall : (v.tally .protect).map.All ((v.tally .protect).truncPage a.toNat)
      ((v.tally .protect).roundPage (a.toNat + size.toNat)) fun r => r.grants prot := h
  simp only
  rw [if_pos hall.mapped, if_pos hall]
  rfl

/-! ## The page size -/

/-- The same failures are injected, and `PageSize` will return the same as before when there are
none. -/
structure SizeKept (task : Port) (s s' : VmState) : Prop where
  faults : s'.vm.faults = s.vm.faults
  size : s.vm.FaultFree → s'.reportedPageSize task = s.reportedPageSize task

section SizeKept

variable {task : Port} {s s' : VmState}

instance : Std.Refl (SizeKept task) := ⟨fun _ => ⟨rfl, fun _ => rfl⟩⟩

theorem SizeKept.faultFree (h : SizeKept task s s') (hk : s.vm.FaultFree) : s'.vm.FaultFree := by
  intro c n
  rw [h.faults]
  exact hk c n

instance : IsTrans VmState (SizeKept task) :=
  ⟨fun _ _ _ h h' => ⟨h'.faults.trans h.faults,
    fun hk => (h'.size (h.faultFree hk)).trans (h.size hk)⟩⟩

theorem SameSizes.sizeKept (h : SameSizes s s') : SizeKept task s s' := by
  obtain ⟨hkept, hfaults, htask, hhost, -⟩ := h
  refine ⟨hfaults, fun _ => ?_⟩
  rw [VmState.reportedPageSize, VmState.reportedPageSize, hkept, htask, hhost]

theorem sizeKept_of_sameSizes {β : Type} {p : VmM β} (h : Partial.Keeps SameSizes p) :
    Partial.Keeps (SizeKept task) p :=
  fun s => (h s).mono fun _ _ hs => hs.sizeKept

theorem setErr_sizeKept (kr : KernReturn) : Partial.Keeps (SizeKept task) (setErr kr) :=
  sizeKept_of_sameSizes (modify_sameSizes fun _ => ⟨rfl, rfl, rfl, rfl, rfl, rfl⟩)

/-- `PageSize` keeps the size that it returns. -/
theorem pageSize_sizeKept (task : Port) :
    Partial.Keeps (SizeKept task) (MachVMMemory.pageSize task) := by
  intro s n s' hrun
  have hrec := MachVMMemory.pageSize_recalled task s n s' hrun
  have hkept := (MachVMMemory.pageSize_kept task s).post n s' hrun
  refine ⟨by rw [hrec.vm], fun hk => ?_⟩
  have hsize : s.reportedPageSize task = n := (sized_iff hk).mp ⟨s', hrun⟩
  by_cases hn : n = kInvalidPageSize
  -- the size is unknown, so nothing has been kept
  · have hunknown : s.memory.mPageSize = kInvalidPageSize := by
      by_contra hknown
      rw [VmState.reportedPageSize, if_neg hknown] at hsize
      exact hknown (hsize.trans hn)
    rw [VmState.reportedPageSize, VmState.reportedPageSize, if_pos (hkept.trans hn),
      if_pos hunknown, hrec.vm]
  · have hknown : s'.memory.mPageSize ≠ kInvalidPageSize := by rwa [hkept]
    rw [VmState.reportedPageSize, if_neg hknown, hkept, hsize]

theorem maxBytesLeftInPage_sizeKept (a : Addr) (count : BitVec 64) :
    Partial.Keeps (SizeKept task) (MachVMMemory.maxBytesLeftInPage task a count) :=
  .bind (pageSize_sizeKept task) fun _ => .ite (.ret _) (.ret _)

theorem writeRegionLoop_sizeKept (dataCount : BitVec 64) (fuel : ℕ) (total : BitVec 64) (a : Addr)
    (bytes : List Byte) : Partial.Keeps (SizeKept task)
      (MachVMMemory.writeRegionLoop task dataCount fuel total a bytes) := by
  induction fuel generalizing total a bytes with
  | zero => exact fun _ => .diverge
  | succ fuel ih =>
    refine .ite (.bind (maxBytesLeftInPage_sizeKept _ _) fun left => ?_) (.ret _)
    exact .bind (sizeKept_of_sameSizes (MachVMMemory.writePiece_sameSizes _ _ _)) fun ok =>
      .ite (ih _ _ _) (.ret _)

theorem writeRegion_sizeKept (fuel : ℕ) (a : Addr) (data : Option (List Byte))
    (dataCount : BitVec 64) :
    Partial.Keeps (SizeKept task) (MachVMMemory.writeRegion fuel task a data dataCount) := by
  cases data with
  | none => exact .ret _
  | some bytes => exact .ite (.ret _) (writeRegionLoop_sizeKept _ _ _ _ _)

theorem machVmRead_sameSizes (a : Addr) (size : BitVec 64) (v : Vm) :
    v.SameSizes (v.machVmRead a size).2 := by
  refine Vm.issue_sameSizes (by decide) (by decide) ?_
  intro v
  simp only
  split
  · split <;> exact ⟨rfl, rfl, rfl, rfl, rfl⟩
  · exact ⟨rfl, rfl, rfl, rfl, rfl⟩

theorem readLoop_sizeKept (dataCount : BitVec 64) (fuel : ℕ) (total : BitVec 64) (a : Addr) (i : ℕ)
    (data : List Byte) :
    Partial.Keeps (SizeKept task) (MachVMMemory.readLoop task dataCount fuel total a i data) := by
  induction fuel generalizing total a i data with
  | zero => exact fun _ => .diverge
  | succ fuel ih =>
    refine .ite (.bind (maxBytesLeftInPage_sizeKept _ _) fun n => ?_) (.ret _)
    refine .bind (sizeKept_of_sameSizes (vmCall_sameSizes (machVmRead_sameSizes a n)))
      fun answer => ?_
    cases answer with
    | error kr => exact .bind (setErr_sizeKept kr) fun _ => .ret _
    | ok bytes => exact .bind (setErr_sizeKept 0) fun _ => ih _ _ _ _

theorem MachTask.readMemory_sizeKept (t : MachTask) (fuel : ℕ) (a : Addr) (size : BitVec 64)
    (buf : Option (List Byte)) :
    Partial.Keeps (SizeKept t.mTask) (t.readMemory fuel a size buf) := by
  refine .ite ?_ (.ret _)
  cases buf with
  | none => exact .ret _
  | some data => exact .ite (.ret _) (.bind (readLoop_sizeKept _ _ _ _ _ _) fun _ => .ret _)

theorem writeLoop_sizeKept (inner : ℕ) (dataCount : BitVec 64) (fuel : ℕ) (region : MachVMRegion)
    (total : BitVec 64) (a : Addr) (data : Option (List Byte)) : Partial.Keeps (SizeKept task)
      (MachVMMemory.writeLoop inner task dataCount fuel region total a data) := by
  induction fuel generalizing region total a data with
  | zero => exact fun _ => .diverge
  | succ fuel ih =>
    refine .ite (.bind (sizeKept_of_sameSizes (region.getRegionForAddress_sameSizes a)) fun p => ?_)
      (.ret _)
    refine .ite (.ite (.ret _) ?_) (.ret _)
    refine .bind (sizeKept_of_sameSizes (MachVMRegion.setProtections_sameSizes _ _ _ _)) fun q => ?_
    refine .ite (.bind (writeRegion_sizeKept _ _ _ _) fun n => ?_) (.ret _)
    exact .ite (.ret _) (ih _ _ _ _)

theorem MachTask.writeMemory_sizeKept (t : MachTask) (fuel : ℕ) (a : Addr) (size : BitVec 64)
    (buf : Option (List Byte)) :
    Partial.Keeps (SizeKept t.mTask) (t.writeMemory fuel a size buf) := by
  refine .ite (.bind (writeLoop_sizeKept _ _ _ _ _ _ _) fun p => ?_) (.ret _)
  exact .bind (sizeKept_of_sameSizes p.2.clear_sameSizes) fun _ => .ret _

end SizeKept

/-! ## The region object -/

/-- The range that the object is to restore can be given the protection that was saved. -/
def MachVMRegion.Payable (r : MachVMRegion) (v : Vm) : Prop :=
  r.Dirty → v.map.All (v.truncPage r.mProtectionAddr.toNat) (r.restoredEnd v)
    fun x => x.grants r.mDataProtection

/-- All restoring calls so far have succeeded, and the object can make the next one. -/
structure Solvent (m : AddressMap) (g : ℕ) (r : MachVMRegion) (s : VmState) : Prop where
  tracked : Tracked m g r s
  faultFree : s.vm.FaultFree
  paid : ∀ kr ∈ s.vm.restores, kr = 0
  grants : ∀ x, s.vm.map.grantsAt x = m.grantsAt x
  ends : s.vm.map.EndsBelow
  payable : r.Payable s.vm

section Solvent

variable {m : AddressMap} {g : ℕ} {r : MachVMRegion} {s s' : VmState}

theorem Solvent.of_clean (h : Solvent m g r s) {r' : MachVMRegion} (hr : ¬ r.Dirty)
    (hr' : ¬ r'.Dirty) : Solvent m g r' s :=
  ⟨⟨h.tracked.granularity, h.tracked.aligned, fun hz => (h.tracked.owes hz).of_clean hr hr'⟩,
    h.faultFree, h.paid, h.grants, h.ends, fun hd => absurd hd hr'⟩

/-- A step that leaves the map and the answers alone. -/
theorem Solvent.of_sameMap (h : Solvent m g r s) (hs : SameMap s s')
    (hf : s'.vm.faults = s.vm.faults) : Solvent m g r s' := by
  refine ⟨h.tracked.of_sameMap hs, fun c n => by rw [hf]; exact h.faultFree c n,
    hs.restores ▸ h.paid,
    hs.map ▸ h.grants, hs.map ▸ h.ends, fun hd => ?_⟩
  have hpay := h.payable hd
  simpa only [MachVMRegion.restoredEnd, Vm.truncPage, Vm.roundPage, hs.map, hs.granularity]
    using hpay

/-- Without a debt, the protections are those of `m`. -/
theorem Solvent.protectionAt (h : Solvent m g r s) (hr : ¬ r.Dirty) (x : ℕ) :
    s.vm.map.protectionAt x = m.protectionAt x := by
  simpa only [Owes, MachVMRegion.restoredMap, if_neg hr] using h.tracked.owes h.paid x

/-- **Restoring succeeds**: the object is clear of debt. -/
theorem clear_solvent (h : Solvent m g r s) :
    Partial.Post r.clear (fun r' s' => r' = {} ∧ Solvent m g {} s') s := by
  have hrest : Partial.Post r.restoreProtections (fun _ s' => s'.vm.FaultFree ∧
      (∀ kr ∈ s'.vm.restores, kr = 0) ∧ (∀ x, s'.vm.map.grantsAt x = m.grantsAt x) ∧
      s'.vm.map.EndsBelow) s := by
    refine .ite (fun hd => ?_) fun _ => .ret ⟨h.faultFree, h.paid, h.grants, h.ends⟩
    have hcall := machVmProtect_of_all h.faultFree (h.payable hd)
    refine .bind <| Partial.Post.mono ?_ fun kr t ht => .ite (fun _ => .ret ht) fun _ => .ret ht
    intro kr s' hrun
    cases hrun
    beta_reduce
    rw [hcall]
    refine ⟨h.faultFree, fun kr hkr => ?_, fun x => ?_, h.ends.protect _ _ _⟩
    · rcases List.mem_append.mp hkr with hkr | hkr
      · exact h.paid kr hkr
      · exact List.mem_singleton.mp hkr
    · exact (AddressMap.grantsAt_protect _ _ _ _ _).trans (h.grants x)
  have hrestore : Partial.Post r.restoreProtections (fun _ s' => Solvent m g {} s') s := by
    intro p s' hrun
    obtain ⟨hk, hpaid, hgrants, hends⟩ := hrest p s' hrun
    exact ⟨restoreProtections_post h.tracked p s' hrun, hk, hpaid, hgrants, hends,
      fun hd => absurd hd MachVMRegion.not_dirty⟩
  exact .bind <| hrestore.mono fun _ _ ht => .ret ⟨rfl, ht⟩

/-- `GetRegionForAddress` pays what the object owes. -/
theorem getRegionForAddress_solvent (a : Addr) (h : Solvent m g r s) :
    Partial.Post (r.getRegionForAddress a) (fun p s' => Solvent m g p.2 s' ∧
      (p.1 = true → ∃ x, Describes p.2 a s'.vm x)) s := by
  have hsolvent : Partial.Post (r.getRegionForAddress a) (fun p s' => Solvent m g p.2 s') s := by
    refine .bind <| (clear_solvent h).mono ?_
    rintro r' t ⟨rfl, ht⟩
    refine .bind ?_
    intro answer u hu
    have hsame := vmCall_sameMap (machVmRegionRecurse_sameMap a) t answer u hu
    have hsizes := vmCall_sameSizes (machVmRegionRecurse_sameSizes a) t answer u hu
    have hu' := ht.of_sameMap hsame hsizes.vm.1
    have hfresh (region : MachVMRegion) (hr : region.mProtectionSize = 0) : Solvent m g region u :=
      hu'.of_clean MachVMRegion.not_dirty fun hd => absurd hd.2 (by rw [hr]; decide)
    cases answer with
    | error kr => exact .ret (hfresh _ rfl)
    | ok x => exact .ret (hfresh _ rfl)
  exact fun p s' hrun => ⟨hsolvent p s' hrun, (getRegionForAddress_post a h.tracked p s' hrun).2⟩

/-- `SetProtections` changes a range that can be restored. -/
theorem setProtections_solvent {a : Addr} {x : Region} (size : BitVec 64) (h : Solvent m g r s)
    (hd : Describes r a s.vm x) (hg : 0 < g) (hplain : m.Plain) (hself : m.SelfGranting) :
    Partial.Post (r.setProtections a size (vmProtRead ||| vmProtWrite))
      (fun p s' => Solvent m g p.2 s') s := by
  have hclean : ¬ r.Dirty := fun hdirty => absurd hdirty.2 (by rw [hd.size]; decide)
  have htracked := setProtections_post size h.tracked hd hg hplain
  have hrest : Partial.Post (r.setProtections a size (vmProtRead ||| vmProtWrite)) (fun p s' =>
      (∀ kr ∈ s'.vm.restores, kr = 0) ∧ (∀ x, s'.vm.map.grantsAt x = m.grantsAt x) ∧
      s'.vm.map.EndsBelow ∧ p.2.Payable s'.vm) s := by
    have hsame : (∀ kr ∈ s.vm.restores, kr = 0) ∧ (∀ x, s.vm.map.grantsAt x = m.grantsAt x) ∧
        s.vm.map.EndsBelow ∧ r.Payable s.vm := ⟨h.paid, h.grants, h.ends, h.payable⟩
    refine .ite (fun _ => ?_) fun _ => .ret hsame
    simp only
    set protSize := if r.endAddress - a < size then r.endAddress - a else size with hsize
    refine .ite (fun hpos => .ite (fun _ => .ret hsame) fun hne => ?_) fun _ => .ret hsame
    have hend : a.toNat + protSize.toNat ≤ x.start + x.size := by
      have hx := (AddressMap.find_eq_some_iff.mp hd.find).2.2
      rw [hsize, Vm.toNat_min, hd.toNat_endAddress_sub]
      omega
    refine .bind <| (protectOrCopy_post a protSize _ s).mono ?_
    rintro kr t ⟨hgt, hrt, ⟨hkr, hmap⟩ | ⟨hkr, q, hmap⟩⟩
    · refine .ite (fun h0 => absurd h0 hkr) fun _ => .ret ?_
      rw [hrt, hmap]
      exact ⟨h.paid, h.grants, h.ends, fun hdirty => absurd hdirty hclean⟩
    · refine .ite (fun _ => .ret ?_) fun h0 => absurd hkr h0
      rw [hrt, hmap]
      have hgrants (y : ℕ) : (s.vm.map.protect (s.vm.truncPage a.toNat)
          (s.vm.roundPage (a.toNat + protSize.toNat)) q).grantsAt y = m.grantsAt y :=
        (AddressMap.grantsAt_protect _ _ _ _ _).trans (h.grants y)
      refine ⟨h.paid, hgrants, h.ends.protect _ _ _, fun _ => ?_⟩
      -- the region that was changed can be given the protection that was saved
      have hx : x.grants r.mDataProtection = true := by
        rw [hd.data]
        exact hself.grants_of_same (h.protectionAt hclean _) (h.grants _) hd.find
      simp only [MachVMRegion.restoredEnd, Vm.truncPage, Vm.roundPage, hgt, hmap]
      refine AddressMap.all_grants_of_grantsAt fun y hlo hhi => ?_
      have hfind := hd.range (h.tracked.granularity ▸ hg)
        (h.tracked.granularity ▸ h.tracked.aligned)
        hend ⟨hlo, hhi⟩
      rw [AddressMap.grantsAt_protect, AddressMap.grantsAt, hfind]
      exact hx
  intro p s' hrun
  obtain ⟨hpaid, hgrants, hends, hpay⟩ := hrest p s' hrun
  have hfaults := (MachVMRegion.setProtections_sameSizes r a size _ s p s' hrun).vm.1
  exact ⟨htracked p s' hrun, fun c n => by rw [hfaults]; exact h.faultFree c n, hpaid, hgrants,
    hends,
    hpay⟩

/-- The loop of `Write` keeps the object solvent. -/
theorem writeLoop_solvent (inner : ℕ) (task : Port) (dataCount : BitVec 64) (fuel : ℕ)
    (region : MachVMRegion) (total : BitVec 64) (a : Addr) (data : Option (List Byte)) (hg : 0 < g)
    (hplain : m.Plain) (hself : m.SelfGranting) (h : Solvent m g region s) :
    Partial.Post (MachVMMemory.writeLoop inner task dataCount fuel region total a data)
      (fun p s' => Solvent m g p.2 s') s := by
  induction fuel generalizing region total a data s with
  | zero => exact .diverge
  | succ fuel ih =>
    unfold MachVMMemory.writeLoop
    refine .ite (fun _ => ?_) fun _ => .ret h
    refine .bind <| (getRegionForAddress_solvent a h).mono ?_
    rintro ⟨found, region⟩ t ⟨ht, hfound⟩
    refine .ite (fun hf => .ite (fun _ => .ret ht) fun _ => ?_) fun _ => .ret ht
    obtain ⟨x, hx⟩ := hfound hf
    refine .bind <| (setProtections_solvent _ ht hx hg hplain hself).mono ?_
    rintro ⟨ok, region⟩ u hu
    refine .ite (fun _ => .bind ?_) fun _ => .ret hu
    intro n w hrun
    have hsame := MachVMMemory.writeRegion_sameMap inner task a data _ u n w hrun
    have hkept := writeRegion_sizeKept inner a data _ u n w hrun
    have hw := hu.of_sameMap hsame hkept.faults
    exact .ite (fun _ => .ret hw) fun _ => ih _ _ _ _ hw

/-- **A write leaves all protections as they were**, and what each address can be given. -/
theorem MachTask.writeMemory_solvent (t : MachTask) (fuel : ℕ) (a : Addr) (size : BitVec 64)
    (buf : Option (List Byte)) (hg : 0 < g) (hplain : m.Plain) (hself : m.SelfGranting)
    (h : Solvent m g {} s) :
    Partial.Post (t.writeMemory fuel a size buf) (fun _ s' => Solvent m g {} s') s := by
  refine .ite (fun _ => ?_) fun _ => .ret h
  refine .bind <| (writeLoop_solvent fuel t.mTask size fuel {} 0 a buf hg hplain hself h).mono ?_
  intro p u hu
  exact .bind <| (clear_solvent hu).mono fun _ _ hw => .ret hw.2

end Solvent

end MachDebug
