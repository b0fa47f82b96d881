import MachDebug.Memory.MachVMMemory
import MachDebug.Memory.Regions

/-!
# Protections are restored

A write makes the pages it needs writable, one region at a time, and the region object remembers
the range it has changed with the protection it had before. There is never more than one such
range: the object restores it before it asks for the next region, and when it is destroyed. The
range lies inside one region, so one protection describes it, although the map has been cut there.

## Main definitions

* `SameMap s s'`: the map and the answers to the restoring calls are as before
* `Owes m r v`: once the object `r` has restored its range, the protections are those of `m`

## Main results

* `writeRegion_sameMap`: the inner loop leaves the map alone
* `restoreProtections_post`, `getRegionForAddress_post`, `setProtections_post`: what the region
  object owes
* `MachVMMemory.write_protections`: the protections after a write
-/

namespace MachDebug

open Program

/-! ## Calls that leave the map alone -/

/-- The map and the answers to the restoring calls are as before. -/
structure SameMap (s s' : VmState) : Prop where
  map : s'.vm.map = s.vm.map
  granularity : s'.vm.granularity = s.vm.granularity
  restores : s'.vm.restores = s.vm.restores

instance : Std.Refl SameMap := ⟨fun _ => ⟨rfl, rfl, rfl⟩⟩

instance : IsTrans VmState SameMap :=
  ⟨fun _ _ _ h h' => ⟨h'.map.trans h.map, h'.granularity.trans h.granularity,
    h'.restores.trans h.restores⟩⟩

/-- Two memories have the same map and the same answers to the restoring calls. -/
def Vm.SameMap (v v' : Vm) : Prop :=
  v'.map = v.map ∧ v'.granularity = v.granularity ∧ v'.restores = v.restores

theorem vmCall_sameMap {β : Type} {f : Vm → β × Vm} (h : ∀ v : Vm, v.SameMap (f v).2) :
    Partial.Keeps SameMap (vmCall f) := by
  rintro s a s' hrun
  cases hrun
  obtain ⟨hmap, hg, hr⟩ := h s.vm
  exact ⟨hmap, hg, hr⟩

/-- A change that is not to the memory of the target. -/
theorem modify_sameMap {f : VmState → VmState} (h : ∀ s, (f s).vm = s.vm) :
    Partial.Keeps SameMap (modify f : VmM Unit) := by
  rintro s u s' hrun
  cases hrun
  exact ⟨by rw [h], by rw [h], by rw [h]⟩

theorem get_sameMap : Partial.Keeps SameMap (get : VmM VmState) := by
  rintro s t s' hrun
  cases hrun
  exact refl_of SameMap _

theorem setErr_sameMap (kr : KernReturn) : Partial.Keeps SameMap (setErr kr) :=
  modify_sameMap fun _ => rfl

theorem setPageSize_sameMap (size : BitVec 64) : Partial.Keeps SameMap (setPageSize size) :=
  modify_sameMap fun _ => rfl

/-- A call whose work leaves the map alone. -/
theorem Vm.issue_sameMap {β : Type} {v : Vm} {c : VmCall} {fail : KernReturn → β}
    {act : Vm → β × Vm} (h : ∀ v : Vm, v.SameMap (act v).2) : v.SameMap (v.issue c fail act).2 :=
  Vm.issue_ind (M := fun r : β × Vm => v.SameMap r.2) (fun _ _ => ⟨rfl, rfl, rfl⟩) (h (v.tally c))

theorem machVmRegionRecurse_sameMap (a : Addr) (v : Vm) :
    v.SameMap (v.machVmRegionRecurse a).2 := by
  refine Vm.issue_sameMap ?_
  intro v
  split <;> exact ⟨rfl, rfl, rfl⟩

theorem machVmWrite_sameMap (a : Addr) (bytes : List Byte) (v : Vm) :
    v.SameMap (v.machVmWrite a bytes).2 := by
  refine Vm.issue_sameMap ?_
  intro v
  simp only
  split
  · split <;> exact ⟨rfl, rfl, rfl⟩
  · exact ⟨rfl, rfl, rfl⟩

theorem vmMachineAttribute_sameMap (a : Addr) (size : BitVec 64) (v : Vm) :
    v.SameMap (v.vmMachineAttribute a size).2 := by
  refine Vm.issue_sameMap ?_
  intro v
  simp only
  split <;> exact ⟨rfl, rfl, rfl⟩

namespace MachVMMemory

theorem hostPageSize_sameMap : Partial.Keeps SameMap hostPageSize :=
  .bind (vmCall_sameMap fun _ => Vm.issue_sameMap fun _ => ⟨rfl, rfl, rfl⟩) fun _ =>
    .bind (setErr_sameMap _) fun _ => .bind (setPageSize_sameMap _) fun _ => .ret _

theorem pageSize_sameMap (task : Port) : Partial.Keeps SameMap (pageSize task) := by
  refine .bind get_sameMap fun s => .ite (.ite (.bind ?_ fun r => ?_) hostPageSize_sameMap) (.ret _)
  · exact vmCall_sameMap fun _ => Vm.issue_sameMap fun _ => ⟨rfl, rfl, rfl⟩
  · exact .ite (.bind (setPageSize_sameMap _) fun _ => .ret _) hostPageSize_sameMap

theorem maxBytesLeftInPage_sameMap (task : Port) (a : Addr) (count : BitVec 64) :
    Partial.Keeps SameMap (maxBytesLeftInPage task a count) :=
  .bind (pageSize_sameMap task) fun _ => .ite (.ret _) (.ret _)

theorem writePiece_sameMap (a : Addr) (bytes : List Byte) (count : BitVec 64) :
    Partial.Keeps SameMap (writePiece a bytes count) := by
  refine .bind ?_ fun kr => .bind (setErr_sameMap kr) fun _ => .bind ?_ fun kr' =>
    .bind (setErr_sameMap kr') fun _ => .bind get_sameMap fun _ => .ret _
  · exact vmCall_sameMap (machVmWrite_sameMap _ _)
  · exact vmCall_sameMap (vmMachineAttribute_sameMap _ _)

theorem writeRegionLoop_sameMap (task : Port) (dataCount : BitVec 64) (fuel : ℕ)
    (total : BitVec 64) (a : Addr) (bytes : List Byte) :
    Partial.Keeps SameMap (writeRegionLoop task dataCount fuel total a bytes) := by
  induction fuel generalizing total a bytes with
  | zero => exact fun _ => .diverge
  | succ fuel ih =>
    refine .ite (.bind (maxBytesLeftInPage_sameMap _ _ _) fun left => ?_) (.ret _)
    exact .bind (writePiece_sameMap _ _ _) fun ok => .ite (ih _ _ _) (.ret _)

/-- The inner loop leaves the map alone. -/
theorem writeRegion_sameMap (fuel : ℕ) (task : Port) (a : Addr) (data : Option (List Byte))
    (dataCount : BitVec 64) : Partial.Keeps SameMap (writeRegion fuel task a data dataCount) := by
  cases data with
  | none => exact .ret _
  | some bytes => exact .ite (.ret _) (writeRegionLoop_sameMap _ _ _ _ _ _)

end MachVMMemory

/-! ## What the region object owes -/

/-- `mach_vm_protect` fails and changes nothing, or changes the protection of all pages that its
range touches. -/
theorem machVmProtect_cases (v : Vm) (a : Addr) (size : BitVec 64) (prot : VmProt) :
    ((v.machVmProtect a size prot).1 ≠ 0 ∧ (v.machVmProtect a size prot).2 = v.tally .protect) ∨
    ((v.machVmProtect a size prot).1 = 0 ∧ (v.machVmProtect a size prot).2 =
      { v.tally .protect with
        map := v.map.protect (v.truncPage a.toNat) (v.roundPage (a.toNat + size.toNat))
          (prot &&& ~~~vmProtCopy) }) := by
  refine Vm.issue_ind (M := fun r : KernReturn × Vm => (r.1 ≠ 0 ∧ r.2 = v.tally .protect) ∨
    (r.1 = 0 ∧ r.2 = { v.tally .protect with
      map := v.map.protect (v.truncPage a.toNat) (v.roundPage (a.toNat + size.toNat))
        (prot &&& ~~~vmProtCopy) })) (fun e he => .inl ⟨he, rfl⟩) ?_
  simp only
  split
  · split
    · exact .inr ⟨rfl, rfl⟩
    · exact .inl ⟨kernProtectionFailure_ne_zero, rfl⟩
  · exact .inl ⟨kernInvalidAddress_ne_zero, rfl⟩

/-- `VM_PROT_COPY` is a request to the kernel and not a protection of any region. -/
def AddressMap.Plain (m : AddressMap) : Prop := ∀ r ∈ m.regions, r.protection &&& vmProtCopy = 0

theorem and_not_of_and_eq_zero {p c : VmProt} (h : p &&& c = 0) : p &&& ~~~c = p := by
  apply BitVec.eq_of_getLsbD_eq
  intro i hi
  have hbit : (p &&& c).getLsbD i = false := by rw [h]; exact BitVec.getLsbD_zero
  rw [BitVec.getLsbD_and] at hbit
  rw [BitVec.getLsbD_and, BitVec.getLsbD_not]
  cases hp : p.getLsbD i <;> simp_all

/-- The region object is to restore a range. -/
def MachVMRegion.Dirty (r : MachVMRegion) : Prop :=
  r.mCurrProtection ≠ r.mDataProtection ∧ 0 < r.mProtectionSize

instance (r : MachVMRegion) : Decidable r.Dirty := inferInstanceAs (Decidable (_ ∧ _))

/-- A new region object has nothing to restore. -/
theorem MachVMRegion.not_dirty : ¬ (({} : MachVMRegion)).Dirty := by decide

/-- The map after the region object has restored its range. -/
def MachVMRegion.restoredMap (r : MachVMRegion) (v : Vm) : AddressMap :=
  if r.Dirty then
    v.map.protect (v.truncPage r.mProtectionAddr.toNat)
      (v.roundPage (r.mProtectionAddr.toNat + r.mProtectionSize.toNat))
      (r.mDataProtection &&& ~~~vmProtCopy)
  else v.map

/-- Once the region object has restored its range, the protections are those of `m`. -/
def Owes (m : AddressMap) (r : MachVMRegion) (v : Vm) : Prop :=
  ∀ x, (r.restoredMap v).protectionAt x = m.protectionAt x

/-- The invariant of the write loop: pages of a fixed size, and, while the restoring calls succeed,
protections that the region object still knows. -/
structure Tracked (m : AddressMap) (g : ℕ) (r : MachVMRegion) (s : VmState) : Prop where
  granularity : s.vm.granularity = g
  aligned : s.vm.map.Aligned g
  owes : (∀ kr ∈ s.vm.restores, kr = 0) → Owes m r s.vm

section Tracked

variable {m : AddressMap} {g : ℕ} {r : MachVMRegion} {s s' : VmState}

theorem Tracked.of_sameMap (h : Tracked m g r s) (hq : SameMap s s') : Tracked m g r s' := by
  refine ⟨hq.granularity.trans h.granularity, hq.map ▸ h.aligned, fun hz => ?_⟩
  have howes := h.owes (hq.restores ▸ hz)
  simpa only [Owes, MachVMRegion.restoredMap, Vm.truncPage, Vm.roundPage, hq.map, hq.granularity]
    using howes

/-- A region object that owes nothing. -/
theorem Owes.of_clean {v : Vm} {r' : MachVMRegion} (h : Owes m r v) (hr : ¬ r.Dirty)
    (hr' : ¬ r'.Dirty) : Owes m r' v := by
  simpa only [Owes, MachVMRegion.restoredMap, if_neg hr, if_neg hr'] using h

/-- Restoring pays what the object owes. -/
theorem restoreProtections_post (h : Tracked m g r s) :
    Partial.Post r.restoreProtections (fun _ s' => Tracked m g {} s') s := by
  refine .ite (fun hd => ?_) fun hd => ?_
  · have hrun : Partial.Post (machVmRestore r.mProtectionAddr r.mProtectionSize r.mDataProtection)
        (fun _ s' => Tracked m g {} s') s := by
      rintro kr s' hrun
      cases hrun
      rcases machVmProtect_cases s.vm r.mProtectionAddr r.mProtectionSize r.mDataProtection with
        ⟨hkr, hv⟩ | ⟨hkr, hv⟩
      · rw [hv]
        refine ⟨h.granularity, h.aligned, fun hz => absurd (hz _ ?_) hkr⟩
        exact List.mem_append_right _ (List.mem_singleton_self _)
      · rw [hv]
        refine ⟨h.granularity, ?_, fun hz => ?_⟩
        · exact h.aligned.protect (h.granularity ▸ Vm.dvd_truncPage _ _)
            (h.granularity ▸ Vm.dvd_roundPage _ _) _
        · have howes := h.owes fun kr hkr => hz kr (List.mem_append_left _ hkr)
          simpa only [Owes, MachVMRegion.restoredMap, if_pos (show r.Dirty from hd),
            if_neg MachVMRegion.not_dirty] using howes
    refine .bind <| hrun.mono fun kr t ht => .ite (fun _ => .ret ht) fun _ => .ret ht
  · exact .ret ⟨h.granularity, h.aligned, fun hz => (h.owes hz).of_clean hd MachVMRegion.not_dirty⟩

theorem clear_post (h : Tracked m g r s) :
    Partial.Post r.clear (fun r' s' => r' = {} ∧ Tracked m g {} s') s :=
  .bind <| (restoreProtections_post h).mono fun _ _ ht => .ret ⟨rfl, ht⟩

/-- The region object describes the region of an address, and has changed nothing yet. -/
structure Describes (r : MachVMRegion) (a : Addr) (v : Vm) (x : Region) : Prop where
  find : v.map.find a.toNat = some x
  start : r.mStart.toNat = x.start
  finish : r.endAddress.toNat = x.start + x.size
  data : r.mDataProtection = x.protection
  curr : r.mCurrProtection = x.protection
  size : r.mProtectionSize = 0

/-- The answer of the kernel describes the region of the address when `GetRegionForAddress` finds
it there: a region that ends with the address space is never found. -/
theorem describes_of_found (err : DNBError) {a : Addr} {v : Vm} {x : Region}
    (hx : v.map.next a.toNat = some x)
    (hfound : ¬ (a < BitVec.ofNat 64 x.start ∨
      BitVec.ofNat 64 x.start + BitVec.ofNat 64 x.size ≤ a)) :
    Describes { mErr := err, mStart := BitVec.ofNat 64 x.start, mSize := BitVec.ofNat 64 x.size
                mDataProtection := x.protection, mCurrProtection := x.protection } a v x := by
  have hpos := x.size_pos
  have hend := x.end_le
  have hmem := List.mem_of_find?_eq_some hx
  have ha := a.isLt
  have hcontains : a.toNat < x.start + x.size := by simpa using List.find?_some hx
  have hstart : (BitVec.ofNat 64 x.start).toNat = x.start := by
    rw [BitVec.toNat_ofNat]
    omega
  simp only [BitVec.lt_def, BitVec.le_def, BitVec.toNat_add, BitVec.toNat_ofNat, not_or, not_lt,
    not_le] at hfound
  have hfinish : (BitVec.ofNat 64 x.start + BitVec.ofNat 64 x.size).toNat = x.start + x.size := by
    rw [BitVec.toNat_add, BitVec.toNat_ofNat, BitVec.toNat_ofNat]
    omega
  refine ⟨AddressMap.find_eq_some_iff.mpr ⟨hmem, ?_, hcontains⟩, hstart, hfinish, rfl, rfl, rfl⟩
  omega

theorem machVmRegionRecurse_ok {v : Vm} {a : Addr} {x : Region}
    (h : (v.machVmRegionRecurse a).1 = .ok x) : v.map.next a.toNat = some x := by
  revert h
  refine Vm.issue_ind (M := fun r : Except KernReturn Region × Vm =>
    r.1 = .ok x → v.map.next a.toNat = some x) (fun _ _ h => by cases h) ?_
  split
  · rename_i y hy
    intro h
    cases h
    exact hy
  · intro h
    cases h

/-- `GetRegionForAddress` pays what the object owes, and describes the region it finds. -/
theorem getRegionForAddress_post (a : Addr) (h : Tracked m g r s) :
    Partial.Post (r.getRegionForAddress a) (fun p s' => Tracked m g p.2 s' ∧
      (p.1 = true → ∃ x, Describes p.2 a s'.vm x)) s := by
  refine .bind <| (clear_post h).mono ?_
  intro r' t ht
  obtain ⟨rfl, ht⟩ := ht
  have hrecurse : Partial.Post (vmCall (·.machVmRegionRecurse a)) (fun answer s' =>
      Tracked m g {} s' ∧ ∀ x, answer = .ok x → s'.vm.map.next a.toNat = some x) t := by
    intro answer s' hrun
    have hsame := vmCall_sameMap (machVmRegionRecurse_sameMap a) t answer s' hrun
    cases hrun
    refine ⟨ht.of_sameMap hsame, fun x hx => ?_⟩
    rw [hsame.map]
    exact machVmRegionRecurse_ok hx
  refine .bind <| hrecurse.mono ?_
  intro answer u hu
  obtain ⟨hu, hnext⟩ := hu
  have hfresh (region : MachVMRegion) (hr : region.mProtectionSize = 0) : Tracked m g region u :=
    ⟨hu.granularity, hu.aligned, fun hz => (hu.owes hz).of_clean (by decide)
      fun hd => absurd hd.2 (by simp [hr])⟩
  cases answer with
  | error kr => exact .ret ⟨hfresh _ rfl, fun hf => by simp at hf⟩
  | ok x =>
    refine .ret ⟨hfresh _ rfl, fun hf => ⟨x, describes_of_found _ (hnext x rfl) ?_⟩⟩
    simpa using hf

theorem Describes.containsAddress {a : Addr} {v : Vm} {x : Region} (h : Describes r a v x) :
    r.containsAddress a = true := by
  have hx := (AddressMap.find_eq_some_iff.mp h.find).2
  have hstart : r.mStart.toNat ≤ a.toNat := h.start ▸ hx.1
  have hend : a.toNat < r.endAddress.toNat := h.finish ▸ hx.2
  simp only [MachVMRegion.containsAddress, Bool.and_eq_true, decide_eq_true_eq]
  exact ⟨hstart, hend⟩

/-- The bytes from the address to the end of the region. -/
theorem Describes.toNat_endAddress_sub {a : Addr} {v : Vm} {x : Region} (h : Describes r a v x) :
    (r.endAddress - a).toNat = x.start + x.size - a.toNat := by
  have hx := (AddressMap.find_eq_some_iff.mp h.find).2
  have hend : a.toNat < r.endAddress.toNat := h.finish ▸ hx.2
  rw [← h.finish]
  bv_omega

/-- `SetProtections` does not cut a range that ends inside the region. -/
theorem Describes.protSize_eq {a : Addr} {v : Vm} {x : Region} (h : Describes r a v x)
    {size : BitVec 64} (hsize : a.toNat + size.toNat ≤ x.start + x.size) :
    (if r.endAddress - a < size then r.endAddress - a else size) = size := by
  refine if_neg (Nat.not_lt.mpr ?_)
  rw [h.toNat_endAddress_sub]
  omega

/-- The range of a change lies inside the region that the object describes. -/
theorem Describes.range {a : Addr} {v : Vm} {x : Region} {n : ℕ} (h : Describes r a v x)
    (hg : 0 < v.granularity) (hal : v.map.Aligned v.granularity)
    (hn : a.toNat + n ≤ x.start + x.size) {y : ℕ}
    (hy : v.truncPage a.toNat ≤ y ∧ y < v.roundPage (a.toNat + n)) :
    v.map.find y = some x := by
  obtain ⟨hmem, hx⟩ := AddressMap.find_eq_some_iff.mp h.find
  obtain ⟨hstart, hend⟩ := hal x hmem
  have hlo := v.le_truncPage hstart hx.1
  have hhi := v.roundPage_le hg hend hn
  exact AddressMap.find_eq_some_iff.mpr ⟨hmem, by omega, by omega⟩

/-- The protection that was changed is the one that the object has saved. -/
theorem Tracked.protectionAt_range {a : Addr} {x : Region} {n : ℕ} (h : Tracked m g r s)
    (hd : Describes r a s.vm x) (hz : ∀ kr ∈ s.vm.restores, kr = 0) (hg : 0 < g)
    (hplain : m.Plain) (hn : a.toNat + n ≤ x.start + x.size) (q : VmProt) (y : ℕ) :
    ((s.vm.map.protect (s.vm.truncPage a.toNat) (s.vm.roundPage (a.toNat + n)) q).protect
      (s.vm.truncPage a.toNat) (s.vm.roundPage (a.toNat + n))
      (r.mDataProtection &&& ~~~vmProtCopy)).protectionAt y = m.protectionAt y := by
  have hclean : ¬ r.Dirty := fun hdirty => by simpa [hd.size] using hdirty.2
  have horig (y : ℕ) : s.vm.map.protectionAt y = m.protectionAt y := by
    simpa only [Owes, MachVMRegion.restoredMap, if_neg hclean] using h.owes hz y
  -- the saved protection is one of the original map
  have hcopy : r.mDataProtection &&& ~~~vmProtCopy = r.mDataProtection := by
    have hsome : m.protectionAt a.toNat = some r.mDataProtection := by
      rw [← horig, AddressMap.protectionAt, hd.find, hd.data]
      rfl
    obtain ⟨x₀, hx₀, hprot⟩ := Option.map_eq_some_iff.mp hsome
    rw [← hprot]
    exact and_not_of_and_eq_zero (hplain x₀ (AddressMap.find_eq_some_iff.mp hx₀).1)
  rw [AddressMap.protectionAt_protect, AddressMap.protectionAt_protect, ← horig]
  split
  · rename_i hy
    have hfind := hd.range (h.granularity ▸ hg) (h.granularity ▸ h.aligned) hn hy
    rw [AddressMap.protectionAt, hfind, Option.map_some, Option.map_some, Option.map_some, hcopy,
      hd.data]
  · rfl

/-- The map after a change of protection that was tried twice: as before, or changed to some
protection on all pages that the range touches. -/
def Protected (a : Addr) (size : BitVec 64) (s : VmState) (kr : KernReturn) (s' : VmState) : Prop :=
  s'.vm.granularity = s.vm.granularity ∧ s'.vm.restores = s.vm.restores ∧
    ((kr ≠ 0 ∧ s'.vm.map = s.vm.map) ∨ (kr = 0 ∧ ∃ q, s'.vm.map = s.vm.map.protect
      (s.vm.truncPage a.toNat) (s.vm.roundPage (a.toNat + size.toNat)) q))

theorem machVmProtect_post (a : Addr) (size : BitVec 64) (prot : VmProt) (s : VmState) :
    Partial.Post (vmCall (·.machVmProtect a size prot)) (Protected a size s) s := by
  rintro kr s' hrun
  cases hrun
  rcases machVmProtect_cases s.vm a size prot with ⟨hkr, hv⟩ | ⟨hkr, hv⟩ <;> rw [hv]
  · exact ⟨rfl, rfl, .inl ⟨hkr, rfl⟩⟩
  · exact ⟨rfl, rfl, .inr ⟨hkr, _, rfl⟩⟩

theorem protectOrCopy_post (a : Addr) (size : BitVec 64) (prot : VmProt) (s : VmState) :
    Partial.Post (MachVMRegion.protectOrCopy a size prot) (Protected a size s) s := by
  refine .bind <| (machVmProtect_post a size prot s).mono ?_
  intro kr t ht
  refine .ite (fun hkr => ?_) fun _ => .ret ht
  -- the first try has failed, so the second one starts from the same map
  obtain ⟨hg, hr, ⟨-, hmap⟩ | ⟨h0, -⟩⟩ := ht
  · refine (machVmProtect_post a size (prot ||| vmProtCopy) t).mono ?_
    intro kr' u hu
    simpa only [Protected, Vm.truncPage, Vm.roundPage, hg, hr, hmap] using hu
  · exact absurd h0 hkr

/-- `SetProtections` remembers what it has changed. -/
theorem setProtections_post {a : Addr} {x : Region} (size : BitVec 64) (h : Tracked m g r s)
    (hd : Describes r a s.vm x) (hg : 0 < g) (hplain : m.Plain) :
    Partial.Post (r.setProtections a size (vmProtRead ||| vmProtWrite))
      (fun p s' => Tracked m g p.2 s') s := by
  refine .ite (fun _ => ?_) fun _ => .ret h
  simp only
  set protSize := if r.endAddress - a < size then r.endAddress - a else size with hsize
  refine .ite (fun hpos => .ite (fun _ => .ret h) fun hne => ?_) fun _ => .ret h
  have hend : a.toNat + protSize.toNat ≤ x.start + x.size := by
    have hx := (AddressMap.find_eq_some_iff.mp hd.find).2.2
    rw [hsize, Vm.toNat_min, hd.toNat_endAddress_sub]
    omega
  refine .bind <| (protectOrCopy_post a protSize _ s).mono ?_
  intro kr t ht
  obtain ⟨hgt, hrt, hmap⟩ := ht
  refine .ite (fun hkr => .ret ?_) fun hkr => .ret ?_
  · obtain ⟨h0, -⟩ | ⟨-, q, hmap⟩ := hmap
    · exact absurd hkr h0
    · refine ⟨hgt.trans h.granularity, ?_, fun hz y => ?_⟩
      · rw [hmap]
        exact h.aligned.protect (h.granularity ▸ Vm.dvd_truncPage _ _)
          (h.granularity ▸ Vm.dvd_roundPage _ _) _
      -- the new protection differs from the saved one, so the object will restore it
      · have hdirty : MachVMRegion.Dirty { r with
            mErr := .ofKern kr, mCurrProtection := vmProtRead ||| vmProtWrite
            mProtectionAddr := a, mProtectionSize := protSize } := by
          refine ⟨fun he => hne ?_, hpos⟩
          rw [hd.curr, ← hd.data, ← show vmProtRead ||| vmProtWrite = r.mDataProtection from he]
          decide
        have hrange := h.protectionAt_range hd (hrt ▸ hz) hg hplain hend q y
        rw [MachVMRegion.restoredMap, if_pos hdirty, hmap]
        simpa only [Vm.truncPage, Vm.roundPage, hgt] using hrange
  · obtain ⟨-, hmap⟩ | ⟨h0, -⟩ := hmap
    · obtain ⟨hgt', halt', howes⟩ := h.of_sameMap ⟨hmap, hgt, hrt⟩
      exact ⟨hgt', halt', howes⟩
    · exact absurd h0 hkr

/-- The loop of `Write` keeps the invariant. -/
theorem writeLoop_tracked (inner : ℕ) (task : Port) (dataCount : BitVec 64) (fuel : ℕ)
    (region : MachVMRegion) (total : BitVec 64) (a : Addr) (data : Option (List Byte)) (hg : 0 < g)
    (hplain : m.Plain) (h : Tracked m g region s) :
    Partial.Post (MachVMMemory.writeLoop inner task dataCount fuel region total a data)
      (fun p s' => Tracked m g p.2 s') s := by
  induction fuel generalizing region total a data s with
  | zero => exact .diverge
  | succ fuel ih =>
    unfold MachVMMemory.writeLoop
    refine .ite (fun _ => ?_) fun _ => .ret h
    refine .bind <| (getRegionForAddress_post a h).mono ?_
    rintro ⟨found, region⟩ t ⟨ht, hfound⟩
    refine .ite (fun hf => .ite (fun _ => .ret ht) fun _ => ?_) fun _ => .ret ht
    obtain ⟨x, hx⟩ := hfound hf
    refine .bind <| (setProtections_post _ ht hx hg hplain).mono ?_
    rintro ⟨ok, region⟩ u hu
    refine .ite (fun _ => ?_) fun _ => .ret hu
    refine .bind <| (MachVMMemory.writeRegion_sameMap inner task a data _ u).mono ?_
    intro n v hq
    exact .ite (fun _ => .ret (hu.of_sameMap hq)) fun _ => ih _ _ _ _ (hu.of_sameMap hq)

end Tracked

/-- **A write restores every protection**: whatever calls fail, as long as the calls that restore a
protection succeed, the protection of every address is the one from before when `Write` has
returned. -/
theorem MachVMMemory.write_protections (fuel : ℕ) (task : Port) (a : Addr)
    (data : Option (List Byte)) (dataCount : BitVec 64) (vm : Vm) (memory : MachVMMemory)
    (hg : 0 < vm.granularity) (hal : vm.map.Aligned vm.granularity) (hplain : vm.map.Plain)
    (n : BitVec 64) (s' : VmState)
    (h : (MachVMMemory.write fuel task a data dataCount).run
      ⟨{ vm with restores := [] }, memory⟩ = some (n, s'))
    (hrestores : ∀ kr ∈ s'.vm.restores, kr = 0) (x : ℕ) :
    s'.vm.map.protectionAt x = vm.map.protectionAt x := by
  have hstart : Tracked vm.map vm.granularity {} ⟨{ vm with restores := [] }, memory⟩ :=
    ⟨rfl, hal, fun _ _ => rfl⟩
  have hpost : Partial.Post (MachVMMemory.write fuel task a data dataCount)
      (fun _ s' => Tracked vm.map vm.granularity {} s')
      ⟨{ vm with restores := [] }, memory⟩ := by
    refine .bind <| (writeLoop_tracked fuel task dataCount fuel {} 0 a data hg hplain
      hstart).mono ?_
    intro p t ht
    exact .bind <| (clear_post ht).mono fun _ _ hu => .ret hu.2
  exact (hpost n s' h).owes hrestores x

/-- A memory with a page of read-only data and a page of code after it. -/
def Vm.dataAndCode (faults : VmCall → ℕ → Option {e : KernReturn // e ≠ 0#32}) : Vm where
  byte _ := 0
  map := ⟨[.page 1 1 fun _ => true, .page 2 5 fun _ => true], by simp [Region.Before, Region.page]⟩
  granularity := 16
  taskPageSize := 16
  hostPageSize := 16
  faults := faults
  calls _ := 0

theorem Vm.forall_dataAndCode {faults : VmCall → ℕ → Option {e : KernReturn // e ≠ 0#32}}
    {M : Region → Prop} (hdata : M (.page 1 1 fun _ => true))
    (hcode : M (.page 2 5 fun _ => true)) :
    ∀ r ∈ (Vm.dataAndCode faults).map.regions, M r := by
  intro r hr
  simp only [Vm.dataAndCode, List.mem_cons, List.not_mem_nil, or_false] at hr
  rcases hr with rfl | rfl
  · exact hdata
  · exact hcode

/-- The first change of a protection is refused, so that it is tried again with a copy. -/
def refusedProtect : VmCall → ℕ → Option {e : KernReturn // e ≠ 0#32}
  | .protect, 0 => some ⟨kernProtectionFailure, kernProtectionFailure_ne_zero⟩
  | _, _ => none

/-- A write across both pages leaves them with their protections. -/
theorem MachVMMemory.write_protections_dataAndCode : ∃ s',
    (MachVMMemory.write 5 1 30 (some [1, 2, 3, 4]) 4).run
      ⟨.dataAndCode refusedProtect, {}⟩ = some (4, s') ∧
    ∀ x, s'.vm.map.protectionAt x = (Vm.dataAndCode refusedProtect).map.protectionAt x := by
  have hrun : ((MachVMMemory.write 5 1 30 (some [1, 2, 3, 4]) 4).run
      ⟨.dataAndCode refusedProtect, {}⟩).map (fun r => (r.1, r.2.vm.restores)) =
      some (4, [0, 0]) := by
    decide +kernel
  obtain ⟨⟨n, s'⟩, hrun, hres⟩ := Option.map_eq_some_iff.mp hrun
  obtain ⟨rfl, hres⟩ := Prod.mk.inj hres
  refine ⟨s', hrun, MachVMMemory.write_protections 5 1 30 (some [1, 2, 3, 4]) 4
    (.dataAndCode refusedProtect) {} (by decide) (Vm.forall_dataAndCode (by decide) (by decide))
    (Vm.forall_dataAndCode (by decide) (by decide)) _ s' hrun ?_⟩
  simp only at hres
  simp [hres]

end MachDebug
