import MachDebug.Memory.RegionInfo
import MachDebug.Memory.Protections
import MachDebug.Memory.WritePieces

/-!
# Going through the address space

What `GetMemoryRegionInfo` tells about an address: without failures, the region of the address, or
the gap between two regions. A client that asks again at the end of what it was told goes through
the whole address space. A region that ends with the address space is told to be a gap, as the end
of the region wraps around.

## Main definitions

* `AddressMap.infoAt m describe a info`: the region or the gap of an address
* `layout describe a regions`: all regions and gaps from an address on
* `scan`: asking again at the end of what was told

## Main results

* `getMemoryRegionInfo_returns`: `GetMemoryRegionInfo` tells the region or the gap
* `getMemoryRegionInfo_permissions`: every address it tells about has these permissions
* `scan_eq_layout`: the scan meets every region and every gap once, in order
-/

namespace MachDebug

open Program

/-! ## Regions and gaps -/

/-- What is told about a region. -/
def Region.describe (q : PageQuery) (tags : Addr → RegionTags) (x : Region) : DNBRegionInfo :=
  { addr := BitVec.ofNat 64 x.start
    size := BitVec.ofNat 64 x.size
    permissions := dnbPermissions x.protection
    dirtyPages := (getDirtyPages q (BitVec.ofNat 64 x.start) (BitVec.ofNat 64 x.size)).getD []
    vmTypes := (tags (BitVec.ofNat 64 x.start)).getMemoryTypes x.protection }

/-- What is told about a gap. The pages and types are those of the record. -/
def gapInfo (info : DNBRegionInfo) (lo hi : ℕ) : DNBRegionInfo :=
  { info with addr := BitVec.ofNat 64 lo, size := BitVec.ofNat 64 (hi - lo), permissions := 0 }

/-- What is told about an address: its region, or the gap from there to the next region. The gap
above all regions ends below `INVALID_NUB_ADDRESS`. -/
def AddressMap.infoAt (m : AddressMap) (describe : Region → DNBRegionInfo) (a : ℕ)
    (info : DNBRegionInfo) : DNBRegionInfo :=
  match m.next a with
  | none => gapInfo info a (2 ^ 64 - 1)
  | some x =>
    if x.start + x.size = 2 ^ 64 ∧ x.start ≤ a then gapInfo info a (2 ^ 64 - 1)
    else if x.start ≤ a then describe x
    else gapInfo info a x.start

/-- The permissions of an address; there are none where nothing is mapped. -/
def AddressMap.permissionsAt (m : AddressMap) (x : ℕ) : BitVec 32 :=
  ((m.protectionAt x).map dnbPermissions).getD 0

/-- All regions and gaps, from an address on. -/
def layout (describe : Region → DNBRegionInfo) : ℕ → List Region → List DNBRegionInfo
  | a, [] => if a < 2 ^ 64 - 1 then [gapInfo {} a (2 ^ 64 - 1)] else []
  | a, x :: xs => (if a < x.start then [gapInfo {} a x.start] else []) ++
      describe x :: layout describe (x.start + x.size) xs

namespace AddressMap

variable {m : AddressMap} {a : ℕ}

/-- The next region is the first one of the rest, when the regions before it end below the
address. -/
theorem next_eq_head (pre post : List Region) (hm : m.regions = pre ++ post)
    (hpre : ∀ x ∈ pre, x.start + x.size ≤ a) (hpost : ∀ x ∈ post.head?, a < x.start + x.size) :
    m.next a = post.head? := by
  have hnone : pre.find? (fun r => decide (a < r.start + r.size)) = none := by
    rw [List.find?_eq_none]
    intro x hx
    simpa using hpre x hx
  rw [next, hm, List.find?_append, hnone, Option.none_or]
  cases post with
  | nil => rfl
  | cons x xs => exact List.find?_cons_of_pos (by simpa using hpost x rfl)

/-- The regions before and after the next one. -/
theorem split_of_next {x : Region} (h : m.next a = some x) : a < x.start + x.size ∧
    ∀ r ∈ m.regions, a < r.start + r.size → r = x ∨ x.start + x.size ≤ r.start := by
  obtain ⟨hx, pre, post, hm, hpre⟩ := List.find?_eq_some_iff_append.mp h
  have hsorted := m.sorted
  rw [hm, List.pairwise_append, List.pairwise_cons] at hsorted
  refine ⟨by simpa using hx, fun r hr har => ?_⟩
  rw [hm] at hr
  rcases List.mem_append.mp hr with hr | hr
  · have hend : r.start + r.size ≤ a := by simpa using hpre r hr
    omega
  · rcases List.mem_cons.mp hr with rfl | hr
    · exact .inl rfl
    · exact .inr (hsorted.2.1.1 r hr)

/-- There is nothing between an address and the next region. -/
theorem find_eq_none_of_next {y : ℕ} (hay : a ≤ y) (h : ∀ x, m.next a = some x → y < x.start) :
    m.find y = none := by
  rw [find_eq_none_iff]
  intro r hr hry
  have har : a < r.start + r.size := Nat.lt_of_le_of_lt hay hry.2
  have hsome : (m.next a).isSome := List.find?_isSome.mpr ⟨r, hr, by simpa using har⟩
  obtain ⟨x, hx⟩ := Option.isSome_iff_exists.mp hsome
  have hlt := h x hx
  have hstart := hry.1
  rcases (split_of_next hx).2 r hr har with rfl | hafter <;> omega

end AddressMap

/-! ## The answer to one question -/

/-- The number of pages of a region is an `int` that is not negative. -/
def PageQuery.Counts (q : PageQuery) (x : Region) : Prop :=
  (BitVec.ofNat 64 x.size / q.vmPageSize).toNat % 2 ^ 32 < 2 ^ 31

instance (q : PageQuery) (x : Region) : Decidable (q.Counts x) :=
  inferInstanceAs (Decidable (_ < _))

theorem PageQuery.Counts.getDirtyPages {q : PageQuery} {x : Region} (h : q.Counts x) (a : Addr) :
    ∃ pages, getDirtyPages q a (BitVec.ofNat 64 x.size) = some pages := by
  have hmsb : ((BitVec.ofNat 64 x.size / q.vmPageSize).setWidth 32).msb = false := by
    rw [BitVec.msb_eq_decide, BitVec.toNat_setWidth, decide_eq_false_iff_not]
    have h' : (BitVec.ofNat 64 x.size / q.vmPageSize).toNat % 2 ^ 32 < 2 ^ 31 := h
    omega
  rw [MachDebug.getDirtyPages]
  simp only [hmsb, Bool.false_eq_true, if_false]
  exact ⟨_, rfl⟩

/-- The gap from an address to the end of the address space. -/
theorem unmappedInfo_rest {r : MachVMRegion} {a : Addr} (info : DNBRegionInfo)
    (h : ¬ (r.mErr.success ∧ a < r.mStart)) :
    MachVMMemory.unmappedInfo r a info = gapInfo info a.toNat (2 ^ 64 - 1) := by
  have hrest : invalidNubAddress - a = BitVec.ofNat 64 (2 ^ 64 - 1 - a.toNat) := by
    unfold invalidNubAddress
    bv_omega
  simp only [MachVMMemory.unmappedInfo, gapInfo, if_neg h, if_pos, hrest, BitVec.ofNat_toNat,
    BitVec.setWidth_eq]

/-- The gap from an address to the next region. -/
theorem unmappedInfo_next {r : MachVMRegion} {a : Addr} {info : DNBRegionInfo} {x : ℕ}
    (hstart : r.mStart = BitVec.ofNat 64 x) (hx : x < 2 ^ 64) (herr : r.mErr.success)
    (h : a.toNat < x) : MachVMMemory.unmappedInfo r a info = gapInfo info a.toNat x := by
  have hlt : a < r.mStart := by
    rw [hstart, BitVec.lt_def, BitVec.toNat_ofNat]
    omega
  have hgap : r.mStart - a = BitVec.ofNat 64 (x - a.toNat) := by
    rw [hstart]
    bv_omega
  have hpos : ¬ BitVec.ofNat 64 (x - a.toNat) = 0 := by bv_omega
  simp only [MachVMMemory.unmappedInfo, gapInfo, if_pos (And.intro herr hlt), hgap, if_neg hpos,
    BitVec.ofNat_toNat, BitVec.setWidth_eq]

/-- An object that has changed no protection does nothing when it is destroyed. -/
theorem clear_clean {r : MachVMRegion} (h : r.mCurrProtection = r.mDataProtection) (s : VmState) :
    Partial.Returns r.clear (fun r' s' => r' = {} ∧ s' = s) s := by
  refine .bind <| .ite (fun hd => absurd h hd.1) fun _ => .ret <| .ret ⟨rfl, rfl⟩

/-- The region object after the kernel has answered with a region. -/
def MachVMRegion.ofRegion (x : Region) : MachVMRegion :=
  { mErr := .ofKern 0, mStart := BitVec.ofNat 64 x.start, mSize := BitVec.ofNat 64 x.size
    mDataProtection := x.protection, mCurrProtection := x.protection }

/-- A new object asks the kernel, and is filled with its answer. -/
theorem getRegionForAddress_new (a : Addr) (s : VmState) :
    Partial.Returns (({} : MachVMRegion).getRegionForAddress a) (fun p s' => Recalled s s' ∧
      match s.vm.faults .regionRecurse (s.vm.calls .regionRecurse), s.vm.map.next a.toNat with
      | none, some x => p = (!(a < BitVec.ofNat 64 x.start ||
          BitVec.ofNat 64 x.start + BitVec.ofNat 64 x.size ≤ a), .ofRegion x)
      | _, _ => ∃ e ≠ 0, p = (false, { mErr := .ofKern e, mStart := a })) s := by
  refine .bind <| (clear_clean rfl s).mono ?_
  rintro r t ⟨rfl, rfl⟩
  refine .bind <| vmCall_returns ?_
  have hmap : (t.vm.tally .regionRecurse).map.next a.toNat = t.vm.map.next a.toNat := rfl
  unfold Vm.machVmRegionRecurse Vm.issue
  cases t.vm.faults .regionRecurse (t.vm.calls .regionRecurse) with
  | some e => exact .ret ⟨⟨rfl⟩, e.1, e.2, rfl⟩
  | none =>
    simp only [hmap]
    cases t.vm.map.next a.toNat with
    | none => exact .ret ⟨⟨rfl⟩, _, kernInvalidAddress_ne_zero, rfl⟩
    | some x => exact .ret ⟨⟨rfl⟩, rfl⟩

/-- An object that was asked for an address of its region has the permissions of the region. -/
theorem getDNBPermissions_of_contains {x : Region} (hend : x.start + x.size < 2 ^ 64) {a : Addr}
    (ha : x.Contains a.toNat) :
    (MachVMRegion.ofRegion x).getDNBPermissions a = dnbPermissions x.protection := by
  have hpos := x.size_pos
  obtain ⟨hlo, hhi⟩ := ha
  have hvalid : ¬ (a = invalidNubAddress ∨ (MachVMRegion.ofRegion x).mStart = invalidNubAddress ∨
      (MachVMRegion.ofRegion x).mSize = 0) := by
    unfold invalidNubAddress MachVMRegion.ofRegion
    simp only
    rintro (rfl | h | h)
    · simp only [BitVec.toNat_not] at hhi
      bv_omega
    · bv_omega
    · bv_omega
  rw [MachVMRegion.getDNBPermissions, if_neg hvalid]
  rfl

/-- What is told when the kernel has answered with a region. -/
theorem told_of_region {q : PageQuery} (tags : Addr → RegionTags) {m : AddressMap} {a : Addr}
    (info : DNBRegionInfo) {x : Region} (hnext : m.next a.toNat = some x) (hq : q.Counts x)
    (s : VmState) :
    Partial.Returns (MachVMMemory.regionInfo q tags (!(a < BitVec.ofNat 64 x.start ||
        BitVec.ofNat 64 x.start + BitVec.ofNat 64 x.size ≤ a)) (.ofRegion x) a info)
      (fun i s' => i = m.infoAt (Region.describe q tags) a.toNat info ∧ s' = s) s := by
  have hlt := (AddressMap.split_of_next hnext).1
  have hend := x.end_le
  have hpos := x.size_pos
  have ha := a.isLt
  unfold AddressMap.infoAt MachVMMemory.regionInfo
  rw [hnext]
  simp only [Bool.not_eq_true', Bool.or_eq_false_iff, decide_eq_false_iff_not, BitVec.lt_def,
    BitVec.le_def, BitVec.toNat_add, BitVec.toNat_ofNat, Nat.add_mod_mod, Nat.mod_add_mod]
  refine .ite (fun hfound => ?_) fun hfound => ?_
  · have htop : x.start + x.size < 2 ^ 64 := by omega
    have hstart : x.start ≤ a.toNat := by omega
    obtain ⟨pages, hpages⟩ := hq.getDirtyPages (BitVec.ofNat 64 x.start)
    have hpages' : getDirtyPages q (MachVMRegion.ofRegion x).mStart
        (MachVMRegion.ofRegion x).mSize =
        some pages := hpages
    unfold MachVMMemory.mappedInfo
    simp only [hpages']
    refine .ret ⟨?_, rfl⟩
    rw [if_neg (by omega), if_pos hstart, getDNBPermissions_of_contains htop ⟨hstart, hlt⟩,
      Region.describe, hpages]
    rfl
  · refine .ret ⟨?_, rfl⟩
    by_cases hstart : x.start ≤ a.toNat
    · have htop : x.start + x.size = 2 ^ 64 := by omega
      rw [if_pos ⟨htop, hstart⟩]
      refine unmappedInfo_rest info ?_
      rintro ⟨-, hlt'⟩
      have hnat : a.toNat < x.start % 2 ^ 64 := hlt'
      omega
    · rw [if_neg (by omega), if_neg hstart]
      exact unmappedInfo_next rfl (by omega) rfl (by omega)

/-- **One question**: `GetMemoryRegionInfo` tells the region or the gap of the address. A failed
call of the kernel is told as a gap up to the end of the address space. -/
theorem getMemoryRegionInfo_returns (q : PageQuery) (tags : Addr → RegionTags) (a : Addr)
    (info : DNBRegionInfo) {s : VmState} (hq : ∀ x ∈ s.vm.map.regions, q.Counts x) :
    Partial.Returns (MachVMMemory.getMemoryRegionInfo q tags a info) (fun p s' => p.1 = true ∧
      Recalled s s' ∧ p.2 = match s.vm.faults .regionRecurse (s.vm.calls .regionRecurse) with
        | some _ => gapInfo info a.toNat (2 ^ 64 - 1)
        | none => s.vm.map.infoAt (Region.describe q tags) a.toNat info) s := by
  refine .bind <| (getRegionForAddress_new a s).mono ?_
  rintro ⟨found, r⟩ t ⟨ht, hp⟩
  have hend (hr : r.mCurrProtection = r.mDataProtection) (i : DNBRegionInfo) :
      Partial.Returns (do let _ ← r.clear; return (true, i)) (fun p s' => p = (true, i) ∧
        Recalled s s') t := by
    refine .bind <| (clear_clean hr t).mono ?_
    rintro r u ⟨rfl, rfl⟩
    exact .ret ⟨rfl, ht⟩
  have hgap (h : ∃ e ≠ 0, (found, r) = (false, { mErr := .ofKern e, mStart := a })) :
      Partial.Returns (do
        let info ← MachVMMemory.regionInfo q tags found r a info
        let _ ← r.clear
        return (true, info)) (fun p s' => p = (true, gapInfo info a.toNat (2 ^ 64 - 1)) ∧
          Recalled s s') t := by
    obtain ⟨e, he, h⟩ := h
    obtain ⟨rfl, rfl⟩ := Prod.mk.inj h
    have hinfo := unmappedInfo_rest (r := { mErr := .ofKern e, mStart := a }) (a := a) info
      (fun h => he (by simpa using h.1))
    rw [← hinfo]
    exact .bind <| .ret <| hend rfl _
  cases hfault : s.vm.faults .regionRecurse (s.vm.calls .regionRecurse) with
  | some e =>
    simp only [hfault] at hp
    exact (hgap hp).mono fun p s' hp' => ⟨by rw [hp'.1], hp'.2, by rw [hp'.1]⟩
  | none =>
    cases hnext : s.vm.map.next a.toNat with
    | none =>
      simp only [hfault, hnext] at hp
      refine (hgap hp).mono fun p s' hp' => ⟨by rw [hp'.1], hp'.2, ?_⟩
      rw [hp'.1, AddressMap.infoAt, hnext]
    | some x =>
      simp only [hfault, hnext] at hp
      obtain ⟨rfl, rfl⟩ := Prod.mk.inj hp
      have hx : x ∈ s.vm.map.regions := List.mem_of_find?_eq_some hnext
      refine .bind <| (told_of_region tags info hnext (hq x hx) t).mono ?_
      rintro i u ⟨rfl, rfl⟩
      exact (hend rfl _).mono fun p s' hp' => ⟨by rw [hp'.1], hp'.2, by rw [hp'.1]⟩

/-! ## The permissions -/

/-- The range of a gap. -/
theorem gapInfo_range (info : DNBRegionInfo) (lo hi : ℕ) (hlo : lo ≤ hi) (hhi : hi < 2 ^ 64) :
    (gapInfo info lo hi).addr.toNat = lo ∧ (gapInfo info lo hi).size.toNat = hi - lo := by
  constructor <;> simp only [gapInfo, BitVec.toNat_ofNat] <;> omega

/-- The range of a region that ends below the end of the address space. -/
theorem Region.describe_range (q : PageQuery) (tags : Addr → RegionTags) {x : Region}
    (h : x.start + x.size < 2 ^ 64) :
    (x.describe q tags).addr.toNat = x.start ∧ (x.describe q tags).size.toNat = x.size := by
  constructor <;> simp only [Region.describe, BitVec.toNat_ofNat] <;> omega

theorem AddressMap.permissionsAt_eq_zero {m : AddressMap} {y : ℕ} (h : m.find y = none) :
    m.permissionsAt y = 0 := by
  rw [permissionsAt, protectionAt, h]
  rfl

theorem AddressMap.permissionsAt_eq {m : AddressMap} {y : ℕ} {x : Region} (h : m.find y = some x) :
    m.permissionsAt y = dnbPermissions x.protection := by
  rw [permissionsAt, protectionAt, h]
  rfl

/-- The range that is told has the permissions that are told. -/
theorem AddressMap.infoAt_permissions {m : AddressMap}
    (htop : ∀ x ∈ m.regions, x.start + x.size < 2 ^ 64) (q : PageQuery) (tags : Addr → RegionTags)
    {a : ℕ} (ha : a < 2 ^ 64) (info : DNBRegionInfo) {i : DNBRegionInfo}
    (hi : i = m.infoAt (Region.describe q tags) a info) :
    i.addr.toNat ≤ a ∧ (a < i.addr.toNat + i.size.toNat ∨ a = 2 ^ 64 - 1) ∧
      ∀ y, i.addr.toNat ≤ y → y < i.addr.toNat + i.size.toNat →
        m.permissionsAt y = i.permissions := by
  unfold AddressMap.infoAt at hi
  cases hnext : m.next a with
  | none =>
    simp only [hnext] at hi
    obtain ⟨haddr, hsize⟩ := gapInfo_range info a (2 ^ 64 - 1) (by omega) (by omega)
    rw [hi, haddr, hsize]
    refine ⟨le_rfl, by omega, fun y hy _ => ?_⟩
    exact permissionsAt_eq_zero (find_eq_none_of_next hy fun x hx => by simp [hnext] at hx)
  | some x =>
    obtain ⟨hlt, -⟩ := split_of_next hnext
    have hx : x ∈ m.regions := List.mem_of_find?_eq_some hnext
    have hend := htop x hx
    simp only [hnext] at hi
    rw [if_neg (by omega)] at hi
    split at hi
    · rename_i hstart
      obtain ⟨haddr, hsize⟩ := Region.describe_range q tags hend
      rw [hi, haddr, hsize]
      refine ⟨hstart, .inl hlt, fun y hlo hhi => ?_⟩
      exact permissionsAt_eq (find_eq_some_iff.mpr ⟨hx, hlo, hhi⟩)
    · rename_i hstart
      obtain ⟨haddr, hsize⟩ := gapInfo_range info a x.start (by omega) (by omega)
      rw [hi, haddr, hsize]
      refine ⟨le_rfl, .inl (by omega), fun y hlo hhi => ?_⟩
      refine permissionsAt_eq_zero (find_eq_none_of_next hlo fun z hz => ?_)
      obtain rfl : x = z := Option.some.inj (hnext.symm.trans hz)
      omega

/-- **The permissions**: without failures, the addresses of the range that is told have the
permissions that are told. The range contains the address that was asked for, except for the last
one of the address space. -/
theorem getMemoryRegionInfo_permissions (q : PageQuery) (tags : Addr → RegionTags) (a : Addr)
    (info : DNBRegionInfo) (s : VmState) (hk : s.vm.FaultFree)
    (hq : ∀ x ∈ s.vm.map.regions, q.Counts x)
    (htop : ∀ x ∈ s.vm.map.regions, x.start + x.size < 2 ^ 64) :
    Partial.Returns (MachVMMemory.getMemoryRegionInfo q tags a info) (fun p s' => p.1 = true ∧
      Recalled s s' ∧ p.2.addr ≤ a ∧
      (a.toNat < p.2.addr.toNat + p.2.size.toNat ∨ a = invalidNubAddress) ∧
      ∀ y, p.2.addr.toNat ≤ y → y < p.2.addr.toNat + p.2.size.toNat →
        s.vm.map.permissionsAt y = p.2.permissions) s := by
  refine (getMemoryRegionInfo_returns q tags a info hq).mono ?_
  rintro ⟨ok, i⟩ s' ⟨hok, hs', hi⟩
  refine ⟨hok, hs', ?_⟩
  simp only [hk _ _] at hi
  obtain ⟨hle, hlt, hperm⟩ := AddressMap.infoAt_permissions htop q tags a.isLt info hi
  refine ⟨hle, hlt.imp_right fun hlast => ?_, hperm⟩
  exact BitVec.eq_of_toNat_eq hlast

/-- The addresses around an address of the first page can be read and nothing else. -/
theorem getMemoryRegionInfo_permissions_data : ∃ i s',
    (MachVMMemory.getMemoryRegionInfo .everyOther (fun _ => ⟨0, 0⟩) 30 {}).run
      ⟨.dataAndCode fun _ _ => none, {}⟩ = some ((true, i), s') ∧
    i.permissions = eMemoryPermissionsReadable ∧ i.addr.toNat ≤ 30 ∧
    ∀ y, i.addr.toNat ≤ y → y < i.addr.toNat + i.size.toNat →
      (Vm.dataAndCode fun _ _ => none).map.permissionsAt y = i.permissions := by
  obtain ⟨⟨ok, i⟩, s', hrun, rfl, -, hle, -, hall⟩ :=
    getMemoryRegionInfo_permissions .everyOther (fun _ => ⟨0, 0⟩) 30 {}
      ⟨.dataAndCode fun _ _ => none, {}⟩ (fun _ _ => rfl)
      (Vm.forall_dataAndCode (by decide) (by decide))
      (Vm.forall_dataAndCode (by decide) (by decide))
  have hperm : ((MachVMMemory.getMemoryRegionInfo .everyOther (fun _ => ⟨0, 0⟩) 30 {}).run
      ⟨.dataAndCode fun _ _ => none, {}⟩).map (fun r => r.1.2.permissions) =
      some eMemoryPermissionsReadable := by
    decide +kernel
  rw [hrun] at hperm
  exact ⟨i, s', hrun, Option.some.inj hperm, hle, hall⟩

/-! ## The scan -/

/-- Ask about an address, and again at the end of what was told, up to the end of the address
space. -/
def scan (q : PageQuery) (tags : Addr → RegionTags) : ℕ → Addr → VmM (List DNBRegionInfo)
  | 0, _ => Partial.diverge
  | fuel + 1, a => do
    let (_, info) ← MachVMMemory.getMemoryRegionInfo q tags a {}
    if info.addr + info.size = invalidNubAddress then return [info]
    let infos ← scan q tags fuel (info.addr + info.size)
    return info :: infos

section Scan

variable {q : PageQuery} {tags : Addr → RegionTags} {s : VmState}

/-- What the scan relies on. -/
structure Scannable (q : PageQuery) (s : VmState) : Prop where
  faultFree : s.vm.FaultFree
  counts : ∀ x ∈ s.vm.map.regions, q.Counts x
  top : ∀ x ∈ s.vm.map.regions, x.start + x.size < 2 ^ 64

theorem Scannable.of_recalled {s' : VmState} (h : Scannable q s) (hs : Recalled s s') :
    Scannable q s' ∧ s'.vm.map = s.vm.map := by
  have hmap : s'.vm.map = s.vm.map := by rw [hs.vm]
  refine ⟨⟨?_, ?_, ?_⟩, hmap⟩
  · rw [hs.vm]
    exact h.faultFree
  · rw [hmap]
    exact h.counts
  · rw [hmap]
    exact h.top

/-- One question of the scan. -/
theorem scan_step (h : Scannable q s) {a e fuel : ℕ} (ha : a < 2 ^ 64) {i : DNBRegionInfo}
    (hi : s.vm.map.infoAt (Region.describe q tags) a {} = i) (he : e < 2 ^ 64)
    (hend : i.addr.toNat + i.size.toNat = e) {rest : List DNBRegionInfo}
    (hlast : e = 2 ^ 64 - 1 → rest = [])
    (hrest : e < 2 ^ 64 - 1 → ∀ s', Scannable q s' → s'.vm.map = s.vm.map →
      Partial.Returns (scan q tags fuel (BitVec.ofNat 64 e)) (fun l _ => l = rest) s') :
    Partial.Returns (scan q tags (fuel + 1) (BitVec.ofNat 64 a)) (fun l _ => l = i :: rest) s := by
  have hnat : (BitVec.ofNat 64 a).toNat = a := by
    rw [BitVec.toNat_ofNat]
    omega
  have hsum : i.addr + i.size = BitVec.ofNat 64 e := by
    apply BitVec.eq_of_toNat_eq
    rw [BitVec.toNat_add, BitVec.toNat_ofNat, hend]
  have hstop : BitVec.ofNat 64 e = invalidNubAddress ↔ e = 2 ^ 64 - 1 := by
    unfold invalidNubAddress
    bv_omega
  refine .bind <| (getMemoryRegionInfo_returns q tags _ {} h.counts).mono ?_
  rintro ⟨ok, info⟩ t ⟨-, ht, hinfo⟩
  obtain ⟨ht, hmap⟩ := h.of_recalled ht
  simp only [h.faultFree _ _, hnat, hi] at hinfo
  subst hinfo
  simp only [hsum, hstop]
  refine .ite (fun htop => .ret (by rw [hlast htop])) fun htop => ?_
  refine .bind <| (hrest (by omega) t ht hmap).mono ?_
  rintro infos u rfl
  exact .ret rfl

/-- **The scan from an address on**: where the regions below the address are left behind, the scan
goes through the others. -/
theorem scan_from (post : List Region) (h : Scannable q s) (pre : List Region)
    (hm : s.vm.map.regions = pre ++ post) {a : ℕ} (ha : a < 2 ^ 64 - 1)
    (hpre : ∀ x ∈ pre, x.start + x.size ≤ a) (hpost : ∀ x ∈ post.head?, a ≤ x.start) {fuel : ℕ}
    (hfuel : 2 * post.length < fuel) :
    Partial.Returns (scan q tags fuel (BitVec.ofNat 64 a))
      (fun l _ => l = layout (Region.describe q tags) a post) s := by
  induction post generalizing s pre a fuel with
  | nil =>
    have hnext := AddressMap.next_eq_head (m := s.vm.map) pre [] hm hpre (by simp)
    obtain ⟨fuel, rfl⟩ := Nat.exists_eq_add_one_of_ne_zero (Nat.ne_zero_of_lt hfuel)
    obtain ⟨haddr, hsize⟩ := gapInfo_range {} a (2 ^ 64 - 1) (by omega) (by omega)
    rw [layout, if_pos ha]
    refine scan_step h (e := 2 ^ 64 - 1) (by omega) ?_ (by omega) (by omega) (fun _ => rfl)
      fun hlt => absurd hlt (lt_irrefl _)
    rw [AddressMap.infoAt, hnext]
    rfl
  | cons x xs ih =>
    have hx : x ∈ s.vm.map.regions := by simp [hm]
    have hend := h.top x hx
    have hpos := x.size_pos
    have hsorted := s.vm.map.sorted
    rw [hm, List.pairwise_append, List.pairwise_cons] at hsorted
    have hstart : a ≤ x.start := hpost x rfl
    rw [List.length_cons] at hfuel
    have hregion (s' : VmState) (hs' : Scannable q s') (hmap : s'.vm.map = s.vm.map) {n : ℕ}
        (hn : 2 * xs.length + 1 < n) : Partial.Returns (scan q tags n (BitVec.ofNat 64 x.start))
          (fun l _ => l = x.describe q tags ::
            layout (Region.describe q tags) (x.start + x.size) xs) s' := by
      obtain ⟨n, rfl⟩ := Nat.exists_eq_add_one_of_ne_zero (Nat.ne_zero_of_lt hn)
      obtain ⟨haddr, hsize⟩ := Region.describe_range q tags hend
      have hm' : s'.vm.map.regions = pre ++ x :: xs := by rw [hmap, hm]
      have hpre' (y : Region) (hy : y ∈ pre) : y.start + y.size ≤ x.start :=
        hsorted.2.2 y hy x (List.mem_cons_self ..)
      have hnext := AddressMap.next_eq_head (m := s'.vm.map) pre (x :: xs) hm' hpre'
        (by simpa using x.size_pos)
      have hxs (y : Region) (hy : y ∈ xs) : x.start + x.size ≤ y.start := hsorted.2.1.1 y hy
      refine scan_step hs' (e := x.start + x.size) (by omega) ?_ hend (by omega) ?_ ?_
      · rw [AddressMap.infoAt, hnext]
        simp only [List.head?_cons]
        rw [if_neg (by omega), if_pos le_rfl]
      -- nothing comes after a region that ends with the addresses
      · intro htop
        cases xs with
        | nil => rw [layout, if_neg (by omega)]
        | cons y ys =>
          have hy := h.top y (by simp [hm])
          have hy' := hxs y (List.mem_cons_self ..)
          have hy'' := y.size_pos
          omega
      · intro hlt u hu hmapu
        refine ih hu (pre ++ [x]) (by rw [hmapu, hm', List.append_assoc]; rfl) hlt ?_ ?_ (by omega)
        · intro y hy
          rcases List.mem_append.mp hy with hy | hy
          · have := hpre' y hy
            omega
          · rw [List.mem_singleton.mp hy]
        · intro y hy
          exact hxs y (List.mem_of_mem_head? hy)
    rw [layout]
    by_cases hlt : a < x.start
    · obtain ⟨fuel, rfl⟩ := Nat.exists_eq_add_one_of_ne_zero (Nat.ne_zero_of_lt hfuel)
      obtain ⟨haddr, hsize⟩ := gapInfo_range {} a x.start (by omega) (by omega)
      have hnext := AddressMap.next_eq_head (m := s.vm.map) pre (x :: xs) hm hpre
        (by simp only [List.head?_cons, Option.mem_def, Option.some.injEq]; rintro y rfl; omega)
      rw [if_pos hlt]
      refine scan_step h (e := x.start) (by omega) ?_ (by omega) (by omega)
        (fun htop => by omega) fun _ s' hs' hmap => hregion s' hs' hmap (by omega)
      rw [AddressMap.infoAt, hnext]
      simp only [List.head?_cons]
      rw [if_neg (by omega), if_neg (by omega)]
    · obtain rfl : a = x.start := by omega
      rw [if_neg hlt]
      exact hregion s h rfl (by omega)

end Scan

/-- **The scan of the address space** meets every region once, in the order of the addresses, and
between them the gaps. -/
theorem scan_eq_layout (q : PageQuery) (tags : Addr → RegionTags) (s : VmState)
    (h : Scannable q s) (fuel : ℕ) (hfuel : 2 * s.vm.map.regions.length < fuel) :
    Partial.Returns (scan q tags fuel 0)
      (fun l _ => l = layout (Region.describe q tags) 0 s.vm.map.regions) s :=
  scan_from s.vm.map.regions h [] rfl (by omega) (by simp) (fun _ _ => Nat.zero_le _) hfuel

/-- A gap, the two pages, and a gap. -/
theorem scan_eq_layout_dataAndCode : ∃ l s',
    (scan .everyOther (fun _ => ⟨0, 0⟩) 5 0).run ⟨.dataAndCode fun _ _ => none, {}⟩ =
      some (l, s') ∧
    l.map (fun i => (i.addr, i.permissions)) = [(0, 0), (16, 2), (32, 6), (48, 0)] := by
  obtain ⟨l, s', hrun, rfl⟩ := scan_eq_layout .everyOther (fun _ => ⟨0, 0⟩)
    ⟨.dataAndCode fun _ _ => none, {}⟩
    ⟨fun _ _ => rfl, Vm.forall_dataAndCode (by decide) (by decide),
      Vm.forall_dataAndCode (by decide) (by decide)⟩ 5 (by decide)
  exact ⟨_, s', hrun, by decide +kernel⟩

end MachDebug
