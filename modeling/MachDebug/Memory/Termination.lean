import MachDebug.Memory.Progress

/-!
# When a write returns

A piece of `2 ^ 32` bytes is a piece of no bytes after the cast to `mach_msg_type_number_t`. The
kernel writes and flushes no bytes without an error, so that `WriteRegion` goes on without having
written any, and comes to the same piece again. When a write can come to a piece of `2 ^ 32` bytes
or more, it comes to one of exactly `2 ^ 32` bytes, and does not return unless the kernel fails.

## Main definitions

* `Steady task P s`: no call fails, and `PageSize` returns `P` again and again

## Main results

* `exists_pageLimit_eq`: where a large piece comes down to `2 ^ 32` bytes
* `writeRegion_steady`: `WriteRegion` returns only when all pieces are small
* `write_diverges`: a write that can come to a large piece does not return
* `write_progresses_iff`: the write loops make progress exactly when there is no large piece
-/

namespace MachDebug

open Program

/-! ## Pieces -/

/-- The rest of a piece. -/
theorem pageLimit_add {p x n d : ℕ} (hd : d < pageLimit p x n) :
    pageLimit p (x + d) (n - d) = pageLimit p x n - d := by
  unfold pageLimit at hd ⊢
  split_ifs at hd ⊢ with hp
  · have hpage := div_eq_of_lt_leftInPage hp (hd.trans_le (min_le_left _ _))
    have hx := Nat.div_add_mod x p
    have hxd := Nat.div_add_mod (x + d) p
    rw [hpage] at hxd
    have hlt := Nat.mod_lt x hp
    unfold leftInPage at hd ⊢
    omega
  · rfl

/-- **A large piece** comes down to one of `2 ^ 32` bytes. -/
theorem exists_pageLimit_eq {p y c k : ℕ} (h : 2 ^ 32 ≤ pageLimit p (y + k) (c - k)) :
    ∃ i < c, pageLimit p (y + i) (c - i) = 2 ^ 32 := by
  have hle := pageLimit_le p (y + k) (c - k)
  have hrest := pageLimit_add (p := p) (x := y + k) (n := c - k)
    (d := pageLimit p (y + k) (c - k) - 2 ^ 32) (by omega)
  refine ⟨k + (pageLimit p (y + k) (c - k) - 2 ^ 32), by omega, ?_⟩
  rw [← Nat.add_assoc, ← Nat.sub_sub, hrest]
  omega

/-- The pieces before one of `2 ^ 32` bytes, after the cast to 32 bits, do not go past its start. -/
theorem add_pageLimit_mod_le {p y c i t : ℕ} (hi : pageLimit p (y + i) (c - i) = 2 ^ 32)
    (ht : t ≤ i) : t + pageLimit p (y + t) (c - t) % 2 ^ 32 ≤ i := by
  have hmod := Nat.mod_le (pageLimit p (y + t) (c - t)) (2 ^ 32)
  rcases Nat.lt_or_ge (i - t) (pageLimit p (y + t) (c - t)) with hlt | hge
  -- the start lies inside the piece, which has `2 ^ 32` bytes from there on
  · have hrest := pageLimit_add hlt
    rw [Nat.add_assoc, Nat.add_sub_cancel' ht, Nat.sub_sub, Nat.add_sub_cancel' ht, hi] at hrest
    omega
  · omega

/-! ## `WriteRegion` without failures -/

/-- No call fails, and `PageSize` returns `P`, also after it has asked the kernel again. -/
structure Steady (task : Port) (P : BitVec 64) (s : VmState) : Prop where
  faultFree : s.vm.FaultFree
  kept : s.memory.mPageSize = P
  reported : s.reportedPageSize task = P

section Steady

variable {task : Port} {P : BitVec 64} {s s' : VmState}

theorem Steady.sized (h : Steady task P s) : Sized task P s :=
  (sized_iff h.faultFree).mpr h.reported

/-- Calls that leave the page size alone, and make no call fail. -/
theorem Steady.of_sizes (h : Steady task P s) (hfaults : s'.vm.faults = s.vm.faults)
    (htask : s'.vm.taskPageSize = s.vm.taskPageSize)
    (hhost : s'.vm.hostPageSize = s.vm.hostPageSize) (hkept : s'.memory.mPageSize = P) :
    Steady task P s' := by
  refine ⟨fun c n => ?_, hkept, ?_⟩
  · rw [hfaults]
    exact h.faultFree c n
  · have hreported := h.reported
    rw [VmState.reportedPageSize, h.kept] at hreported
    rw [VmState.reportedPageSize, hkept, htask, hhost]
    exact hreported

theorem Steady.of_same (h : Steady task P s) (hs : SameSizes s s') : Steady task P s' := by
  obtain ⟨hkept, hfaults, htask, hhost, -, -⟩ := hs
  exact h.of_sizes hfaults htask hhost (hkept.trans h.kept)

theorem Steady.of_remapped (h : Steady task P s) (hre : Remapped s s') : Steady task P s' := by
  refine h.of_sizes ?_ ?_ ?_ ?_
  · rw [hre.vm]
  · rw [hre.vm]
  · rw [hre.vm]
  · rw [hre.memory]
    exact h.kept

theorem Steady.of_recalled (h : Steady task P s) (hkept : s'.memory.mPageSize = P)
    (hrec : Recalled s s') : Steady task P s' := by
  refine h.of_sizes ?_ ?_ ?_ hkept
  · rw [hrec.vm]
  · rw [hrec.vm]
  · rw [hrec.vm]

/-- **A piece of mapped memory** is taken as written: the flush of its cache succeeds, and hides the
answer to the write. -/
theorem writePiece_mapped (h : s.vm.FaultFree) {a : Addr} (bytes : List Byte) {count : BitVec 64}
    (hend : a.toNat + count.toNat ≤ 2 ^ 64)
    (hm : ∀ k < count.toNat, (s.vm.map.find (a.toNat + k)).isSome = true) :
    Partial.Post (MachVMMemory.writePiece a bytes count) (fun ok _ => ok = true) s := by
  have hvm := machVmWrite_sameMap a bytes s.vm
  have hfaults := (machVmWrite_sameSizes a bytes s.vm).1
  have hflush := vmMachineAttribute_eq (v := (s.vm.machVmWrite a bytes).2)
    (fun c n => hfaults ▸ h c n) hend fun k hk => by
      rw [hvm.1]
      exact hm k hk
  have hreturns : Partial.Returns (MachVMMemory.writePiece a bytes count) (fun ok _ => ok = true)
      s := ⟨_, _, MachVMMemory.writePiece_run rfl hflush, rfl⟩
  exact hreturns.post

end Steady

/-- The invariant of the loop of `WriteRegion` without failures, in the map `m`. -/
structure SteadyRegion (task : Port) (P : BitVec 64) (m : AddressMap) (y : Addr)
    (count : BitVec 64) (x : WriteRegionVars) (s : VmState) : Prop where
  steady : Steady task P s
  map : s.vm.map = m
  total_le : x.total.toNat ≤ count.toNat
  currAddr : x.currAddr = y + BitVec.ofNat 64 x.total.toNat

section WriteRegion

variable {task : Port} {P : BitVec 64} {m : AddressMap} {s : VmState} {y : Addr}
  {count : BitVec 64}

/-- **An iteration of `WriteRegion`** on mapped memory goes on, by the low 32 bits of the piece. -/
theorem writeRegionBody_steady (hend : y.toNat + count.toNat < 2 ^ 64)
    (hm : ∀ k < count.toNat, (m.find (y.toNat + k)).isSome = true) {x : WriteRegionVars}
    (h : SteadyRegion task P m y count x s) (hlt : x.total < count) :
    Partial.Post (MachVMMemory.writeRegionBody task count x)
      (Sum.elim (fun x' s' => SteadyRegion task P m y count x' s' ∧ x'.total.toNat =
        x.total.toNat + pageLimit P.toNat (y.toNat + x.total.toNat)
          (count.toNat - x.total.toNat) % 2 ^ 32) fun _ _ => False) s := by
  have hlt' : x.total.toNat < count.toNat := hlt
  have haddr : x.currAddr.toNat = y.toNat + x.total.toNat := by
    rw [h.currAddr]
    exact Vm.toNat_offset (by omega)
  have hsub : (count - x.total).toNat = count.toNat - x.total.toNat := by bv_omega
  refine .ite (fun _ => ?_) fun hge => absurd hlt hge
  refine .bind <| (maxBytesLeftInPage_limit h.steady.sized _ _).post.mono ?_
  intro n t ht
  obtain ⟨hn, hkept, hrec⟩ := ht
  rw [haddr, hsub] at hn
  have ht := h.steady.of_recalled hkept hrec
  have hmap : t.vm.map = m := by
    rw [hrec.vm]
    exact h.map
  have hpiece : ((n.setWidth 32).setWidth 64).toNat = n.toNat % 2 ^ 32 := by bv_omega
  set piece := (n.setWidth 32).setWidth 64
  have hle := pageLimit_le P.toNat (y.toNat + x.total.toNat) (count.toNat - x.total.toNat)
  have hmod := Nat.mod_le n.toNat (2 ^ 32)
  have hsum : (x.total + piece).toNat = x.total.toNat + n.toNat % 2 ^ 32 := by bv_omega
  simp only
  have hwritten : Partial.Post
      (MachVMMemory.writePiece x.currAddr (x.currData.take piece.toNat) piece)
      (fun ok _ => ok = true) t := by
    refine writePiece_mapped ht.faultFree _ (by omega) ?_
    intro k hk
    rw [hmap, haddr, Nat.add_assoc]
    exact hm (x.total.toNat + k) (by omega)
  refine .bind ?_
  intro ok u hrun
  obtain rfl : ok = true := hwritten ok u hrun
  have hsizes := MachVMMemory.writePiece_sameSizes _ _ _ t _ _ hrun
  have hsame := MachVMMemory.writePiece_sameMap _ _ _ t _ _ hrun
  refine .ret ⟨⟨ht.of_same hsizes, hsame.map.trans hmap, ?_, ?_⟩, ?_⟩
  · rw [hsum]
    omega
  · rw [hsum, h.currAddr, Vm.offset_add, hpiece]
  · rw [hsum, hn]

/-- **`WriteRegion` without failures**, on mapped memory: it returns only when all pieces are small,
and has written the whole range then. -/
theorem writeRegion_steady (hend : y.toNat + count.toNat < 2 ^ 64) (hpos : 0 < count.toNat)
    (hm : ∀ k < count.toNat, (s.vm.map.find (y.toNat + k)).isSome = true)
    (h : Steady task P s) (bytes : List Byte) (fuel : ℕ) :
    Partial.Post (MachVMMemory.writeRegion fuel task y (some bytes) count)
      (fun n s' => n = count ∧ Steady task P s' ∧ SameMap s s' ∧
        ∀ k < count.toNat, pageLimit P.toNat (y.toNat + k) (count.toNat - k) < 2 ^ 32) s := by
  have hstart : SteadyRegion task P s.vm.map y count { currAddr := y, currData := bytes } s :=
    ⟨h, rfl, Nat.zero_le _, by simp⟩
  intro n t hrun
  have hsame := MachVMMemory.writeRegion_sameMap fuel task y (some bytes) count s n t hrun
  have hne : count ≠ 0 := by
    rintro rfl
    exact absurd hpos (lt_irrefl 0)
  have hloop : (Partial.loop (MachVMMemory.writeRegionBody task count) fuel
      { currAddr := y, currData := bytes }).run s = some (n, t) := by
    rw [← MachVMMemory.writeRegionLoop_eq_loop, ← hrun, MachVMMemory.writeRegion, if_neg hne]
  -- the loop breaks only at the end of the range
  have hall : n = count ∧ Steady task P t := by
    refine Partial.loop_post (I := SteadyRegion task P s.vm.map y count)
      (Q := fun n t => n = count ∧ Steady task P t) (fun x u hx => ?_) fuel hstart n t hloop
    by_cases hlt : x.total < count
    · refine (writeRegionBody_steady hend hm hx hlt).mono ?_
      intro r w hr
      cases r with
      | inl x' => exact hr.1
      | inr n => exact hr.elim
    · have hge : count.toNat ≤ x.total.toNat := not_lt.mp hlt
      have htotal : x.total = count := BitVec.eq_of_toNat_eq (le_antisymm hx.total_le hge)
      rw [MachVMMemory.writeRegionBody, if_neg hlt]
      exact .ret ⟨htotal, hx.steady⟩
  refine ⟨hall.1, hall.2, hsame, fun k hk => ?_⟩
  by_contra hlarge
  -- with a large piece, the loop does not get past one of `2 ^ 32` bytes, and never breaks
  obtain ⟨i, hi, hlimit⟩ := exists_pageLimit_eq (not_lt.mp hlarge)
  refine Partial.loop_post
    (I := fun x u => SteadyRegion task P s.vm.map y count x u ∧ x.total.toNat ≤ i)
    (Q := fun _ _ => False) (fun x u hx => ?_) fuel ⟨hstart, Nat.zero_le _⟩ n t hloop
  have hlt : x.total < count := Nat.lt_of_le_of_lt hx.2 hi
  refine (writeRegionBody_steady hend hm hx.1 hlt).mono ?_
  intro r w hr
  cases r with
  | inl x' => exact ⟨hr.1, hr.2 ▸ add_pageLimit_mod_le hlimit hx.2⟩
  | inr n => exact hr

end WriteRegion

/-! ## `Write` without failures -/

section Write

variable {task : Port} {P : BitVec 64} {m : AddressMap} {s : VmState} {r : MachVMRegion}

theorem Ahead.of_sameMap {y : ℕ} {s' : VmState} (h : Ahead m y r s) (hs : SameMap s s')
    (hk : s'.vm.FaultFree) : Ahead m y r s' := by
  refine ⟨hk, hs.granularity ▸ h.positive, ?_, fun z hz => ?_, ?_⟩
  · rw [hs.map, hs.granularity]
    exact h.aligned
  · rw [hs.map]
    exact h.above z hz
  · simpa only [MachVMRegion.restoredEnd, Vm.roundPage, Vm.truncPage, hs.granularity]
      using h.restored

/-- **Entering a region** that a write can reach: all of it, or all that is wanted. -/
theorem Ahead.enterRegion {y : Addr} (h : Ahead m y.toNat r s) {z : Region}
    (hz : m.find y.toNat = some z) (hw : z.writable = true) {wanted : BitVec 64}
    (hwanted : 0 < wanted.toNat) : Partial.Returns (MachVMMemory.enterRegion r y wanted)
      (fun p s' => Remapped s s' ∧ Ahead m (z.start + z.size) p.2 s' ∧
        ∃ count, p.1 = some count ∧ count.toNat = min (z.start + z.size - y.toNat) wanted.toNat ∧
          ∀ k < count.toNat, (s'.vm.map.find (y.toNat + k)).isSome = true) s := by
  refine .bind <| h.getRegionForAddress.mono ?_
  rintro ⟨found, region⟩ t ⟨hre, ht, hfound, hlost⟩
  refine .ite (fun hf => ?_) fun hf => ?_
  · obtain ⟨x, hd, hend⟩ := hfound hf
    -- the region in the map of now ends where it did, and can be made writable as it could
    have htraits := ht.above y.toNat le_rfl
    have hchange : x.changeable = true := by
      have hany := AddressMap.any_writable_congr htraits
      rw [hd.find, hz, Option.any_some, Option.any_some, hw] at hany
      exact (Region.writable_iff.mp hany).1
    have hfinish : x.start + x.size = z.start + z.size := by
      rw [AddressMap.traitsAt, AddressMap.traitsAt, hd.find, hz] at htraits
      exact (Prod.mk.inj (Prod.mk.inj (Option.some.inj htraits)).2).2
    have hx := (AddressMap.find_eq_some_iff.mp hd.find).2.2
    refine .ite (fun hzero => absurd hzero hd.bytesRemaining_ne_zero) fun _ => ?_
    have hcount := hd.toNat_count wanted
    simp only
    set count := if region.bytesRemaining y < wanted then region.bytesRemaining y else wanted
    refine .bind <| (setProtections_returns ht.faultFree ht.positive ht.aligned hd (by omega)
      (by omega)).mono ?_
    rintro ⟨ok, region'⟩ u ⟨hre', hok, hopened⟩
    refine .ite (fun hok' => .ret ?_) fun hok' => absurd (hok.trans hchange) hok'
    have ho := hopened hok'
    refine ⟨trans_of Remapped hre hre', hfinish ▸ ht.of_opened hre' ho (by omega), count, rfl,
      hfinish ▸ hcount, fun k hk => ?_⟩
    exact Option.isSome_of_any (ho.write k hk)
  · have hlost' := hlost (by simpa using hf)
    rw [hz, Option.any_some, hw] at hlost'
    cases hlost'

/-- The invariant of the loop of `Write` on its way to a large piece at the byte `i`. -/
structure Heading (task : Port) (P : BitVec 64) (m : AddressMap) (a : Addr) (i : ℕ) (x : WriteVars)
    (s : VmState) : Prop where
  steady : Steady task P s
  ahead : Ahead m x.currAddr.toNat x.region s
  total_le : x.total.toNat ≤ i
  currAddr : x.currAddr = a + BitVec.ofNat 64 x.total.toNat
  currData : ∃ bytes, x.currData = some bytes

/-- **An iteration of `Write`** does not get past a large piece, and does not break before it. -/
theorem writeBody_heading {a : Addr} {dataCount : BitVec 64} {i : ℕ} (hi : i < dataCount.toNat)
    (hreaches : m.Reaches a i) {z : Region} (hz : m.find (a.toNat + i) = some z)
    (hlarge : 2 ^ 32 ≤ pageLimit P.toNat (a.toNat + i)
      (min (z.start + z.size - (a.toNat + i)) (dataCount.toNat - i))) (fuel : ℕ) {x : WriteVars}
    (h : Heading task P m a i x s) : Partial.Post (MachVMMemory.writeBody fuel task dataCount x)
      (Sum.elim (Heading task P m a i) fun _ _ => False) s := by
  have htotal := h.total_le
  have hlt : x.total < dataCount := Nat.lt_of_le_of_lt htotal hi
  have hsub : (dataCount - x.total).toNat = dataCount.toNat - x.total.toNat := by bv_omega
  have haddr : x.currAddr.toNat = a.toNat + x.total.toNat := by
    rw [h.currAddr]
    exact AddressMap.Reaches.toNat_add fun j hj => hreaches j (hj.trans htotal)
  obtain ⟨bytes, hbytes⟩ := h.currData
  obtain ⟨w, hw, hwritable⟩ := (Option.any_eq_true _ _).mp (hreaches _ htotal)
  rw [← h.currAddr] at hw
  obtain ⟨hmem, hstart, hfinish⟩ := AddressMap.find_eq_some_iff.mp hw
  have hend := (Region.writable_iff.mp hwritable).2
  refine .ite (fun _ => ?_) fun hge => absurd hlt hge
  refine .bind <| (h.ahead.enterRegion hw hwritable (by omega)).post.mono ?_
  rintro ⟨c, region⟩ t ⟨hre, ht, count, rfl, hcount, hmapped⟩
  simp only [hbytes]
  refine .bind <| (writeRegion_steady (by omega) (by omega) hmapped (h.steady.of_remapped hre) bytes
    fuel).mono ?_
  rintro n u ⟨rfl, hu, hsame, hsmall⟩
  -- the byte `i` lies behind the region, which has no large piece
  have hbehind : w.start + w.size ≤ a.toNat + i := by
    by_contra hlt'
    have hwz : m.find (a.toNat + i) = some w :=
      AddressMap.find_eq_some_iff.mpr ⟨hmem, by omega, by omega⟩
    obtain rfl : w = z := Option.some.inj (hwz.symm.trans hz)
    have hpiece := hsmall (i - x.total.toNat) (by omega)
    rw [haddr, Nat.add_assoc, Nat.add_sub_cancel' htotal] at hpiece
    refine absurd hlarge (not_le.mpr (lt_of_eq_of_lt ?_ hpiece))
    congr 1
    omega
  have hsum : (x.total + n).toNat = x.total.toNat + n.toNat := by bv_omega
  have hnext : (x.currAddr + n).toNat = w.start + w.size := by bv_omega
  refine .ite (fun hzero => ?_) fun _ => .ret ⟨hu, ?_, ?_, ?_, ?_⟩
  · have hzero' : n.toNat ≤ 0 := hzero
    omega
  · simp only [hnext]
    exact ht.of_sameMap hsame hu.faultFree
  · simp only [hsum]
    omega
  · simp only [hsum, h.currAddr]
    exact Vm.offset_add a _ n
  · exact ⟨_, rfl⟩

/-- **A write that can come to a large piece does not return**, when the kernel makes no call
fail. -/
theorem write_diverges (h : Steady task P s) (hg : 0 < s.vm.granularity)
    (hal : s.vm.map.Aligned s.vm.granularity) {a : Addr} {dataCount : BitVec 64}
    (hlarge : ¬ s.vm.map.SmallPieces P.toNat a dataCount.toNat) (bytes : List Byte) (fuel : ℕ) :
    (MachVMMemory.write fuel task a (some bytes) dataCount).run s = none := by
  unfold AddressMap.SmallPieces at hlarge
  push Not at hlarge
  obtain ⟨i, hi, hreaches, z, hz, hlarge⟩ := hlarge
  have hstart : Heading task P s.vm.map a i { currAddr := a, currData := some bytes } s :=
    ⟨h, ⟨h.faultFree, hg, hal, fun _ _ => rfl, fun hd => absurd hd MachVMRegion.not_dirty⟩,
      Nat.zero_le _, by simp, bytes, rfl⟩
  refine Partial.Post.run_eq_none (.bind ?_)
  rw [MachVMMemory.writeLoop_eq_loop]
  refine (Partial.loop_post (I := Heading task P s.vm.map a i) (Q := fun _ _ => False)
    (fun x t hx => writeBody_heading hi hreaches hz hlarge fuel hx) fuel hstart).mono ?_
  intro r t hr
  exact hr.elim

end Write

/-! ## The exact condition -/

/-- 32 bits hold every piece of a request of less than `2 ^ 32` bytes, and every piece inside pages
of less than `2 ^ 32` bytes. -/
theorem AddressMap.smallPieces_of_lt (m : AddressMap) (a : Addr) {P c : ℕ}
    (h : c < 2 ^ 32 ∨ (0 < P ∧ P < 2 ^ 32)) : m.SmallPieces P a c := by
  intro i hi _ x _
  rcases h with hc | ⟨hpos, hP⟩
  · have hle := pageLimit_le P (a.toNat + i) (min (x.start + x.size - (a.toNat + i)) (c - i))
    omega
  · rw [pageLimit, if_pos hpos]
    exact (min_le_left _ _).trans_lt ((leftInPage_le _ _).trans_lt hP)

/-- A state in which `PageSize` has kept an answer, and in which no call will fail. Should
`PageSize` take the answer for the marker of an unknown size, the kernel gives it again. -/
def VmState.kept (m : AddressMap) (granularity : ℕ) (P : BitVec 64) : VmState where
  vm :=
    { byte := fun _ => 0
      map := m
      granularity := granularity
      taskPageSize := ~~~0
      hostPageSize := ~~~0
      faults := fun _ _ => none
      calls := fun _ => 0 }
  memory := { mPageSize := P }

theorem steady_kept (task : Port) (m : AddressMap) (granularity : ℕ) (P : BitVec 64) :
    Steady task P (.kept m granularity P) := by
  refine ⟨fun _ _ => rfl, rfl, ?_⟩
  have hextend : (~~~0 : BitVec 32).signExtend 64 = kInvalidPageSize := by decide
  by_cases hP : P = kInvalidPageSize
  · subst hP
    simp only [VmState.reportedPageSize, VmState.kept, if_true, hextend]
    exact ite_self _
  · exact if_neg hP

/-- **The write loops make progress**, for all answers of the kernel, exactly when there are no data
or 32 bits hold every piece that the write can come to. -/
theorem write_progresses_iff (task : Port) (P : BitVec 64) (a : Addr) (data : Option (List Byte))
    (dataCount : BitVec 64) (m : AddressMap) :
    (∀ s : VmState, s.vm.map = m → 0 < s.vm.granularity → m.Aligned s.vm.granularity →
      Sized task P s → ∃ fuel, WriteProgresses fuel task a data dataCount s) ↔
    data = none ∨ m.SmallPieces P.toNat a dataCount.toNat := by
  constructor
  · intro h
    cases data with
    | none => exact .inl rfl
    | some bytes =>
      refine .inr ?_
      by_contra hlarge
      -- pages of one byte: every map is aligned to them
      have hsteady := steady_kept task m 1 P
      have hal : m.Aligned 1 := fun x _ => ⟨one_dvd _, one_dvd _⟩
      obtain ⟨fuel, -, -, n, s', hrun, -⟩ := h (.kept m 1 P) rfl Nat.one_pos hal hsteady.sized
      rw [write_diverges hsteady Nat.one_pos hal hlarge bytes fuel] at hrun
      cases hrun
  · rintro h s rfl hg hal hsized
    exact ⟨dataCount.toNat + 1, write_progresses hsized hg hal h (Nat.lt_succ_self _)⟩

/-- A map with one region, of `2 ^ 32` bytes that can be read and written. -/
def AddressMap.fourGigabytes : AddressMap where
  regions := [
    { start := 2 ^ 32
      size := 2 ^ 32
      protection := vmProtRead ||| vmProtWrite
      grants := fun _ => true
      size_pos := Nat.two_pow_pos 32
      end_le := by decide }]
  sorted := List.pairwise_singleton _ _

/-- A write of `2 ^ 32` bytes to a region of this size, after both queries for the page size have
failed and `0` has been stored for it: no bytes are written, again and again. -/
theorem write_four_gigabytes_diverges :
    Sized 1 0 (.kept .fourGigabytes 0x4000 0) ∧
    AddressMap.fourGigabytes.Aligned 0x4000 ∧
    (∀ fuel, (MachVMMemory.write fuel 1 0x100000000 (some (List.replicate (2 ^ 32) 0xEE))
      0x100000000).run (.kept .fourGigabytes 0x4000 0) = none) ∧
    ¬ ∃ fuel, WriteProgresses fuel 1 0x100000000 (some (List.replicate (2 ^ 32) 0xEE)) 0x100000000
      (.kept .fourGigabytes 0x4000 0) := by
  have hsteady := steady_kept 1 .fourGigabytes 0x4000 0
  have hal : AddressMap.fourGigabytes.Aligned 0x4000 := by
    intro x hx
    obtain rfl := List.mem_singleton.mp hx
    exact ⟨by decide, by decide⟩
  have hlarge : ¬ AddressMap.fourGigabytes.SmallPieces (0 : BitVec 64).toNat 0x100000000
      (0x100000000 : BitVec 64).toNat := by
    intro h
    refine absurd (h 0 (by decide) ?_ _ rfl) (by decide)
    intro j hj
    obtain rfl := Nat.le_zero.mp hj
    decide
  have hdiverges (fuel : ℕ) : (MachVMMemory.write fuel 1 0x100000000
      (some (List.replicate (2 ^ 32) 0xEE)) 0x100000000).run (.kept .fourGigabytes 0x4000 0) =
        none :=
    write_diverges hsteady (Nat.zero_lt_succ _) hal hlarge _ fuel
  refine ⟨hsteady.sized, hal, hdiverges, ?_⟩
  rintro ⟨fuel, -, -, n, s', hrun, -⟩
  rw [hdiverges fuel] at hrun
  cases hrun

end MachDebug
