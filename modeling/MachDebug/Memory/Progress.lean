import MachDebug.Memory.Reach

/-!
# Progress of the write loops

`WriteRegion` keeps the size of a piece in 32 bits, and `MaxBytesLeftInPage` sets no limit while the
page size is unknown. As long as 32 bits hold every piece, each iteration of the two loops that does
not break writes at least one byte, whatever the kernel answers.

## Main definitions

* `AddressMap.SmallPieces m P a c`: 32 bits hold every piece that a write can come to
* `WriteProgresses fuel task a data dataCount s`: both loops make progress, and `Write` returns
* `StillSized task P s`: `PageSize` goes on to return `P`, unless `P` stands for an unknown size

## Main results

* `maxBytesLeftInPage_small`: a piece that 32 bits hold
* `writeRegionBody_returns`: an iteration of `WriteRegion` makes progress
* `writeBody_returns`: so does one of `Write`
* `write_progresses`: and so do all of them
-/

namespace MachDebug

open Program

/-- 32 bits hold every piece that a write of `c` bytes at `a` can come to, with pages of `P` bytes:
what is left of the page, of the region and of the request is never `2 ^ 32` bytes or more. -/
def AddressMap.SmallPieces (m : AddressMap) (P : ℕ) (a : Addr) (c : ℕ) : Prop :=
  ∀ i < c, m.Reaches a i → ∀ x, m.find (a.toNat + i) = some x →
    pageLimit P (a.toNat + i) (min (x.start + x.size - (a.toNat + i)) (c - i)) < 2 ^ 32

/-- **Progress of a write**: in every iteration of the two loops that goes on, the number of bytes
written grows, up to the number of bytes wanted; and the loops return, and so does `Write`. -/
structure WriteProgresses (fuel : ℕ) (task : Port) (a : Addr) (data : Option (List Byte))
    (dataCount : BitVec 64) (s : VmState) : Prop where
  outer : Partial.Progresses (MachVMMemory.writeBody fuel task dataCount) (·.total.toNat)
    dataCount.toNat { currAddr := a, currData := data } s
  /-- The calls of `WriteRegion`, from each loop head of `Write`. -/
  inner : ∀ p, Partial.Reached (MachVMMemory.writeBody fuel task dataCount)
      ({ currAddr := a, currData := data }, s) p → p.1.total < dataCount →
    ∀ count region t bytes, p.1.currData = some bytes →
      (MachVMMemory.enterRegion p.1.region p.1.currAddr (dataCount - p.1.total)).run p.2 =
        some ((some count, region), t) →
      Partial.Progresses (MachVMMemory.writeRegionBody task count) (·.total.toNat) count.toNat
        { currAddr := p.1.currAddr, currData := bytes } t
  returns : ∃ n s', (MachVMMemory.write fuel task a data dataCount).run s = some (n, s') ∧
    n ≤ dataCount

/-! ## The page size -/

/-- `PageSize` goes on to return `P`. When `P` is the marker of an unknown size it asks the kernel
again, which may give another answer. -/
def StillSized (task : Port) (P : BitVec 64) (s : VmState) : Prop :=
  P = kInvalidPageSize ∨ Sized task P s

section Pieces

variable {task : Port} {P : BitVec 64} {s : VmState} {y : Addr} {count : BitVec 64}

theorem StillSized.of_same {s' : VmState} (h : StillSized task P s) (hs : SameSizes s s') :
    StillSized task P s' :=
  h.imp id fun h => h.of_same hs

/-- The marker of an unknown page size, taken as a size, sets no limit inside a region. -/
theorem pageLimit_kInvalidPageSize {x n : ℕ} (hn : 0 < n) (h : x + n < 2 ^ 64) :
    pageLimit kInvalidPageSize.toNat x n = n := by
  have hinvalid : kInvalidPageSize.toNat = 2 ^ 64 - 1 := by decide
  have hmod : x % (2 ^ 64 - 1) = x := Nat.mod_eq_of_lt (by omega)
  rw [hinvalid, pageLimit, if_pos (by omega), leftInPage, hmod]
  exact min_eq_right (by omega)

/-- **A piece that 32 bits hold**, at an offset from the start of a range. -/
theorem maxBytesLeftInPage_small (h : StillSized task P s) (hend : y.toNat + count.toNat < 2 ^ 64)
    (hsmall : ∀ k < count.toNat, pageLimit P.toNat (y.toNat + k) (count.toNat - k) < 2 ^ 32)
    {total : BitVec 64} (htotal : total.toNat < count.toNat) :
    Partial.Returns
      (MachVMMemory.maxBytesLeftInPage task (y + BitVec.ofNat 64 total.toNat) (count - total))
      (fun n s' => 0 < n.toNat ∧ n.toNat < 2 ^ 32 ∧ n.toNat ≤ count.toNat - total.toNat ∧
        StillSized task P s') s := by
  have haddr : (y + BitVec.ofNat 64 total.toNat).toNat = y.toNat + total.toNat :=
    Vm.toNat_offset (by omega)
  have hsub : (count - total).toNat = count.toNat - total.toNat := by bv_omega
  have hpos : 0 < count.toNat - total.toNat := by omega
  refine (maxBytesLeftInPage_limit (sized_iff_next.mpr rfl) _ _).mono ?_
  intro n t ht
  obtain ⟨hn, hkept, -⟩ := ht
  rw [haddr, hsub] at hn
  refine ⟨hn ▸ pageLimit_pos hpos, ?_, hn ▸ pageLimit_le _ _ _, ?_⟩
  · rcases h with rfl | h
    -- the size may be any now, but the whole rest of the range is small
    · have hrest := hsmall total.toNat htotal
      rw [pageLimit_kInvalidPageSize hpos (by omega)] at hrest
      exact hn ▸ (pageLimit_le _ _ _).trans_lt hrest
    · rw [hn, sized_iff_next.mp h]
      exact hsmall total.toNat htotal
  · by_cases hP : P = kInvalidPageSize
    · exact .inl hP
    · refine .inr (.of_kept hP ?_)
      rw [hkept]
      exact sized_iff_next.mp (h.resolve_left hP)

end Pieces

/-! ## `WriteRegion` -/

/-- A piece returns, whatever the kernel answers. -/
theorem writePiece_stillSized {task : Port} {P : BitVec 64} {s : VmState} (h : StillSized task P s)
    (a : Addr) (bytes : List Byte) (count : BitVec 64) :
    Partial.Returns (MachVMMemory.writePiece a bytes count) (fun _ s' => StillSized task P s')
      s := by
  have hreturns : Partial.Returns (MachVMMemory.writePiece a bytes count) (fun _ _ => True) s :=
    ⟨_, _, rfl, trivial⟩
  refine (hreturns.and_post (MachVMMemory.writePiece_sameSizes a bytes count s)).mono ?_
  rintro ok t ⟨-, hsame⟩
  exact h.of_same hsame

/-- The invariant of the loop of `WriteRegion`, for all answers of the kernel. -/
structure InRegion (task : Port) (P : BitVec 64) (y : Addr) (count : BitVec 64)
    (x : WriteRegionVars) (s : VmState) : Prop where
  total_le : x.total.toNat ≤ count.toNat
  currAddr : x.currAddr = y + BitVec.ofNat 64 x.total.toNat
  stillSized : StillSized task P s

section WriteRegion

variable {task : Port} {P : BitVec 64} {s : VmState} {y : Addr} {count : BitVec 64}

/-- **An iteration of `WriteRegion`** that goes on has written at least one byte. -/
theorem writeRegionBody_returns (hend : y.toNat + count.toNat < 2 ^ 64)
    (hsmall : ∀ k < count.toNat, pageLimit P.toNat (y.toNat + k) (count.toNat - k) < 2 ^ 32)
    (x : WriteRegionVars) (s : VmState) (h : InRegion task P y count x s) :
    Partial.Returns (MachVMMemory.writeRegionBody task count x)
      (Sum.elim (fun x' s' => InRegion task P y count x' s' ∧ x.total.toNat < x'.total.toNat ∧
        x'.total.toNat ≤ count.toNat)
        fun n s' => n.toNat ≤ count.toNat ∧ StillSized task P s') s := by
  obtain ⟨htotal, haddr, hsized⟩ := h
  refine .ite (fun hlt => ?_) fun _ => .ret ⟨htotal, hsized⟩
  rw [haddr]
  refine .bind <| (maxBytesLeftInPage_small hsized hend hsmall hlt).mono ?_
  intro n t ht
  obtain ⟨hpos, h32, hle, ht⟩ := ht
  have hcast : (n.setWidth 32).setWidth 64 = n := by bv_omega
  have hlt' : x.total.toNat < count.toNat := hlt
  have hsum : (x.total + n).toNat = x.total.toNat + n.toNat := by bv_omega
  simp only [hcast]
  refine .bind <| (writePiece_stillSized ht _ _ n).mono ?_
  intro ok u hu
  refine .ite (fun _ => .ret ⟨⟨?_, ?_, hu⟩, ?_, ?_⟩) fun _ => .ret ⟨htotal, hu⟩
  · rw [hsum]
    omega
  · rw [hsum]
    exact Vm.offset_add y _ n
  · rw [hsum]
    omega
  · rw [hsum]
    omega

/-- The loop of `WriteRegion` makes progress. -/
theorem writeRegion_progresses (hend : y.toNat + count.toNat < 2 ^ 64)
    (hsmall : ∀ k < count.toNat, pageLimit P.toNat (y.toNat + k) (count.toNat - k) < 2 ^ 32)
    (h : StillSized task P s) (bytes : List Byte) :
    Partial.Progresses (MachVMMemory.writeRegionBody task count) (·.total.toNat) count.toNat
      { currAddr := y, currData := bytes } s := by
  refine .of_inv (I := InRegion task P y count) (fun x s hx => ?_) ⟨Nat.zero_le _, by simp, h⟩
  refine (writeRegionBody_returns hend hsmall x s hx).mono ?_
  intro r t hr
  cases r with
  | inl x' => exact hr
  | inr n => trivial

/-- **`WriteRegion`** returns, and has written no more than it should. -/
theorem writeRegion_stillSized (hend : y.toNat + count.toNat < 2 ^ 64)
    (hsmall : ∀ k < count.toNat, pageLimit P.toNat (y.toNat + k) (count.toNat - k) < 2 ^ 32)
    (h : StillSized task P s) (bytes : List Byte) {fuel : ℕ} (hfuel : count.toNat < fuel) :
    Partial.Returns (MachVMMemory.writeRegion fuel task y (some bytes) count)
      (fun n s' => n.toNat ≤ count.toNat ∧ StillSized task P s' ∧ SameMap s s') s := by
  have hreturns : Partial.Returns (MachVMMemory.writeRegion fuel task y (some bytes) count)
      (fun n s' => n.toNat ≤ count.toNat ∧ StillSized task P s') s := by
    refine .ite (fun _ => .ret ⟨Nat.zero_le _, h⟩) fun _ => ?_
    rw [MachVMMemory.writeRegionLoop_eq_loop]
    exact Partial.loop_returns (writeRegionBody_returns hend hsmall) (by simpa using hfuel)
      ⟨Nat.zero_le _, by simp, h⟩
  refine (hreturns.and_post
    (MachVMMemory.writeRegion_sameMap fuel task y (some bytes) count s)).mono ?_
  rintro n t ⟨⟨hn, ht⟩, hsame⟩
  exact ⟨hn, ht, hsame⟩

end WriteRegion

/-! ## `Write` -/

/-- From the bytes that a write has reached on, it can reach all bytes of the next region. -/
theorem AddressMap.reaches_add {m : AddressMap} {a : Addr} {t : ℕ}
    (h : ∀ j < t, (m.find (a + BitVec.ofNat 64 j).toNat).any Region.writable = true) {x : Region}
    (hx : m.find (a + BitVec.ofNat 64 t).toNat = some x) (hw : x.writable = true) {k : ℕ}
    (hk : (a + BitVec.ofNat 64 t).toNat + k < x.start + x.size) :
    m.Reaches a (t + k) ∧ m.find (a.toNat + (t + k)) = some x := by
  have hend := (Region.writable_iff.mp hw).2
  obtain ⟨hmem, hstart, -⟩ := find_eq_some_iff.mp hx
  have hin {l : ℕ} (hl : l ≤ k) : m.find (a + BitVec.ofNat 64 (t + l)).toNat = some x := by
    have hadd : (a + BitVec.ofNat 64 (t + l)).toNat = (a + BitVec.ofNat 64 t).toNat + l := by
      rw [← Vm.offset_offset]
      exact Vm.toNat_offset (by omega)
    rw [hadd]
    exact find_eq_some_iff.mpr ⟨hmem, by omega, by omega⟩
  have hreaches : m.Reaches a (t + k) := by
    intro j hj
    rcases Nat.lt_or_ge j t with hlt | hge
    · exact h j hlt
    · obtain ⟨l, rfl⟩ := Nat.exists_eq_add_of_le hge
      rw [hin (by omega)]
      exact hw
  refine ⟨hreaches, ?_⟩
  rw [← hreaches.toNat_add]
  exact hin le_rfl

/-- The invariant of the loop of `Write`, for all answers of the kernel. Without data, `WriteRegion`
writes nothing. -/
structure InWrite (task : Port) (P : BitVec 64) (m : AddressMap) (a : Addr) (dataCount : BitVec 64)
    (x : WriteVars) (s : VmState) : Prop where
  cutting : Cutting m x.region s
  stillSized : StillSized task P s
  total_le : x.total.toNat ≤ dataCount.toNat
  currAddr : x.currAddr = a + BitVec.ofNat 64 x.total.toNat
  reached : ∀ j < x.total.toNat, (m.find (a + BitVec.ofNat 64 j).toNat).any Region.writable = true
  small : x.currData = none ∨ m.SmallPieces P.toNat a dataCount.toNat

section Write

variable {task : Port} {P : BitVec 64} {m : AddressMap} {a : Addr} {dataCount : BitVec 64}
  {x : WriteVars} {s : VmState}

/-- What `WriteRegion` is called with. -/
structure Entered (task : Port) (P : BitVec 64) (m : AddressMap) (a : Addr) (dataCount : BitVec 64)
    (x : WriteVars) (count : BitVec 64) (s : VmState) : Prop where
  stillSized : StillSized task P s
  count_pos : 0 < count.toNat
  count_le : x.total.toNat + count.toNat ≤ dataCount.toNat
  inside : x.currAddr.toNat + count.toNat < 2 ^ 64
  reached : ∀ j < x.total.toNat + count.toNat,
    (m.find (a + BitVec.ofNat 64 j).toNat).any Region.writable = true
  small : x.currData = none ∨
    ∀ k < count.toNat, pageLimit P.toNat (x.currAddr.toNat + k) (count.toNat - k) < 2 ^ 32

/-- **The calls of `WriteRegion`** are for ranges whose pieces are small. -/
theorem InWrite.enterRegion (h : InWrite task P m a dataCount x s) (hlt : x.total < dataCount) :
    Partial.Returns (MachVMMemory.enterRegion x.region x.currAddr (dataCount - x.total))
      (fun p s' => Cutting m p.2 s' ∧ StillSized task P s' ∧ ∀ count, p.1 = some count →
        Entered task P m a dataCount x count s') s := by
  have hlt' : x.total.toNat < dataCount.toNat := hlt
  have hsub : (dataCount - x.total).toNat = dataCount.toNat - x.total.toNat := by bv_omega
  refine ((enterRegion_returns h.cutting x.currAddr (by omega)).and_post
    (enterRegion_sameSizes _ _ _ s)).mono ?_
  rintro ⟨c, region⟩ t ⟨⟨hcut, hc⟩, hsame⟩
  have hsized := h.stillSized.of_same hsame
  refine ⟨hcut, hsized, fun count hcount => ?_⟩
  obtain ⟨z, hz, hw, hzend, hpos, hle⟩ := hc count hcount
  rw [h.currAddr] at hz hzend
  have hbytes (k : ℕ) (hk : k < count.toNat) :=
    AddressMap.reaches_add h.reached hz hw (Nat.lt_of_lt_of_le (Nat.add_lt_add_left hk _) hzend)
  have hwend := (Region.writable_iff.mp hw).2
  have haddr : x.currAddr.toNat = a.toNat + x.total.toNat := by
    rw [h.currAddr]
    exact (hbytes 0 hpos).1.toNat_add
  refine ⟨hsized, hpos, by omega, ?_, fun j hj => ?_, ?_⟩
  · rw [h.currAddr]
    omega
  · rcases Nat.lt_or_ge j x.total.toNat with hj' | hj'
    · exact h.reached j hj'
    · obtain ⟨k, rfl⟩ := Nat.exists_eq_add_of_le hj'
      exact (hbytes k (by omega)).1 _ le_rfl
  · refine h.small.imp id ?_
    intro hsmall k hk
    obtain ⟨hreaches, hfind⟩ := hbytes k hk
    have hpiece := hsmall _ (by omega) hreaches z hfind
    rw [← h.currAddr] at hzend
    rw [haddr, Nat.add_assoc]
    exact (pageLimit_mono (by omega)).trans_lt hpiece

/-- **An iteration of `Write`** that goes on has written at least one byte. -/
theorem writeBody_returns {fuel : ℕ} (hfuel : dataCount.toNat < fuel) (x : WriteVars) (s : VmState)
    (h : InWrite task P m a dataCount x s) :
    Partial.Returns (MachVMMemory.writeBody fuel task dataCount x)
      (Sum.elim (fun x' s' => InWrite task P m a dataCount x' s' ∧
        x.total.toNat < x'.total.toNat ∧ x'.total.toNat ≤ dataCount.toNat)
        fun r _ => r.1.toNat ≤ dataCount.toNat) s := by
  refine .ite (fun hlt => ?_) fun _ => .ret h.total_le
  refine .bind <| (h.enterRegion hlt).mono ?_
  rintro ⟨c, region⟩ t ⟨hcut, hsized, hentered⟩
  cases c with
  | none => exact .ret h.total_le
  | some count =>
    have he := hentered count rfl
    have hle := he.count_le
    cases hdata : x.currData with
    | none =>
      exact .bind <| .ret <| .ite (fun _ => .ret h.total_le) fun hz => absurd (BitVec.le_refl _) hz
    | some bytes =>
      have hsmall := he.small.resolve_left (by simp [hdata])
      refine .bind <|
        (writeRegion_stillSized he.inside hsmall he.stillSized bytes (by omega)).mono ?_
      rintro n u ⟨hn, hu, hsame⟩
      refine .ite (fun _ => .ret h.total_le) fun hz => .ret ?_
      -- at least one byte has been written, or the loop would break
      have hpos : 0 < n.toNat := not_le.mp hz
      have hsum : (x.total + n).toNat = x.total.toNat + n.toNat := by bv_omega
      refine ⟨⟨hcut.of_sameMap hsame, hu, ?_, ?_, fun j hj => ?_, ?_⟩, ?_, ?_⟩
      · rw [hsum]
        omega
      · rw [h.currAddr, hsum]
        exact Vm.offset_add a _ n
      · rw [hsum] at hj
        exact he.reached j (by omega)
      · exact .inr (h.small.resolve_left (by simp [hdata]))
      · rw [hsum]
        omega
      · rw [hsum]
        omega

/-- **Progress**: when 32 bits hold every piece, both loops make progress and `Write` returns,
whatever the kernel answers. -/
theorem write_progresses {data : Option (List Byte)} (hsized : Sized task P s)
    (hg : 0 < s.vm.granularity) (hal : s.vm.map.Aligned s.vm.granularity)
    (hsmall : data = none ∨ s.vm.map.SmallPieces P.toNat a dataCount.toNat) {fuel : ℕ}
    (hfuel : dataCount.toNat < fuel) : WriteProgresses fuel task a data dataCount s := by
  have hstart : InWrite task P s.vm.map a dataCount { currAddr := a, currData := data } s :=
    ⟨⟨hg, hal, .refl _, fun hd => absurd hd MachVMRegion.not_dirty⟩, .inr hsized, Nat.zero_le _,
      by simp, fun j hj => absurd hj (Nat.not_lt_zero j), hsmall⟩
  refine ⟨.of_inv (I := InWrite task P s.vm.map a dataCount) (fun x t hx => ?_) hstart,
    fun p hp hlt count region t bytes hdata hrun => ?_, ?_⟩
  · refine (writeBody_returns hfuel x t hx).mono ?_
    intro r u hr
    cases r with
    | inl x' => exact hr
    | inr n => trivial
  · have hinv : InWrite task P s.vm.map a dataCount p.1 p.2 := by
      refine hp.inv (fun x t hx => ?_) hstart
      refine (writeBody_returns hfuel x t hx).post.mono ?_
      intro r u hr
      cases r with
      | inl x' => exact hr.1
      | inr n => trivial
    have hentered := (hinv.enterRegion hlt).post _ _ hrun
    have he := hentered.2.2 count rfl
    have hsmall := he.small.resolve_left (by simp [hdata])
    exact writeRegion_progresses he.inside hsmall he.stillSized bytes
  · have hwrite : Partial.Returns (MachVMMemory.write fuel task a data dataCount)
        (fun n _ => n ≤ dataCount) s := by
      unfold MachVMMemory.write
      rw [MachVMMemory.writeLoop_eq_loop]
      refine .bind <| (Partial.loop_returns (writeBody_returns hfuel) (by simpa using hfuel)
        hstart).mono ?_
      intro r t hr
      exact .bind <| (clear_returns r.2 t).mono fun _ _ _ => .ret hr
    exact hwrite

end Write

end MachDebug
