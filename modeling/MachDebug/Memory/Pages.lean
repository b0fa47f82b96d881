import MachDebug.Memory.MachVMMemory

/-!
# The page size

`PageSize` asks the kernel once and keeps the answer. `MaxBytesLeftInPage` cuts a request at the
next page boundary, so that a piece never crosses one and is never empty.

## Main definitions

* `Sized task P s`: `PageSize` returns `P`
* `Recalled s s'`: only the members of `MachVMMemory` and the numbers of calls have changed
* `VmState.nextPageSize s task`: what `PageSize` returns next
* `pageLimit P a n`: what `MaxBytesLeftInPage` leaves of `n` bytes
* `SameSizes s s'`: what `PageSize` depends on is as before

## Main results

* `pageSize_returns`: `PageSize` returns the same again
* `maxBytesLeftInPage_limit`: how a request is cut, also when the page size is `0`
* `maxBytesLeftInPage_returns`: a piece ends at the next page boundary at the latest
* `page_end_le`: a page does not end above the address space
-/

namespace MachDebug

open Program

theorem vmCall_returns {β : Type} {f : Vm → β × Vm} {Q : β → VmState → Prop} {s : VmState}
    (h : Q (f s.vm).1 { s with vm := (f s.vm).2 }) : Partial.Returns (vmCall f) Q s :=
  ⟨_, _, rfl, h⟩

/-- Only the members of `MachVMMemory` and the numbers of calls have changed. -/
structure Recalled (s s' : VmState) : Prop where
  vm : s'.vm = { s.vm with calls := s'.vm.calls }

instance : Std.Refl Recalled := ⟨fun _ => ⟨rfl⟩⟩

instance : IsTrans VmState Recalled := ⟨fun _ _ _ h h' => ⟨by rw [h'.vm, h.vm]⟩⟩

theorem setErr_recalled (kr : KernReturn) : Partial.Keeps Recalled (setErr kr) := by
  rintro s a s' hrun
  cases hrun
  exact ⟨rfl⟩

theorem setPageSize_recalled (size : BitVec 64) : Partial.Keeps Recalled (setPageSize size) := by
  rintro s a s' hrun
  cases hrun
  exact ⟨rfl⟩

/-- A call that is answered without a change of the memory. -/
theorem vmCall_recalled {β : Type} {c : VmCall} {fail : KernReturn → β} {answer : Vm → β} :
    Partial.Keeps Recalled (vmCall fun v => v.issue c fail fun v => (answer v, v)) := by
  rintro s a s' hrun
  cases hrun
  constructor
  exact Vm.issue_ind (M := fun r : β × Vm => r.2 = { s.vm with calls := r.2.calls })
    (fun _ _ => rfl) rfl

namespace MachVMMemory

theorem hostPageSize_recalled : Partial.Keeps Recalled hostPageSize :=
  .bind vmCall_recalled fun _ => .bind (setErr_recalled _) fun _ =>
    .bind (setPageSize_recalled _) fun _ => .ret _

theorem pageSize_recalled (task : Port) : Partial.Keeps Recalled (pageSize task) := by
  refine .bind (fun s _ _ hrun => by cases hrun; exact refl_of Recalled s) ?_
  intro s
  refine .ite (.ite (.bind vmCall_recalled fun r => ?_) hostPageSize_recalled) (.ret _)
  exact .ite (.bind (setPageSize_recalled _) fun _ => .ret _) hostPageSize_recalled

/-- The host's answer is kept. -/
theorem hostPageSize_kept (s : VmState) :
    Partial.Returns hostPageSize (fun n s' => s'.memory.mPageSize = n) s :=
  .bind <| vmCall_returns <| .bind ⟨_, _, rfl, .bind ⟨_, _, rfl, .ret rfl⟩⟩

/-- `PageSize` returns, and keeps its answer. -/
theorem pageSize_kept (task : Port) (s : VmState) :
    Partial.Returns (pageSize task) (fun n s' => s'.memory.mPageSize = n) s := by
  refine .bind ⟨s, s, rfl, .ite (fun hinv => ?_) fun _ => .ret rfl⟩
  refine .ite (fun _ => .bind <| vmCall_returns ?_) fun _ => hostPageSize_kept s
  exact .ite (fun _ => .bind ⟨_, _, rfl, .ret rfl⟩) fun _ => hostPageSize_kept _

end MachVMMemory

/-- `PageSize` returns `P`. -/
def Sized (task : Port) (P : BitVec 64) (s : VmState) : Prop :=
  ∃ s', (MachVMMemory.pageSize task).run s = some (P, s')

/-- A page size below `2 ^ 32` is not the marker of an unknown one. -/
theorem ne_kInvalidPageSize {P : BitVec 64} (h : P.toNat < 2 ^ 32) : P ≠ kInvalidPageSize := by
  rintro rfl
  exact absurd h (by decide)

/-- What `PageSize` returns: the size that has been kept, or what the kernel answers to the two
queries, or `0`. -/
def VmState.nextPageSize (s : VmState) (task : Port) : BitVec 64 :=
  if s.memory.mPageSize = kInvalidPageSize then
    if task ≠ 0 ∧ (s.vm.faults .taskVmInfo (s.vm.calls .taskVmInfo)).isNone then
      s.vm.taskPageSize.signExtend 64
    else if (s.vm.faults .hostPageSize (s.vm.calls .hostPageSize)).isNone then s.vm.hostPageSize
    else 0
  else s.memory.mPageSize

theorem hostPageSize_next (s : VmState) : Partial.Returns MachVMMemory.hostPageSize
    (fun n _ => n = if (s.vm.faults .hostPageSize (s.vm.calls .hostPageSize)).isNone then
      s.vm.hostPageSize else 0) s := by
  refine .bind <| vmCall_returns <| .bind ⟨_, _, rfl, .bind ⟨_, _, rfl, .ret ?_⟩⟩
  unfold Vm.hostPageSizeCall Vm.issue
  cases hf : s.vm.faults .hostPageSize (s.vm.calls .hostPageSize) with
  | none => rfl
  | some e => exact if_pos e.2

theorem sized_iff_next {task : Port} {P : BitVec 64} {s : VmState} :
    Sized task P s ↔ s.nextPageSize task = P := by
  have hrun : Partial.Returns (MachVMMemory.pageSize task)
      (fun n _ => n = s.nextPageSize task) s := by
    unfold VmState.nextPageSize
    refine .bind ⟨s, s, rfl, .ite (fun hinv => ?_) fun hinv => ?_⟩
    · rw [if_pos hinv]
      refine .ite (fun ht => .bind <| vmCall_returns ?_) fun ht => ?_
      · unfold Vm.taskVmInfo Vm.issue
        cases hf : s.vm.faults .taskVmInfo (s.vm.calls .taskVmInfo) with
        | none =>
          exact .ite (fun _ => .bind ⟨_, _, rfl, .ret (if_pos ⟨ht, rfl⟩).symm⟩)
            fun h => absurd rfl h
        | some e =>
          refine .ite (fun h => absurd h e.2) fun _ => ?_
          refine (hostPageSize_next _).mono ?_
          intro n _ hn
          simpa [Vm.tally] using hn
      · refine (hostPageSize_next s).mono ?_
        intro n _ hn
        simpa [ht] using hn
    · exact .ret (if_neg hinv).symm
  obtain ⟨n, s', hn, rfl⟩ := hrun
  constructor
  · rintro ⟨s'', hP⟩
    exact (Prod.mk.inj (Option.some.inj (hn.symm.trans hP))).1
  · rintro rfl
    exact ⟨s', hn⟩

/-- A page size that has been kept is returned. -/
theorem Sized.of_kept {task : Port} {P : BitVec 64} {s : VmState} (hP : P ≠ kInvalidPageSize)
    (h : s.memory.mPageSize = P) : Sized task P s := by
  refine ⟨s, ?_⟩
  subst h
  simp [MachVMMemory.pageSize, hP]

section Pages

variable {task : Port} {P : BitVec 64} {s : VmState}

/-- `PageSize` returns the same again. -/
theorem pageSize_returns (h : Sized task P s) : Partial.Returns (MachVMMemory.pageSize task)
    (fun n s' => n = P ∧ s'.memory.mPageSize = P ∧ Recalled s s') s := by
  obtain ⟨s', hrun⟩ := h
  obtain ⟨n, s'', hrun', hkept⟩ := MachVMMemory.pageSize_kept task s
  obtain ⟨rfl, rfl⟩ := Prod.mk.inj (Option.some.inj (hrun.symm.trans hrun'))
  exact ⟨P, s', hrun, rfl, hkept, MachVMMemory.pageSize_recalled task s P s' hrun⟩

/-- The bytes left in the page of an address. -/
def leftInPage (P a : ℕ) : ℕ := P - a % P

theorem leftInPage_pos {p a : ℕ} (hp : 0 < p) : 0 < leftInPage p a :=
  Nat.sub_pos_of_lt (Nat.mod_lt a hp)

theorem leftInPage_le (p a : ℕ) : leftInPage p a ≤ p := Nat.sub_le _ _

/-- What `MaxBytesLeftInPage` leaves of `n` bytes at an address. The page size `0` is that of an
unknown page, which sets no limit. -/
def pageLimit (P a n : ℕ) : ℕ := if 0 < P then min (leftInPage P a) n else n

theorem pageLimit_le (p a n : ℕ) : pageLimit p a n ≤ n := by
  unfold pageLimit
  split
  · exact min_le_right _ _
  · exact le_rfl

theorem pageLimit_pos {p a n : ℕ} (hn : 0 < n) : 0 < pageLimit p a n := by
  unfold pageLimit
  split
  · exact lt_min (leftInPage_pos ‹_›) hn
  · exact hn

theorem pageLimit_mono {p a m n : ℕ} (h : m ≤ n) : pageLimit p a m ≤ pageLimit p a n := by
  unfold pageLimit
  split
  · exact min_le_min_left _ h
  · exact h

/-- `MaxBytesLeftInPage`, with any page size. -/
theorem maxBytesLeftInPage_limit (h : Sized task P s) (a : Addr) (count : BitVec 64) :
    Partial.Returns (MachVMMemory.maxBytesLeftInPage task a count)
      (fun n s' => n.toNat = pageLimit P.toNat a.toNat count.toNat ∧
        s'.memory.mPageSize = P ∧ Recalled s s') s := by
  refine .bind <| (pageSize_returns h).mono ?_
  intro n t ht
  obtain ⟨rfl, hkept, hrec⟩ := ht
  refine .ite (fun hpos => .ret ⟨?_, hkept, hrec⟩) fun hz => .ret ⟨?_, hkept, hrec⟩
  · have hpos' : 0 < n.toNat := hpos
    have hleft : (n - a % n).toNat = leftInPage n.toNat a.toNat := by
      have hmod : (a % n).toNat = a.toNat % n.toNat := BitVec.toNat_umod
      have hlt := Nat.mod_lt a.toNat hpos'
      rw [leftInPage, ← hmod] at *
      bv_omega
    rw [pageLimit, if_pos hpos', ← hleft]
    exact Vm.toNat_min _ _
  · have hz' : ¬ 0 < n.toNat := hz
    rw [pageLimit, if_neg hz']

/-- **A piece** ends at the next page boundary at the latest. -/
theorem maxBytesLeftInPage_returns (h : Sized task P s) (hP : 0 < P) (a : Addr)
    (count : BitVec 64) : Partial.Returns (MachVMMemory.maxBytesLeftInPage task a count)
      (fun n s' => n.toNat = min (leftInPage P.toNat a.toNat) count.toNat ∧
        s'.memory.mPageSize = P ∧ Recalled s s') s := by
  have hpos : 0 < P.toNat := hP
  refine (maxBytesLeftInPage_limit h a count).mono ?_
  intro n t ht
  rwa [pageLimit, if_pos hpos] at ht

/-- A page does not end above the address space. -/
theorem page_end_le {p k x : ℕ} (hp : p = 2 ^ k) (hk : p < 2 ^ 64) (hx : x < 2 ^ 64) :
    x + leftInPage p x ≤ 2 ^ 64 := by
  have hpos : 0 < p := hp ▸ Nat.two_pow_pos k
  have hdvd : p ∣ 2 ^ 64 := by
    rw [hp] at hk ⊢
    exact Nat.pow_dvd_pow 2 ((Nat.pow_lt_pow_iff_right (by decide)).mp hk).le
  obtain ⟨c, hc⟩ := hdvd
  have hdiv := Nat.div_add_mod x p
  have hlt : x / p < c := by
    refine Nat.div_lt_of_lt_mul ?_
    rwa [← hc]
  have hmul : p * (x / p) + p ≤ p * c := by
    have := Nat.mul_le_mul_left p (Nat.succ_le_of_lt hlt)
    rwa [Nat.mul_succ] at this
  have hmod := Nat.mod_lt x hpos
  rw [leftInPage, hc]
  omega

/-- The addresses of a piece are all in one page. -/
theorem div_eq_of_lt_leftInPage {p x i : ℕ} (hp : 0 < p) (hi : i < leftInPage p x) :
    (x + i) / p = x / p := by
  have hdiv := Nat.div_add_mod x p
  have hmod := Nat.mod_lt x hp
  rw [leftInPage] at hi
  refine Nat.div_eq_of_lt_le ?_ ?_
  · rw [Nat.mul_comm]
    omega
  · rw [Nat.succ_mul, Nat.mul_comm]
    omega

/-- Inside a page, addresses do not wrap around. -/
theorem toNat_add_of_lt_leftInPage {p k i : ℕ} (hp : p = 2 ^ k) (hk : p < 2 ^ 64) {x : Addr}
    (hi : i < leftInPage p x.toNat) : (x + BitVec.ofNat 64 i).toNat = x.toNat + i := by
  have hend := page_end_le hp hk x.isLt
  exact Vm.toNat_offset (by omega)

end Pages

/-! ## Calls that leave the page size alone -/

/-- The two queries of `PageSize` will be answered as before. -/
def Vm.SameSizes (v v' : Vm) : Prop :=
  v'.faults = v.faults ∧ v'.taskPageSize = v.taskPageSize ∧ v'.hostPageSize = v.hostPageSize ∧
    v'.calls .taskVmInfo = v.calls .taskVmInfo ∧ v'.calls .hostPageSize = v.calls .hostPageSize

/-- `PageSize` will return the same as before. -/
structure SameSizes (s s' : VmState) : Prop where
  kept : s'.memory.mPageSize = s.memory.mPageSize
  vm : s.vm.SameSizes s'.vm

instance : Std.Refl SameSizes := ⟨fun _ => ⟨rfl, rfl, rfl, rfl, rfl, rfl⟩⟩

instance : IsTrans VmState SameSizes where
  trans _ _ _ := by
    rintro ⟨hk, h₁, h₂, h₃, h₄, h₅⟩ ⟨hk', h₁', h₂', h₃', h₄', h₅'⟩
    exact ⟨hk'.trans hk, h₁'.trans h₁, h₂'.trans h₂, h₃'.trans h₃, h₄'.trans h₄, h₅'.trans h₅⟩

theorem Sized.of_same {task : Port} {P : BitVec 64} {s s' : VmState} (h : Sized task P s)
    (hs : SameSizes s s') : Sized task P s' := by
  obtain ⟨hkept, hfaults, htask, hhost, hcalls, hcalls'⟩ := hs
  rw [sized_iff_next] at h ⊢
  rw [← h, VmState.nextPageSize, VmState.nextPageSize, hkept, hfaults, htask, hhost, hcalls,
    hcalls']

/-- A call of another kind. -/
theorem Vm.issue_sameSizes {β : Type} {v : Vm} {c : VmCall} {fail : KernReturn → β}
    {act : Vm → β × Vm} (hc : c ≠ .taskVmInfo) (hc' : c ≠ .hostPageSize)
    (h : ∀ v : Vm, v.SameSizes (act v).2) : v.SameSizes (v.issue c fail act).2 := by
  have htally : v.SameSizes (v.tally c) :=
    ⟨rfl, rfl, rfl, Function.update_of_ne hc.symm _ _, Function.update_of_ne hc'.symm _ _⟩
  refine Vm.issue_ind (M := fun r : β × Vm => v.SameSizes r.2) (fun _ _ => htally) ?_
  obtain ⟨h₁, h₂, h₃, h₄, h₅⟩ := htally
  obtain ⟨h₁', h₂', h₃', h₄', h₅'⟩ := h (v.tally c)
  exact ⟨h₁'.trans h₁, h₂'.trans h₂, h₃'.trans h₃, h₄'.trans h₄, h₅'.trans h₅⟩

theorem vmCall_sameSizes {β : Type} {f : Vm → β × Vm} (h : ∀ v : Vm, v.SameSizes (f v).2) :
    Partial.Keeps SameSizes (vmCall f) := by
  rintro s a s' hrun
  cases hrun
  exact ⟨rfl, h s.vm⟩

/-- A change of what `PageSize` does not read. -/
theorem modify_sameSizes {f : VmState → VmState} (h : ∀ s, SameSizes s (f s)) :
    Partial.Keeps SameSizes (modify f : VmM Unit) := by
  rintro s u s' hrun
  cases hrun
  exact h s

theorem get_sameSizes : Partial.Keeps SameSizes (get : VmM VmState) := by
  rintro s t s' hrun
  cases hrun
  exact refl_of SameSizes _

theorem machVmProtect_sameSizes (a : Addr) (size : BitVec 64) (prot : VmProt) (v : Vm) :
    v.SameSizes (v.machVmProtect a size prot).2 := by
  refine Vm.issue_sameSizes (by decide) (by decide) ?_
  intro v
  simp only
  split
  · split <;> exact ⟨rfl, rfl, rfl, rfl, rfl⟩
  · exact ⟨rfl, rfl, rfl, rfl, rfl⟩

theorem machVmRegionRecurse_sameSizes (a : Addr) (v : Vm) :
    v.SameSizes (v.machVmRegionRecurse a).2 := by
  refine Vm.issue_sameSizes (by decide) (by decide) ?_
  intro v
  split <;> exact ⟨rfl, rfl, rfl, rfl, rfl⟩

theorem machVmWrite_sameSizes (a : Addr) (bytes : List Byte) (v : Vm) :
    v.SameSizes (v.machVmWrite a bytes).2 := by
  refine Vm.issue_sameSizes (by decide) (by decide) ?_
  intro v
  simp only
  split
  · split <;> exact ⟨rfl, rfl, rfl, rfl, rfl⟩
  · exact ⟨rfl, rfl, rfl, rfl, rfl⟩

theorem vmMachineAttribute_sameSizes (a : Addr) (size : BitVec 64) (v : Vm) :
    v.SameSizes (v.vmMachineAttribute a size).2 := by
  refine Vm.issue_sameSizes (by decide) (by decide) ?_
  intro v
  simp only
  split <;> exact ⟨rfl, rfl, rfl, rfl, rfl⟩

namespace MachVMRegion

theorem clear_sameSizes (r : MachVMRegion) : Partial.Keeps SameSizes r.clear := by
  refine .bind (.ite (.bind ?_ fun _ => .ite (.ret _) (.ret _)) (.ret _)) fun _ => .ret _
  refine .bind (vmCall_sameSizes (machVmProtect_sameSizes _ _ _)) fun kr => .bind ?_ fun _ => .ret _
  exact modify_sameSizes fun _ => ⟨rfl, rfl, rfl, rfl, rfl, rfl⟩

theorem getRegionForAddress_sameSizes (r : MachVMRegion) (a : Addr) :
    Partial.Keeps SameSizes (r.getRegionForAddress a) := by
  refine .bind r.clear_sameSizes fun r =>
    .bind (vmCall_sameSizes (machVmRegionRecurse_sameSizes a)) ?_
  intro x
  cases x with
  | error kr => exact .ret _
  | ok x => exact .ret _

theorem setProtections_sameSizes (r : MachVMRegion) (a : Addr) (size : BitVec 64) (prot : VmProt) :
    Partial.Keeps SameSizes (r.setProtections a size prot) := by
  refine .ite (.ite (.ite (.ret _) (.bind ?_ fun _ => .ite (.ret _) (.ret _))) (.ret _)) (.ret _)
  refine .bind (vmCall_sameSizes (machVmProtect_sameSizes _ _ _)) ?_
  intro kr
  exact .ite (vmCall_sameSizes (machVmProtect_sameSizes _ _ _)) (.ret _)

end MachVMRegion

theorem MachVMMemory.writePiece_sameSizes (a : Addr) (bytes : List Byte) (count : BitVec 64) :
    Partial.Keeps SameSizes (writePiece a bytes count) := by
  have herr (kr : KernReturn) : Partial.Keeps SameSizes (setErr kr) :=
    modify_sameSizes fun _ => ⟨rfl, rfl, rfl, rfl, rfl, rfl⟩
  refine .bind ?_ fun kr => .bind (herr kr) fun _ => .bind ?_ fun kr' =>
    .bind (herr kr') fun _ => .bind get_sameSizes fun _ => .ret _
  · exact vmCall_sameSizes (machVmWrite_sameSizes _ _)
  · exact vmCall_sameSizes (vmMachineAttribute_sameSizes _ _)

end MachDebug
