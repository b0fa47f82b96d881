import MachDebug.Memory.Read

/-!
# Reads with failures

What a read returns when any of its calls may fail. The number of bytes it returns is that of the
bytes it has filled in, and these are the target's bytes; the rest of the buffer and the target are
untouched. The size of a piece is kept in 32 bits, so that a piece of a multiple of `2 ^ 32` bytes
would be read again and again; below that, the read returns.

## Main results

* `readLoop_filled`: what the loop has filled in, whatever calls fail
* `readLoop_ends`: the loop ends when 32 bits hold every piece
* `MachTask.readMemory_filled`: a read fills in what it returns, whatever calls fail
-/

namespace MachDebug

open Program

/-- `mach_vm_read` fails, or answers with the bytes that were asked for. -/
theorem machVmRead_cases (v : Vm) (a : Addr) (size : BitVec 64) :
    (v.machVmRead a size).2 = v.tally .read ∧
      ((∃ kr, (v.machVmRead a size).1 = .error kr) ∨
        (v.machVmRead a size).1 = .ok (v.load a size.toNat)) := by
  refine Vm.issue_ind (M := fun r : Except KernReturn (List Byte) × Vm => r.2 = v.tally .read ∧
    ((∃ kr, r.1 = .error kr) ∨ r.1 = .ok (v.load a size.toNat)))
    (fun e _ => ⟨rfl, .inl ⟨e, rfl⟩⟩) ?_
  simp only
  split
  · split
    · exact ⟨rfl, .inr rfl⟩
    · exact ⟨rfl, .inl ⟨_, rfl⟩⟩
  · exact ⟨rfl, .inl ⟨_, rfl⟩⟩

/-- The number of bytes that are counted of a piece. -/
def counted (n : BitVec 64) : BitVec 64 := (BitVec.ofNat 32 n.toNat).setWidth 64

theorem toNat_counted (n : BitVec 64) : (counted n).toNat = n.toNat % 2 ^ 32 := by
  rw [counted, BitVec.toNat_setWidth, BitVec.toNat_ofNat]
  omega

theorem Vm.take_load (v : Vm) (a : Addr) {m n : ℕ} (h : m ≤ n) :
    (v.load a n).take m = v.load a m := by
  rw [Vm.load, Vm.load, ← List.map_take, List.take_range, min_eq_left h]

section Loop

variable {v : Vm} {a : Addr} {buf : List Byte} {c : BitVec 64}

/-- What a piece is, with the page size to come. -/
theorem maxBytesLeftInPage_next (task : Port) (a : Addr) (count : BitVec 64) (s : VmState) :
    Partial.Returns (MachVMMemory.maxBytesLeftInPage task a count) (fun n s' =>
      n.toNat = pageLimit (s.nextPageSize task).toNat a.toNat count.toNat ∧
      s'.memory.mPageSize = s.nextPageSize task ∧ Recalled s s') s :=
  maxBytesLeftInPage_limit (sized_iff_next.mpr rfl) a count

/-- **The loop of `Read`** fills in what it counts, whatever calls fail. -/
theorem readLoop_filled (task : Port) (hbuf : c.toNat ≤ buf.length) (fuel : ℕ) (total : BitVec 64)
    (data : List Byte) (s : VmState) (hv : s.vm = { v with calls := s.vm.calls })
    (htotal : total.toNat ≤ c.toNat) (h : Filled v a buf data total.toNat) :
    Partial.Post (MachVMMemory.readLoop task c fuel total (a + BitVec.ofNat 64 total.toNat)
        total.toNat data)
      (fun r s' => r.1.toNat ≤ c.toNat ∧ Filled v a buf r.2 r.1.toNat ∧
        s'.vm = { v with calls := s'.vm.calls }) s := by
  induction fuel generalizing total data s with
  | zero => exact .diverge
  | succ fuel ih =>
    unfold MachVMMemory.readLoop
    refine .ite (fun hlt => ?_) fun _ => .ret ⟨htotal, h, hv⟩
    have hlt' : total.toNat < c.toNat := hlt
    refine .bind <| (maxBytesLeftInPage_next task _ _ s).post.mono ?_
    rintro n t ⟨hn, -, hrec⟩
    have htv : t.vm = { v with calls := t.vm.calls } := by rw [hrec.vm, hv]
    have hsub : (c - total).toNat = c.toNat - total.toNat := by bv_omega
    have hle : n.toNat ≤ c.toNat - total.toNat := by
      rw [hn, ← hsub]
      exact pageLimit_le _ _ _
    obtain ⟨hv', hanswer⟩ := machVmRead_cases t.vm (a + BitVec.ofNat 64 total.toNat) n
    have htally : (t.vm.tally .read) = { v with calls := (t.vm.tally .read).calls } := by
      rw [htv]
      rfl
    refine .bind ?_
    intro answer u hu
    obtain ⟨rfl, rfl⟩ := Prod.mk.inj (Option.some.inj hu)
    rcases hanswer with ⟨kr, hanswer⟩ | hanswer
    · rw [hanswer]
      refine .bind ?_
      intro x w hw
      cases hw
      refine .ret ⟨htotal, h, ?_⟩
      rw [hv']
      exact htally
    · rw [hanswer]
      have hload : t.vm.load (a + BitVec.ofNat 64 total.toNat) n.toNat =
          v.load (a + BitVec.ofNat 64 total.toNat) n.toNat := by rw [htv]; rfl
      have hcount : (BitVec.ofNat 32
          (v.load (a + BitVec.ofNat 64 total.toNat) n.toNat).length).setWidth 64 = counted n := by
        rw [Vm.length_load, counted]
      have hle' : (counted n).toNat ≤ n.toNat := by
        rw [toNat_counted]
        exact Nat.mod_le _ _
      have hsum : (total + counted n).toNat = total.toNat + (counted n).toNat := by bv_omega
      refine .bind ?_
      intro x w hw
      cases hw
      simp only [hload, hcount]
      rw [Vm.take_load v _ hle', Vm.offset_add, ← hsum]
      refine ih (total + counted n) _ _ ?_ (by omega) ?_
      · show (t.vm.machVmRead _ n).2 = _
        rw [hv']
        exact htally
      · rw [hsum]
        exact h.memcpy (by omega)

/-- 32 bits hold every piece of a read of `c` bytes: there are fewer bytes, or the page size is
known and 32 bits hold it. -/
def SmallReads (c P : BitVec 64) : Prop :=
  c.toNat < 2 ^ 32 ∨ (0 < P.toNat ∧ P.toNat < 2 ^ 32)

/-- **The loop ends** when 32 bits hold every piece, whatever calls fail. -/
theorem readLoop_ends {task : Port} {P : BitVec 64} (hsmall : SmallReads c P) (fuel : ℕ)
    (total : BitVec 64) (x : Addr) (i : ℕ) (data : List Byte) (s : VmState)
    (hsized : c.toNat < 2 ^ 32 ∨ Sized task P s) (htotal : total.toNat ≤ c.toNat)
    (hfuel : c.toNat - total.toNat < fuel) :
    Partial.Returns (MachVMMemory.readLoop task c fuel total x i data) (fun _ _ => True) s := by
  -- the induction is on the fuel, which bounds the bytes that are left
  induction fuel generalizing total x i data s with
  | zero => exact absurd hfuel (Nat.not_lt_zero _)
  | succ fuel ih =>
    unfold MachVMMemory.readLoop
    refine .ite (fun hlt => ?_) fun _ => .ret trivial
    have hlt' : total.toNat < c.toNat := hlt
    refine .bind <| (maxBytesLeftInPage_next task x (c - total) s).mono ?_
    rintro n t ⟨hn, hkept, -⟩
    have hsub : (c - total).toNat = c.toNat - total.toNat := by bv_omega
    rw [hsub] at hn
    have hpos : 0 < n.toNat := hn ▸ pageLimit_pos (by omega)
    have hle : n.toNat ≤ c.toNat - total.toNat := hn ▸ pageLimit_le _ _ _
    -- a piece ends with its page when the page size is known
    have hn32 : n.toNat < 2 ^ 32 := by
      by_cases hc : c.toNat < 2 ^ 32
      · omega
      · obtain ⟨hP0, hP32⟩ := hsmall.resolve_left hc
        rw [sized_iff_next.mp (hsized.resolve_left hc), pageLimit, if_pos hP0] at hn
        have hleft := leftInPage_le P.toNat x.toNat
        omega
    refine .bind <| vmCall_returns ?_
    obtain ⟨-, ⟨kr, hanswer⟩ | hanswer⟩ := machVmRead_cases t.vm x n
    · rw [hanswer]
      exact .bind ⟨(), _, rfl, .ret trivial⟩
    · rw [hanswer]
      refine .bind ⟨(), _, rfl, ih _ _ _ _ _ ?_ ?_ ?_⟩
      · by_cases hc : c.toNat < 2 ^ 32
        · exact .inl hc
        · have hP := sized_iff_next.mp (hsized.resolve_left hc)
          exact .inr (.of_kept (ne_kInvalidPageSize (hsmall.resolve_left hc).2) (hkept.trans hP))
      all_goals
        have hcount : (BitVec.ofNat 32 (t.vm.load x n.toNat).length).setWidth 64 = n := by
          rw [Vm.length_load]
          bv_omega
        rw [hcount]
        bv_omega

end Loop

/-- What a read has filled in when it returns. -/
theorem MachTask.readMemory_post (t : MachTask) (s : VmState) (a : Addr) (c : BitVec 64)
    (buf : List Byte) (hbuf : c.toNat ≤ buf.length) (fuel : ℕ) :
    Partial.Post (t.readMemory fuel a c (some buf)) (fun r s' => r.1.toNat ≤ c.toNat ∧
      (∃ buf', r.2 = some buf' ∧ Filled s.vm a buf buf' r.1.toNat) ∧
      s'.vm = { s.vm with calls := s'.vm.calls }) s := by
  have hfilled : Filled s.vm a buf buf 0 := ⟨rfl, fun i hi => absurd hi (Nat.not_lt_zero i),
    fun _ _ => rfl⟩
  have hnone : (0 : BitVec 64).toNat ≤ c.toNat ∧ (∃ buf', some buf = some buf' ∧
      Filled s.vm a buf buf' (0 : BitVec 64).toNat) ∧ s.vm = { s.vm with calls := s.vm.calls } :=
    ⟨Nat.zero_le _, ⟨buf, rfl, hfilled⟩, rfl⟩
  refine .ite (fun _ => .ite (fun _ => .ret hnone) fun _ => ?_) fun _ => .ret hnone
  have hloop := readLoop_filled (a := a) t.mTask hbuf fuel 0 buf s rfl (Nat.zero_le _) hfilled
  rw [show a + BitVec.ofNat 64 (0 : BitVec 64).toNat = a by simp] at hloop
  exact .bind <| hloop.mono fun r s' hr => .ret ⟨hr.1, ⟨r.2, rfl, hr.2.1⟩, hr.2.2⟩

/-- **A read fills in what it returns**, whatever calls fail and whatever the page size: the bytes
it counts are the target's, the rest of the buffer is as it was, and the target is untouched. It
returns when 32 bits hold every piece. -/
theorem MachTask.readMemory_filled (t : MachTask) (s : VmState) (a : Addr) (c : BitVec 64)
    (buf : List Byte) (hbuf : c.toNat ≤ buf.length) (fuel : ℕ) :
    (∀ n out s', (t.readMemory fuel a c (some buf)).run s = some ((n, out), s') →
      n.toNat ≤ c.toNat ∧ (∃ buf', out = some buf' ∧ Filled s.vm a buf buf' n.toNat) ∧
        s'.vm = { s.vm with calls := s'.vm.calls }) ∧
    (c.toNat < fuel → SmallReads c (s.nextPageSize t.mTask) →
      ∃ r, (t.readMemory fuel a c (some buf)).run s = some r) := by
  refine ⟨fun n out s' hrun => t.readMemory_post s a c buf hbuf fuel (n, out) s' hrun, ?_⟩
  intro hfuel hsmall
  have hreturns : Partial.Returns (t.readMemory fuel a c (some buf)) (fun _ _ => True) s := by
    refine .ite (fun _ => .ite (fun _ => .ret trivial) fun _ => ?_) fun _ => .ret trivial
    refine .bind <| (readLoop_ends hsmall fuel 0 a 0 buf s (.inr (sized_iff_next.mpr rfl))
      (Nat.zero_le _) hfuel).mono fun _ _ _ => .ret trivial
  obtain ⟨r, s', hrun, -⟩ := hreturns
  exact ⟨_, hrun⟩

/-- A memory with one page of sixteen bytes, and a kernel that reports pages of eight bytes and
fails at the second read. -/
def Vm.secondReadFails : Vm :=
  { Vm.readOnlyPage with
    taskPageSize := 8
    faults := fun c n => if c = .read ∧ n = 1 then some ⟨kernInvalidAddress, by decide⟩ else none }

/-- The first piece is returned. -/
theorem MachTask.readMemory_filled_failure : ∃ n buf' s',
    (MachTask.readMemory { mTask := 1 } 9 20 8 (some (List.replicate 8 0xEE))).run
      ⟨.secondReadFails, {}⟩ = some ((n, some buf'), s') ∧
    Filled .secondReadFails 20 (List.replicate 8 0xEE) buf' n.toNat ∧ n = 4 := by
  obtain ⟨hfilled, hreturns⟩ := MachTask.readMemory_filled { mTask := 1 }
    ⟨.secondReadFails, {}⟩ 20 8 (List.replicate 8 0xEE) (by decide) 9
  obtain ⟨⟨⟨n, out⟩, s'⟩, hrun⟩ := hreturns (by decide) (.inl (by decide))
  obtain ⟨-, ⟨buf', rfl, hbuf⟩, -⟩ := hfilled n out s' hrun
  have hn : ((MachTask.readMemory { mTask := 1 } 9 20 8 (some (List.replicate 8 0xEE))).run
      ⟨.secondReadFails, {}⟩).map (fun r => r.1.1) = some 4 := by
    decide +kernel
  rw [hrun] at hn
  exact ⟨n, buf', s', hrun, hbuf, Option.some.inj hn⟩

end MachDebug
