import MachDebug.Memory.Pages
import MachDebug.Memory.Regions

/-!
# What a memory read returns

`ReadMemory` reads page by page, up to the first page that cannot be read. With a page size that is
a power of two, a page never wraps around the address space, and the three cursors of the loop move
together: the result is that of the plain reader, byte by byte, modulo `2 ^ 64`.

## Main definitions

* `Vm.readable v x`: the address can be read
* `ReadExact v a c buf buf' n`: `n` bytes of `c` have been read at `a`, into `buf`

## Main results

* `machVmRead_page`: a piece of a page is read as a whole, or not at all
* `readLoop_returns`: the loop returns what the plain reader does
* `MachTask.readMemory_exact`: so does `ReadMemory`
-/

namespace MachDebug

open Program

/-- The address is mapped, and can be read. -/
def Vm.readable (v : Vm) (x : Addr) : Bool :=
  (v.map.find x.toNat).any fun r => r.protection &&& vmProtRead ≠ 0

/-- Readability does not change inside a page. -/
def Vm.PageReadable (v : Vm) (P : ℕ) : Prop :=
  ∀ x y : Addr, x.toNat / P = y.toNat / P → v.readable x = v.readable y

/-- With regions that start and end at page boundaries, readability is page-granular. -/
theorem AddressMap.Aligned.pageReadable {v : Vm} {P : ℕ} (h : v.map.Aligned P) (hP : 0 < P) :
    v.PageReadable P := by
  intro x y hxy
  rw [Vm.readable, Vm.readable, h.find_congr hP hxy]

/-- The bytes up to the end of a page are as readable as the first of them. -/
theorem Vm.PageReadable.piece {v : Vm} {P k i : ℕ} (h : v.PageReadable P) (hP : P = 2 ^ k)
    (hP64 : P < 2 ^ 64) {x : Addr} (hi : i < leftInPage P x.toNat) :
    v.readable (x + BitVec.ofNat 64 i) = v.readable x := by
  refine h _ x ?_
  rw [toNat_add_of_lt_leftInPage hP hP64 hi]
  exact div_eq_of_lt_leftInPage (hP ▸ Nat.two_pow_pos k) hi

/-- With the first byte of a piece, all bytes up to the end of the piece can be read. -/
theorem Vm.PageReadable.extend {v : Vm} {P k m n : ℕ} {a : Addr} (h : v.PageReadable P)
    (hP : P = 2 ^ k) (hP64 : P < 2 ^ 64)
    (hn : n ≤ leftInPage P (a + BitVec.ofNat 64 m).toNat)
    (hread : ∀ i < m, v.readable (a + BitVec.ofNat 64 i) = true)
    (hnext : v.readable (a + BitVec.ofNat 64 m) = true) :
    ∀ i < m + n, v.readable (a + BitVec.ofNat 64 i) = true := by
  intro i hi
  by_cases him : i < m
  · exact hread i him
  · have hsplit : a + BitVec.ofNat 64 i =
        a + BitVec.ofNat 64 m + BitVec.ofNat 64 (i - m) := by
      rw [Vm.offset_offset, Nat.add_sub_cancel' (not_lt.mp him)]
    rw [hsplit, h.piece hP hP64 (by omega)]
    exact hnext

/-- **A piece of a page** is read as a whole, or not at all. -/
theorem machVmRead_page {v : Vm} {P k : ℕ} (hP : P = 2 ^ k) (hP64 : P < 2 ^ 64)
    (hpages : v.PageReadable P) (hfault : ∀ n, v.faults .read n = none) (x : Addr) (n : BitVec 64)
    (hpos : 0 < n.toNat) (hn : n.toNat ≤ leftInPage P x.toNat) :
    (v.machVmRead x n).2 = v.tally .read ∧
      if v.readable x then (v.machVmRead x n).1 = .ok (v.load x n.toNat)
      else ∃ kr, (v.machVmRead x n).1 = .error kr := by
  have hsame (i : ℕ) (hi : i < n.toNat) :
      ((v.map.find (x.toNat + i)).any fun r => r.protection &&& vmProtRead ≠ 0) = v.readable x := by
    have hleft : i < leftInPage P x.toNat := by omega
    rw [← toNat_add_of_lt_leftInPage hP hP64 hleft]
    exact hpages.piece hP hP64 hleft
  have hall : (v.tally .read).map.All x.toNat (x.toNat + n.toNat)
      (fun r => r.protection &&& vmProtRead ≠ 0) ↔ v.readable x = true := by
    simp only [AddressMap.All, Nat.add_sub_cancel_left]
    constructor
    · intro h
      rw [← hsame 0 hpos]
      exact h 0 hpos
    · intro h i hi
      exact (hsame i hi).trans h
  have hle : x.toNat + n.toNat ≤ 2 ^ 64 := by
    have hend := page_end_le hP hP64 x.isLt
    omega
  unfold Vm.machVmRead Vm.issue
  rw [hfault]
  simp only
  by_cases hr : v.readable x = true
  · have hread := hall.mpr hr
    rw [if_pos hr, if_pos ⟨hle, hread.mapped⟩, if_pos hread]
    exact ⟨rfl, rfl⟩
  · rw [if_neg hr]
    split
    · rw [if_neg (mt hall.mp hr)]
      exact ⟨rfl, _, rfl⟩
    · exact ⟨rfl, _, rfl⟩

/-! ## The buffer -/

/-- `memcpy` changes the bytes from its offset on, as many as are copied. -/
theorem getElem?_memcpy {buf bytes : List Byte} {i : ℕ} (h : i + bytes.length ≤ buf.length)
    (j : ℕ) :
    (memcpy buf i bytes)[j]? = if j < i then buf[j]?
      else if j < i + bytes.length then bytes[j - i]? else buf[j]? := by
  have hlen : (buf.take i).length = i := by
    rw [List.length_take]
    omega
  unfold memcpy
  by_cases hj : j < i
  · rw [if_pos hj, List.append_assoc, List.getElem?_append_left (by omega),
      List.getElem?_take_of_lt hj]
  · rw [if_neg hj]
    by_cases hj' : j < i + bytes.length
    · rw [if_pos hj', List.append_assoc, List.getElem?_append_right (by omega), hlen,
        List.getElem?_append_left (by omega)]
    · rw [if_neg hj', List.getElem?_append_right (by rw [List.length_append]; omega),
        List.length_append, hlen, List.getElem?_drop]
      congr 1
      omega

theorem length_memcpy {buf bytes : List Byte} {i : ℕ} (h : i + bytes.length ≤ buf.length) :
    (memcpy buf i bytes).length = buf.length := by
  simp only [memcpy, List.length_append, List.length_take, List.length_drop]
  omega

/-- The buffer after `n` bytes have been read at `a`: the target's bytes, and then its own. -/
structure Filled (v : Vm) (a : Addr) (buf buf' : List Byte) (n : ℕ) : Prop where
  length : buf'.length = buf.length
  read : ∀ i < n, buf'[i]? = some (v.byte (a + BitVec.ofNat 64 i))
  rest : ∀ i, n ≤ i → buf'[i]? = buf[i]?

/-- Copying the next bytes of the target fills the buffer further. -/
theorem Filled.memcpy {v : Vm} {a : Addr} {buf buf' : List Byte} {n k : ℕ}
    (h : Filled v a buf buf' n) (hk : n + k ≤ buf.length) :
    Filled v a buf (memcpy buf' n (v.load (a + BitVec.ofNat 64 n) k)) (n + k) := by
  have hle : n + (v.load (a + BitVec.ofNat 64 n) k).length ≤ buf'.length := by
    rw [Vm.length_load, h.length]
    exact hk
  refine ⟨(length_memcpy hle).trans h.length, fun i hi => ?_, fun i hi => ?_⟩
  · rw [getElem?_memcpy hle, Vm.length_load]
    by_cases hin : i < n
    · rw [if_pos hin]
      exact h.read i hin
    · rw [if_neg hin, if_pos hi, List.getElem?_eq_getElem (by rw [Vm.length_load]; omega),
        Vm.getElem_load, Nat.add_sub_cancel' (not_lt.mp hin)]
  · rw [getElem?_memcpy hle, Vm.length_load, if_neg (by omega), if_neg (by omega)]
    exact h.rest i (by omega)

/-! ## The loop -/

/-- `n` of `c` bytes have been read at `a`: they are the target's bytes, the rest of the buffer is
untouched, and all bytes have been read or the next one is the first that cannot be. -/
structure ReadExact (v : Vm) (a : Addr) (c : ℕ) (buf buf' : List Byte) (n : ℕ) : Prop where
  le : n ≤ c
  read : ∀ i < n, buf'[i]? = some (v.byte (a + BitVec.ofNat 64 i))
  rest : ∀ i, n ≤ i → buf'[i]? = buf[i]?
  all : (∀ i < c, v.readable (a + BitVec.ofNat 64 i) = true) → n = c
  first : ¬ (∀ i < c, v.readable (a + BitVec.ofNat 64 i) = true) →
    n < c ∧ v.readable (a + BitVec.ofNat 64 n) = false ∧
      ∀ i < n, v.readable (a + BitVec.ofNat 64 i) = true

/-- A buffer that was filled up to the end, or up to the first byte that cannot be read. -/
theorem Filled.readExact {v : Vm} {a : Addr} {buf buf' : List Byte} {c n : ℕ}
    (h : Filled v a buf buf' n) (hn : n ≤ c)
    (hread : ∀ i < n, v.readable (a + BitVec.ofNat 64 i) = true)
    (hstop : n < c → v.readable (a + BitVec.ofNat 64 n) = false) : ReadExact v a c buf buf' n where
  le := hn
  read := h.read
  rest := h.rest
  all hall := by
    by_contra hne
    have hlt := lt_of_le_of_ne hn hne
    exact absurd (hall n hlt) (by rw [hstop hlt]; decide)
  first hall := by
    have hlt : n < c := lt_of_le_of_ne hn fun he => hall (he ▸ hread)
    exact ⟨hlt, hstop hlt, hread⟩

section Loop

variable {task : Port} {P : BitVec 64} {k : ℕ} {v : Vm} {a : Addr} {buf : List Byte}

/-- **The loop of `Read`** returns what the plain reader does. -/
theorem readLoop_returns (hP : P.toNat = 2 ^ k) (hP32 : P.toNat < 2 ^ 32)
    (hpages : v.PageReadable P.toNat) (hfault : ∀ n, v.faults .read n = none)
    (dataCount : BitVec 64) (hbuf : dataCount.toNat ≤ buf.length) (fuel : ℕ) (total : BitVec 64)
    (data : List Byte) (s : VmState) (hv : s.vm = { v with calls := s.vm.calls })
    (hsized : Sized task P s) (htotal : total.toNat ≤ dataCount.toNat)
    (hfuel : dataCount.toNat - total.toNat < fuel) (h : Filled v a buf data total.toNat)
    (hread : ∀ i < total.toNat, v.readable (a + BitVec.ofNat 64 i) = true) :
    Partial.Returns (MachVMMemory.readLoop task dataCount fuel total
        (a + BitVec.ofNat 64 total.toNat) total.toNat data)
      (fun r s' => ReadExact v a dataCount.toNat buf r.2 r.1.toNat ∧
        s'.vm = { v with calls := s'.vm.calls }) s := by
  have hPpos : 0 < P.toNat := hP ▸ Nat.two_pow_pos k
  -- the induction is on the fuel, which bounds the bytes that are left
  induction fuel generalizing total data s with
  | zero => exact absurd hfuel (Nat.not_lt_zero _)
  | succ fuel ih =>
    unfold MachVMMemory.readLoop
    refine .ite (fun hlt => ?_) fun hge => ?_
    · have hlt' : total.toNat < dataCount.toNat := hlt
      refine .bind <| (maxBytesLeftInPage_returns hsized hPpos _ _).mono ?_
      intro n t ht
      obtain ⟨hn, hkept, hrec⟩ := ht
      have htv : t.vm = { v with calls := t.vm.calls } := by rw [hrec.vm, hv]
      set x := a + BitVec.ofNat 64 total.toNat with hx
      have hsub : (dataCount - total).toNat = dataCount.toNat - total.toNat := by bv_omega
      have hleft := leftInPage_pos (a := x.toNat) hPpos
      have hleft' := leftInPage_le P.toNat x.toNat
      have hnpos : 0 < n.toNat := by omega
      have hnleft : n.toNat ≤ leftInPage P.toNat x.toNat := by omega
      obtain ⟨hv', hanswer⟩ := machVmRead_page (v := t.vm) hP (by omega)
        (by rw [htv]; exact hpages) (by rw [htv]; exact hfault) x n hnpos hnleft
      -- asking for the page size has changed neither the map nor the bytes
      have hreadable : t.vm.readable x = v.readable x := by rw [htv]; rfl
      have hload : t.vm.load x n.toNat = v.load x n.toNat := by rw [htv]; rfl
      rw [hreadable, hload] at hanswer
      refine .bind <| vmCall_returns ?_
      rw [hv']
      by_cases hr : v.readable x = true
      · rw [if_pos hr] at hanswer
        rw [hanswer]
        refine .bind ⟨(), _, rfl, ?_⟩
        have hcount : (BitVec.ofNat 32 (v.load x n.toNat).length).setWidth 64 = n := by
          rw [Vm.length_load]
          bv_omega
        have hsum : (total + n).toNat = total.toNat + n.toNat := by bv_omega
        simp only [hcount]
        rw [List.take_of_length_le (by rw [Vm.length_load]), hx, Vm.offset_add, ← hsum]
        refine ih (total + n) _ _ ?_ (.of_kept (ne_kInvalidPageSize hP32) hkept) (by omega)
          (by omega) ?_ ?_
        · show t.vm.tally .read = _
          rw [htv]
          rfl
        · rw [hsum]
          exact h.memcpy (by omega)
        · rw [hsum]
          exact hpages.extend hP (by omega) hnleft hread hr
      · rw [if_neg hr] at hanswer
        obtain ⟨kr, hanswer⟩ := hanswer
        rw [hanswer]
        refine .bind ⟨(), _, rfl, .ret ⟨h.readExact htotal hread fun _ => ?_, ?_⟩⟩
        · exact eq_false_of_ne_true hr
        · show t.vm.tally .read = _
          rw [htv]
          rfl
    · have hge' : dataCount.toNat ≤ total.toNat := not_lt.mp hge
      exact .ret ⟨h.readExact htotal hread fun hlt => absurd hlt (by omega), hv⟩

end Loop

/-- **`ReadMemory`** returns what the plain reader does. -/
theorem MachTask.readMemory_returns (t : MachTask) (ht : t.mTask ≠ 0) {s : VmState} {P : BitVec 64}
    {k : ℕ} (hP : P.toNat = 2 ^ k) (hP32 : P.toNat < 2 ^ 32) (hsize : Sized t.mTask P s)
    (hpages : s.vm.PageReadable P.toNat) (hfault : ∀ n, s.vm.faults .read n = none) (a : Addr)
    (c : BitVec 64) (buf : List Byte) (hbuf : c.toNat ≤ buf.length) (fuel : ℕ)
    (hfuel : c.toNat < fuel) :
    Partial.Returns (t.readMemory fuel a c (some buf)) (fun r s' => ∃ buf', r.2 = some buf' ∧
      ReadExact s.vm a c.toNat buf buf' r.1.toNat ∧
        s'.vm = { s.vm with calls := s'.vm.calls }) s := by
  have hfilled : Filled s.vm a buf buf 0 := ⟨rfl, fun i hi => absurd hi (Nat.not_lt_zero i),
    fun _ _ => rfl⟩
  refine .ite (fun _ => .ite (fun hz => .ret ⟨buf, rfl, ?_, rfl⟩) fun _ => ?_)
    fun h => absurd ht h
  · subst hz
    exact hfilled.readExact le_rfl (fun i hi => absurd hi (Nat.not_lt_zero i))
      fun h => absurd h (Nat.lt_irrefl 0)
  · have hloop := readLoop_returns (a := a) hP hP32 hpages hfault c hbuf fuel 0 buf s rfl hsize
      (Nat.zero_le _) hfuel hfilled fun i hi => absurd hi (Nat.not_lt_zero i)
    rw [show a + BitVec.ofNat 64 (0 : BitVec 64).toNat = a by simp] at hloop
    exact .bind <| hloop.mono fun r s' hr => .ret ⟨r.2, rfl, hr⟩

/-- **Reading equals the plain reader**: for every memory with page-granular readability, every
address, count and buffer, with a page size that is a power of two below `2 ^ 32`. -/
theorem MachTask.readMemory_exact (t : MachTask) (ht : t.mTask ≠ 0) (s : VmState) (P : BitVec 64)
    (k : ℕ) (hP : P.toNat = 2 ^ k) (hP32 : P.toNat < 2 ^ 32)
    (hsize : ∃ s₁, (MachVMMemory.pageSize t.mTask).run s = some (P, s₁))
    (hpages : s.vm.PageReadable P.toNat) (hfault : ∀ n, s.vm.faults .read n = none) (a : Addr)
    (c : BitVec 64) (buf : List Byte) (hbuf : c.toNat ≤ buf.length) (fuel : ℕ)
    (hfuel : c.toNat < fuel) :
    ∃ n buf' s', (t.readMemory fuel a c (some buf)).run s = some ((n, some buf'), s') ∧
      ReadExact s.vm a c.toNat buf buf' n.toNat ∧ s'.vm = { s.vm with calls := s'.vm.calls } := by
  obtain ⟨⟨n, out⟩, s', hrun, buf', rfl, hexact, hvm⟩ :=
    t.readMemory_returns ht hP hP32 hsize hpages hfault a c buf hbuf fuel hfuel
  exact ⟨n, buf', s', hrun, hexact, hvm⟩

/-- A memory with one page of sixteen bytes, which can be read. -/
def Vm.readOnlyPage : Vm where
  byte x := x.setWidth 8
  map := ⟨[.page 1 1 fun _ => false], by simp⟩
  granularity := 16
  taskPageSize := 16
  hostPageSize := 16
  faults _ _ := none
  calls _ := 0

theorem Vm.readOnlyPage_aligned : Vm.readOnlyPage.map.Aligned 16 := by
  intro r hr
  simp only [Vm.readOnlyPage, List.mem_singleton] at hr
  subst hr
  decide

/-- A read of eight bytes that starts four bytes before the end of the page returns four. -/
theorem MachTask.readMemory_exact_short : ∃ n buf' s',
    (MachTask.readMemory { mTask := 1 } 9 28 8 (some (List.replicate 8 0xEE))).run
      ⟨.readOnlyPage, {}⟩ = some ((n, some buf'), s') ∧
    ReadExact .readOnlyPage 28 8 (List.replicate 8 0xEE) buf' n.toNat ∧ n = 4 := by
  obtain ⟨n, buf', s', hrun, hexact, -⟩ := MachTask.readMemory_exact { mTask := 1 } (by decide)
    ⟨.readOnlyPage, {}⟩ 16 4 rfl (by decide) ⟨_, rfl⟩
    (Vm.readOnlyPage_aligned.pageReadable (by decide)) (fun _ => rfl) 28 8
    (List.replicate 8 0xEE) (by decide) 9 (by decide)
  have hn : ((MachTask.readMemory { mTask := 1 } 9 28 8 (some (List.replicate 8 0xEE))).run
      ⟨.readOnlyPage, {}⟩).map (fun r => r.1.1) = some 4 := by
    decide +kernel
  rw [hrun] at hn
  exact ⟨n, buf', s', hrun, hexact, Option.some.inj hn⟩

end MachDebug
