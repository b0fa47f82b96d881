import MachDebug.Memory.Read
import MachDebug.Memory.Solvent
import MachDebug.Program.Refine

/-!
# Sessions of memory accesses

What the controller sees of the target's memory is a flat memory: bytes, of which some can be read
and some can be written. Reading and writing region by region and page by page, with protections
that are changed and restored, is a way to get at them. Any sequence of accesses is answered as by
the flat memory, and leaves every protection as it was.

## Main definitions

* `FlatMemory`, `FlatMemory.step`: the flat memory, and an access to it
* `Vm.flat v`: the flat memory that the target's memory is
* `MachProcess.access`: an access through `ReadMemory` and `WriteMemory`

## Main results

* `readExact_iff`, `writeExact_iff`: what the plain reader and the plain writer do, as functions
* `access_simulates`: an access is answered as by the flat memory
* `MachProcess.accesses_flat`: so is any sequence of accesses
-/

namespace MachDebug

open Program

/-! ## The flat memory -/

/-- A request to read or to write `c` bytes at an address, with the buffer of the caller. -/
inductive Access
  | read (a : Addr) (c : BitVec 64) (buf : List Byte)
  | write (a : Addr) (c : BitVec 64) (buf : List Byte)

/-- Bytes, of which some can be read and some can be written. -/
structure FlatMemory where
  byte : Addr → Byte
  readable : Addr → Bool
  writable : Addr → Bool

/-- How many addresses in a row have the property, from an address on, and at most `c`. -/
def reach (p : Addr → Bool) : Addr → ℕ → ℕ
  | _, 0 => 0
  | a, c + 1 => if p a then reach p (a + 1) c + 1 else 0

namespace FlatMemory

/-- The buffer after `n` bytes have been read into it. -/
def readInto (m : FlatMemory) (a : Addr) (n : ℕ) (buf : List Byte) : List Byte :=
  ((List.range n).map fun i => m.byte (a + BitVec.ofNat 64 i)) ++ buf.drop n

/-- The memory after the first `n` bytes of a buffer have been written. -/
def writeFrom (m : FlatMemory) (a : Addr) (n : ℕ) (buf : List Byte) : FlatMemory :=
  { m with byte := fun x => (buf.take n).getD (x - a).toNat (m.byte x) }

/-- An access: the number of bytes read or written and the buffer, and the memory. -/
def step (m : FlatMemory) : Access → (BitVec 64 × Option (List Byte)) × FlatMemory
  | .read a c buf =>
    let n := reach m.readable a c.toNat
    ((BitVec.ofNat 64 n, some (m.readInto a n buf)), m)
  | .write a c buf =>
    let n := reach m.writable a c.toNat
    ((BitVec.ofNat 64 n, some buf), m.writeFrom a n buf)

end FlatMemory

/-- The addresses in a row are those before the first one without the property. -/
theorem reach_eq {p : Addr → Bool} {a : Addr} {c n : ℕ} (hn : n ≤ c)
    (hp : ∀ i < n, p (a + BitVec.ofNat 64 i) = true)
    (hstop : n < c → p (a + BitVec.ofNat 64 n) = false) : reach p a c = n := by
  induction c generalizing a n with
  | zero =>
    obtain rfl : n = 0 := by omega
    rfl
  | succ c ih =>
    have hshift (i : ℕ) : a + 1 + BitVec.ofNat 64 i = a + BitVec.ofNat 64 (i + 1) := by
      rw [Nat.add_comm i 1]
      exact Vm.offset_offset a 1 i
    have hzero : a + BitVec.ofNat 64 0 = a := BitVec.add_zero a
    cases n with
    | zero =>
      have hfalse := hstop (Nat.succ_pos c)
      rw [hzero] at hfalse
      rw [reach, hfalse]
      rfl
    | succ n =>
      have htrue := hp 0 (Nat.succ_pos n)
      rw [hzero] at htrue
      rw [reach, if_pos htrue, ih (n := n) (by omega)]
      · intro i hi
        rw [hshift]
        exact hp (i + 1) (by omega)
      · intro hlt
        rw [hshift]
        exact hstop (by omega)

/-- The flat memory that the target's memory is. -/
def Vm.flat (v : Vm) : FlatMemory where
  byte := v.byte
  readable := v.readable
  writable := v.changeable

/-- **The plain reader** as a function. -/
theorem ReadExact.eq_step {v : Vm} {a : Addr} {c : BitVec 64} {buf buf' : List Byte} {n : BitVec 64}
    (h : ReadExact v a c.toNat buf buf' n.toNat) :
    (n, some buf') = (v.flat.step (.read a c buf)).1 := by
  have hreach : reach v.flat.readable a c.toNat = n.toNat := by
    by_cases hall : ∀ i < c.toNat, v.readable (a + BitVec.ofNat 64 i) = true
    · have hn := h.all hall
      exact reach_eq h.le (fun i hi => hall i (by omega)) fun hlt => by omega
    · obtain ⟨-, hstop, hread⟩ := h.first hall
      exact reach_eq h.le hread fun _ => hstop
  have hbuf : buf' = v.flat.readInto a n.toNat buf := by
    apply List.ext_getElem?
    intro i
    unfold FlatMemory.readInto
    by_cases hi : i < n.toNat
    · rw [List.getElem?_append_left (by simpa using hi), List.getElem?_map,
        List.getElem?_range hi]
      exact h.read i hi
    · rw [List.getElem?_append_right (by simpa using hi), List.length_map, List.length_range,
        List.getElem?_drop, Nat.add_sub_cancel' (not_lt.mp hi)]
      exact h.rest i (not_lt.mp hi)
  simp only [FlatMemory.step, hreach, hbuf, BitVec.ofNat_toNat, BitVec.setWidth_eq]

/-- **The plain writer** as a function. -/
theorem WriteExact.eq_step {v : Vm} {a : Addr} {c : BitVec 64} {buf : List Byte} {n : BitVec 64}
    {byte : Addr → Byte} (h : WriteExact v.changeable v a c.toNat buf n.toNat byte) :
    v.flat.step (.write a c buf) = ((n, some buf), { v.flat with byte := byte }) := by
  have hreach : reach v.flat.writable a c.toNat = n.toNat := reach_eq h.le h.reached h.stop
  have hbyte : byte = (v.flat.writeFrom a n.toNat buf).byte := by
    funext x
    show byte x = (buf.take n.toNat).getD (x - a).toNat (v.byte x)
    rw [List.getD_eq_getElem?_getD]
    by_cases hx : (x - a).toNat < n.toNat
    · have hwritten := h.written _ hx
      rw [Vm.add_offset] at hwritten
      rw [List.getElem?_take_of_lt hx, hwritten, Option.getD_some]
    · rw [List.getElem?_take_eq_none (not_lt.mp hx), Option.getD_none]
      refine h.rest x fun i hi heq => hx ?_
      have hn := n.isLt
      have hoffset : (x - a).toNat = i := by
        rw [heq]
        bv_omega
      omega
  simp only [FlatMemory.step, hreach, BitVec.ofNat_toNat, BitVec.setWidth_eq, hbyte]
  rfl

/-! ## Accesses -/

/-- The buffer has room for the bytes, and the loops have the fuel. -/
def Access.Fits (fuel : ℕ) : Access → Prop
  | .read _ c buf | .write _ c buf => c.toNat ≤ buf.length ∧ c.toNat < fuel

/-- An access through `ReadMemory` or `WriteMemory`. -/
def MachProcess.access (p : MachProcess) (fuel : ℕ) : Access → VmM (BitVec 64 × Option (List Byte))
  | .read a c buf => p.readMemory fuel a c (some buf)
  | .write a c buf => do
    let n ← p.writeMemory fuel a c (some buf)
    return (n, some buf)

section Access

variable {task : Port} {P : BitVec 64} {m : AddressMap}

/-- The state between two accesses: the flat memory is that of the target, and the protections are
those of `m`. -/
structure Between (task : Port) (P : BitVec 64) (m : AddressMap) (f : FlatMemory) (s : VmState) :
    Prop where
  flat : f = s.vm.flat
  ready : Ready task P s
  solvent : Solvent m P.toNat {} s

theorem Between.protectionAt {f : FlatMemory} {s : VmState} (h : Between task P m f s) (x : ℕ) :
    s.vm.map.protectionAt x = m.protectionAt x :=
  h.solvent.protectionAt MachVMRegion.not_dirty x

/-- With the protections and the grants of an address, what can be read and written there. -/
theorem readable_congr {v v' : Vm} (x : Addr)
    (h : v'.map.protectionAt x.toNat = v.map.protectionAt x.toNat) :
    v'.readable x = v.readable x := by
  have hfactor (v : Vm) : v.readable x = (v.map.protectionAt x.toNat).any fun p =>
      p &&& vmProtRead ≠ 0 := by
    rw [AddressMap.protectionAt, Option.any_map]
    rfl
  rw [hfactor, hfactor, h]

theorem changeable_congr {v v' : Vm} (x : Addr)
    (hp : v'.map.protectionAt x.toNat = v.map.protectionAt x.toNat)
    (hg : v'.map.grantsAt x.toNat = v.map.grantsAt x.toNat) : v'.changeable x = v.changeable x := by
  unfold AddressMap.protectionAt at hp
  unfold AddressMap.grantsAt at hg
  unfold Vm.changeable Region.changeable
  cases h : v.map.find x.toNat <;> cases h' : v'.map.find x.toNat <;> simp_all

/-- A write reaches what can be changed, when no region ends with the address space. -/
theorem writable_eq_changeable {v : Vm} (h : v.map.EndsBelow) : v.writable = v.changeable := by
  funext x
  unfold Vm.writable Vm.changeable
  cases hfind : v.map.find x.toNat with
  | none => rfl
  | some r =>
    have hend := h r (AddressMap.find_eq_some_iff.mp hfind).1
    simp only [Option.any_some, Region.writable, hend, decide_true, Bool.and_true]

/-- The page size is as before. -/
theorem Ready.of_sizeKept {s s' : VmState} (h : Ready task P s) (hs : SizeKept task s s')
    (hg : s'.vm.granularity = P.toNat) : Ready task P s' := by
  have hk := hs.faultFree h.faultFree
  refine ⟨hk, hg, (sized_iff hk).mpr ?_⟩
  rw [hs.size h.faultFree]
  exact (sized_iff h.faultFree).mp h.sized

variable {p : MachProcess} {k fuel : ℕ}

/-- A read is answered as by the flat memory, which stays as it is. -/
theorem read_simulates (hstop : p.mStatus = .stop) (htask : p.mTask.mTask ≠ 0)
    (hP : P.toNat = 2 ^ k) (hP32 : P.toNat < 2 ^ 32) {a : Addr} {c : BitVec 64} {buf : List Byte}
    (hbuf : c.toNat ≤ buf.length) (hfuel : c.toNat < fuel) {f : FlatMemory} {s : VmState}
    (h : Between p.mTask.mTask P m f s) :
    Partial.Returns (p.access fuel (.read a c buf)) (fun r s' => r = (f.step (.read a c buf)).1 ∧
      Between p.mTask.mTask P m (f.step (.read a c buf)).2 s') s := by
  have hpages : s.vm.PageReadable P.toNat :=
    h.solvent.tracked.aligned.pageReadable (hP ▸ Nat.two_pow_pos k)
  have hread := p.mTask.readMemory_returns htask hP hP32 h.ready.sized hpages
    (h.ready.faultFree .read) a c buf hbuf fuel hfuel
  have hkept := p.mTask.readMemory_sizeKept fuel a c (some buf) s
  refine .ite (fun _ => (hread.and_post hkept).mono ?_) fun hne => absurd hstop hne
  rintro ⟨n, out⟩ s' ⟨⟨buf', rfl, hexact, hvm⟩, hs⟩
  rw [h.flat]
  refine ⟨hexact.eq_step, ?_, h.ready.of_sizeKept hs ?_,
    h.solvent.of_sameMap ⟨?_, ?_, ?_⟩ hs.faults⟩
  · rw [hvm]
    rfl
  · rw [hvm]
    exact h.ready.granularity
  all_goals rw [hvm]

/-- A write is answered as by the flat memory, and changes its bytes alike. -/
theorem write_simulates (hstop : p.mStatus = .stop) (htask : p.mTask.mTask ≠ 0)
    (hP : P.toNat = 2 ^ k) (hP32 : P.toNat < 2 ^ 32) (hplain : m.Plain) (hself : m.SelfGranting)
    {a : Addr} {c : BitVec 64} {buf : List Byte} (hbuf : c.toNat ≤ buf.length)
    (hfuel : c.toNat < fuel) {f : FlatMemory} {s : VmState} (h : Between p.mTask.mTask P m f s) :
    Partial.Returns (p.access fuel (.write a c buf)) (fun r s' => r = (f.step (.write a c buf)).1 ∧
      Between p.mTask.mTask P m (f.step (.write a c buf)).2 s') s := by
  have hwrite := p.mTask.writeMemory_returns htask hP hP32 h.ready h.solvent.tracked.aligned a c buf
    hbuf fuel hfuel
  rw [writable_eq_changeable h.solvent.ends] at hwrite
  have hkept := p.mTask.writeMemory_sizeKept fuel a c (some buf) s
  have hsolvent := p.mTask.writeMemory_solvent fuel a c (some buf) (hP ▸ Nat.two_pow_pos k) hplain
    hself h.solvent
  refine .bind <| .ite (fun _ => ((hwrite.and_post hkept).and_post hsolvent).mono ?_)
    fun hne => absurd hstop hne
  rintro n s' ⟨⟨hexact, hs⟩, hsol⟩
  rw [h.flat, hexact.eq_step]
  refine .ret ⟨rfl, ?_, h.ready.of_sizeKept hs hsol.tracked.granularity, hsol⟩
  -- the protections are as before, and with them what can be read and written
  have hprot (x : ℕ) : s'.vm.map.protectionAt x = s.vm.map.protectionAt x :=
    (hsol.protectionAt MachVMRegion.not_dirty x).trans (h.protectionAt x).symm
  have hgrants (x : ℕ) : s'.vm.map.grantsAt x = s.vm.map.grantsAt x :=
    (hsol.grants x).trans (h.solvent.grants x).symm
  have hreadable : s'.vm.readable = s.vm.readable :=
    funext fun x => readable_congr x (hprot _)
  have hchangeable : s'.vm.changeable = s.vm.changeable :=
    funext fun x => changeable_congr x (hprot _) (hgrants _)
  simp only [Vm.flat, hreadable, hchangeable]

/-- **An access** is answered as by the flat memory. -/
theorem access_simulates (hstop : p.mStatus = .stop) (htask : p.mTask.mTask ≠ 0)
    (hP : P.toNat = 2 ^ k) (hP32 : P.toNat < 2 ^ 32) (hplain : m.Plain) (hself : m.SelfGranting) :
    Partial.Simulates (Between p.mTask.mTask P m) (Access.Fits fuel) FlatMemory.step
      (p.access fuel) := by
  rintro (⟨a, c, buf⟩ | ⟨a, c, buf⟩) ⟨hbuf, hfuel⟩ f s h
  · exact read_simulates hstop htask hP hP32 hbuf hfuel h
  · exact write_simulates hstop htask hP hP32 hplain hself hbuf hfuel h

end Access

/-- **A session of memory accesses** is a session with the flat memory: without failures, and with
regions that can be given their own protection, any sequence of reads and writes of a stopped
process is answered as by the flat memory, which is the target's memory after it too. Every
protection is as it was. -/
theorem MachProcess.accesses_flat (p : MachProcess) (hstop : p.mStatus = .stop)
    (htask : p.mTask.mTask ≠ 0) (s : VmState) (P : BitVec 64) (k : ℕ) (hP : P.toNat = 2 ^ k)
    (hP32 : P.toNat < 2 ^ 32)
    (hsize : ∃ s₁, (MachVMMemory.pageSize p.mTask.mTask).run s = some (P, s₁))
    (hgranularity : s.vm.granularity = P.toNat) (hal : s.vm.map.Aligned P.toNat)
    (hends : s.vm.map.EndsBelow) (hplain : s.vm.map.Plain) (hself : s.vm.map.SelfGranting)
    (hfault : s.vm.FaultFree) (hrestores : s.vm.restores = []) (fuel : ℕ) (accesses : List Access)
    (hfits : ∀ x ∈ accesses, x.Fits fuel) :
    ∃ rs s', (accesses.mapM (p.access fuel)).run s = some (rs, s') ∧
      rs = (answers FlatMemory.step s.vm.flat accesses).1 ∧
      s'.vm.flat = (answers FlatMemory.step s.vm.flat accesses).2 ∧
      ∀ x, s'.vm.map.protectionAt x = s.vm.map.protectionAt x := by
  have hstart : Between p.mTask.mTask P s.vm.map s.vm.flat s := by
    refine ⟨rfl, ⟨hfault, hgranularity, hsize⟩, ⟨hgranularity, hal, fun _ _ => rfl⟩, hfault, ?_,
      fun _ => rfl, hends, fun hd => absurd hd MachVMRegion.not_dirty⟩
    rw [hrestores]
    exact fun kr hkr => absurd hkr List.not_mem_nil
  obtain ⟨rs, s', hrun, hrs, hs'⟩ :=
    (access_simulates hstop htask hP hP32 hplain hself).mapM accesses hfits hstart
  exact ⟨rs, s', hrun, hrs, hs'.flat.symm, hs'.protectionAt⟩

/-- Four bytes are written across both pages, and eight bytes around them are read back. -/
theorem MachProcess.accesses_flat_dataAndCode : ∃ rs s',
    ([Access.write 30 4 [1, 2, 3, 4], .read 28 8 (List.replicate 8 0xEE)].mapM
        (MachProcess.access { mStatus := .stop, mTask := { mTask := 1 } } 9)).run
      ⟨.dataAndCode fun _ _ => none, {}⟩ = some (rs, s') ∧
    rs = [(4, some [1, 2, 3, 4]), (8, some [0, 0, 1, 2, 3, 4, 0, 0])] ∧
    ∀ x, s'.vm.map.protectionAt x = (Vm.dataAndCode fun _ _ => none).map.protectionAt x := by
  obtain ⟨rs, s', hrun, hrs, -, hprot⟩ := MachProcess.accesses_flat
    { mStatus := .stop, mTask := { mTask := 1 } } rfl (by decide)
    ⟨.dataAndCode fun _ _ => none, {}⟩ 16 4 rfl (by decide) ⟨_, rfl⟩ rfl
    (Vm.forall_dataAndCode (by decide) (by decide)) (Vm.forall_dataAndCode (by decide) (by decide))
    (Vm.forall_dataAndCode (by decide) (by decide)) (Vm.forall_dataAndCode rfl rfl)
    (fun _ _ => rfl) rfl 9 [.write 30 4 [1, 2, 3, 4], .read 28 8 (List.replicate 8 0xEE)]
    (by simp [Access.Fits])
  exact ⟨rs, s', hrun, hrs.trans (by decide +kernel), hprot⟩

end MachDebug
