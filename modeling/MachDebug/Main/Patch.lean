import MachDebug.Main.Runs
import MachDebug.Memory.Patched
import MachDebug.Memory.ReadFailures

/-!
# The bytes that the program overwrites

The program writes to the target's memory once, the twelve bytes that it has read at a fixed address
with zeros for the first two. Whatever fails, and whatever the target does in between, the program
and its exception thread change no other byte of the target.

## Main definitions

* `Overwrites v v'`: what the program may do to the memory of the target
* `Patches p Q`: the program `p` overwrites at most these bytes, and returns a value in `Q`

## Main results

* `main_patch`: the program
* `main_overwrites`: every part of a run in which the target leaves its own memory alone
-/

namespace MachDebug

open Program

/-- The bytes that have changed are among the twelve at the address, and of these the first two are
zero now. -/
def Overwrites (v v' : Vm) : Prop :=
  ∀ x, v'.byte x = v.byte x ∨
    ∃ i < 12, x = mainAddr + BitVec.ofNat 64 i ∧ (i < 2 → v'.byte x = 0)

theorem Overwrites.of_byte {v v' : Vm} (h : v'.byte = v.byte) : Overwrites v v' :=
  fun x => .inl (congrFun h x)

theorem Overwrites.trans {v v' v'' : Vm} (h : Overwrites v v') (h' : Overwrites v' v'') :
    Overwrites v v'' := by
  intro x
  rcases h' x with hsame | hover
  · rw [hsame]
    exact h x
  · exact .inr hover

/-- Twelve bytes are written, the first two of which are zero. -/
theorem Overwrites.of_patched {data : List Byte} {s s' : VmState} (hlen : data.length = 12)
    (h : Patched mainAddr ((data.set 0 0).set 1 0) s s') : Overwrites s.vm s'.vm := by
  intro x
  rcases h x with hsame | ⟨i, hx, hbyte⟩
  · exact .inl hsame
  have hi : i < 12 := by
    have hlt := (List.getElem?_eq_some_iff.mp hbyte).1
    rwa [List.length_set, List.length_set, hlen] at hlt
  refine .inr ⟨i, hi, hx, fun h2 => ?_⟩
  simp only [List.getElem?_set, List.length_set, hlen] at hbyte
  obtain rfl | rfl : i = 0 ∨ i = 1 := by omega
  all_goals exact (Option.some.inj hbyte).symm

/-! ## The program -/

/-- The contract of the program: it does not rely on anything. -/
def patchContract : Contract CtlOp Machine where
  rely _ _ := True
  guar m m' := Overwrites m.memory.vm m'.memory.vm
  permit _ _ _ := True
  rely_refl _ := trivial
  rely_trans _ _ _ _ _ := trivial

/-- The program overwrites at most the bytes at the address, and returns a value in `Q`. -/
def Patches {α : Type} (p : Main α) (Q : α → Prop) : Prop :=
  ∀ m, p.Safe machine patchContract (fun a _ => Q a) (fun _ _ => True) m

/-- An operation that does not access the memory. -/
def CtlOp.Still : {β : Type} → CtlOp β → Prop
  | _, .own (.readMemory _ _ _) => False
  | _, .own (.writeMemory _ _ _) => False
  | _, _ => True

theorem CtlOp.Still.memory {β : Type} {o : CtlOp β} (ho : o.Still) {m m' : Machine} {b : β}
    (h : machine.exec o m = some (b, m')) : m'.memory.vm = m.memory.vm := by
  cases o with
  | debugger o =>
    obtain ⟨r, -, he⟩ := Option.map_eq_some_iff.mp h
    cases he
    rfl
  | own o =>
    cases o with
    | newProcess => cases h; rfl
    | threadGetRegisters thread => cases h; rfl
    | readMemory a size buf => exact ho.elim
    | writeMemory a size buf => exact ho.elim
    | sleepFor n => cases h; rfl

namespace Patches

variable {α β : Type} {Q : α → Prop}

theorem ret {a : α} (h : Q a) : Patches (.ret a) Q := fun _ _ _ => h

theorem bind {p : Main β} {f : β → Main α} {R : β → Prop} (hp : Patches p R)
    (hf : ∀ b, R b → Patches (f b) Q) : Patches (p.bind f) Q :=
  fun m => Prog.Safe.bind ((hp m).mono (fun b t hb => hf b hb t) fun _ _ => id)

/-- A program without accesses to the memory. -/
theorem of_still {p : Main α} (hp : p.Uses CtlOp.Still) : Patches p fun _ => True := by
  intro m
  refine Prog.Uses.safe (A := fun _ => True) (fun _ _ _ _ => trivial) (fun o ho t b t' _ he _ => ?_)
    hp trivial
  exact ⟨.of_byte (by rw [ho.memory he]), trivial⟩

/-- One operation, by what it does. -/
theorem op {o : CtlOp β} {R : β → Prop} (h : ∀ m b m', machine.exec o m = some (b, m') →
    Overwrites m.memory.vm m'.memory.vm ∧ R b) : Patches (Prog.call o) R := by
  intro m t _ b t' he _
  obtain ⟨hover, hb⟩ := h t b t' he
  exact ⟨hover, fun _ _ => hb⟩

end Patches

/-- An operation of the debugger accesses no memory. -/
theorem debugger_still {α : Type} (p : Code α) : (debugger p).Uses CtlOp.Still :=
  Prog.Uses.lift ((Prog.uses_true p).mono fun _ _ => trivial)

/-- **A read** gives as many bytes as were asked for. -/
theorem readVector_patches (addr : Addr) (size : BitVec 64) :
    Patches (DebuggerController.readVector addr size) fun data => data.length = size.toNat := by
  refine .bind (.of_still (debugger_still _)) fun _ _ => ?_
  refine .bind (R := fun r => (r.2.getD []).length = size.toNat) (.op fun m b m' he => ?_)
    fun r hr => .ret hr
  obtain ⟨r, hr, he⟩ := Option.map_eq_some_iff.mp he
  cases he
  obtain ⟨-, ⟨buf', hbuf, hfilled⟩, hvm⟩ := MachTask.readMemory_post _ m.memory addr size
    (List.replicate size.toNat 0) List.length_replicate.ge _ r.1 r.2 hr
  refine ⟨.of_byte ?_, ?_⟩
  · change r.2.vm.byte = _
    rw [hvm]
  · rw [hbuf]
    exact hfilled.length.trans List.length_replicate

/-- **A write** of twelve bytes, the first two of which are zero. -/
theorem writeVector_patches {data : List Byte} (hlen : data.length = 12) :
    Patches (DebuggerController.writeVector mainAddr ((data.set 0 0).set 1 0)) fun _ => True := by
  refine .bind (.of_still (debugger_still _)) fun _ _ => ?_
  refine .bind (R := fun _ => True) (.op fun m b m' he => ?_) fun r _ => .ret trivial
  obtain ⟨r, hr, he⟩ := Option.map_eq_some_iff.mp he
  cases he
  exact ⟨.of_patched hlen (MachTask.writeMemory_patched _ _ _ _ _ m.memory r.1 r.2 hr), trivial⟩

/-- **The program** overwrites at most the bytes at the address. -/
theorem main_patch (sdk : Sdk) (argv : List String) :
    Patches (main sdk argv) fun _ => True := by
  have hown {β : Type} (o : MainOp β) (ho : (CtlOp.own o).Still) : (own o).Uses CtlOp.Still :=
    ⟨ho, fun _ => trivial⟩
  have hsleep (n : ℕ) : (own (.sleepFor n)).Uses CtlOp.Still := hown _ trivial
  have hcode (p : Code Unit) : (debugger p).Uses CtlOp.Still := debugger_still p
  have hpc : DebuggerController.readPc.Uses CtlOp.Still :=
    (readRegister_uses (debugger_still _) fun _ => trivial).bind fun _ => trivial
  have hassert : (Prog.assert (decide (argv.length = 2)) : Main Unit).Uses CtlOp.Still := by
    cases decide (argv.length = 2) <;> trivial
  unfold main
  refine .bind (.of_still hassert) fun _ _ => ?_
  refine .bind (.of_still ((hown .newProcess trivial).bind fun _ => hcode _)) fun _ _ => ?_
  refine .bind (.of_still (hsleep 1)) fun _ _ => ?_
  refine .bind (readVector_patches mainAddr 12) fun data hlen => ?_
  refine .bind (writeVector_patches hlen) fun _ _ => .of_still ?_
  refine Prog.Uses.bind ?_ fun _ => Prog.Uses.bind ?_ fun _ => (hcode _).bind fun _ => hcode _
  · refine Prog.Uses.repeated ?_ 3
    exact (hcode _).bind fun _ => (hsleep 2).bind fun _ => (hcode _).bind fun _ => hsleep 2
  · refine Prog.Uses.repeated ?_ 100
    exact (hcode _).bind fun _ => hpc.bind fun _ => trivial

/-! ## Runs -/

/-- The exception thread accesses no memory of the target. -/
theorem Exception.Steps.memory {sdk : Sdk} {e e' : Exception} {m m' : Machine}
    (h : e.Steps sdk m e' m') : m'.memory = m.memory := by
  have hstep {α : Type} {p p' : Code α} (hp : p.Step exceptionMachine m p' m') :
      m'.memory = m.memory := by
    refine ((Prog.uses_true p).step_inv (I := fun t => t.memory = m.memory)
      (fun o _ t b t' he ht => ?_) hp rfl).1
    obtain ⟨r, -, he⟩ := Option.map_eq_some_iff.mp he
    cases he
    exact ht
  cases h with
  | fetch hp => exact hstep hp
  | deliver hp => exact hstep hp
  | start => rfl
  | hand => rfl
  | skip => rfl
  | delivered => rfl

/-- The target changes its registers and memory. -/
def MainMove.OfTarget : MainMove → Prop
  | .target _ _ => True
  | _ => False

namespace MainSystem

/-- The rest of the program overwrites at most the bytes at the address. -/
def Patching (s : MainSystem) : Prop :=
  s.ctl.Safe MachDebug.machine patchContract (fun _ _ => True) (fun _ _ => True) s.machine

/-- **A step** of either thread or of the kernel. -/
theorem Patching.steps {sdk : Sdk} {s s' : MainSystem} {x : MainMove} (h : s.Patching)
    (hs : s.Steps sdk x s') : s'.Patching ∧
      (¬ x.OfTarget → Overwrites s.machine.memory.vm s'.machine.memory.vm) := by
  cases hs with
  | ctl hp =>
    obtain ⟨hover, hrest⟩ := Prog.Safe.step h hp.permitted
    exact ⟨hrest, fun _ => hover⟩
  | exc he =>
    refine ⟨Prog.Safe.rely h trivial, fun _ => .of_byte ?_⟩
    rw [he.memory]
  | event _ => exact ⟨Prog.Safe.rely h trivial, fun _ => .of_byte rfl⟩
  | target => exact ⟨Prog.Safe.rely h trivial, fun hx => absurd trivial hx⟩

/-- **A run.** -/
theorem Patching.replay {sdk : Sdk} {s s' : MainSystem} {xs : List MainMove} (h : s.Patching)
    (hs : s.replay sdk xs = some s') (hxs : ∀ x ∈ xs, ¬ x.OfTarget) :
    Overwrites s.machine.memory.vm s'.machine.memory.vm := by
  induction xs generalizing s with
  | nil =>
    cases hs
    exact .of_byte rfl
  | cons x xs ih =>
    obtain ⟨t, ht, hrest⟩ := Option.bind_eq_some_iff.mp hs
    obtain ⟨hpatch, hover⟩ := h.steps (move_steps ht)
    refine (hover (hxs x List.mem_cons_self)).trans (ih hpatch hrest fun y hy => ?_)
    exact hxs y (List.mem_cons_of_mem x hy)

end MainSystem

/-- **The program and its exception thread** change no byte of the target other than the twelve at
the address, of which they set the first two to zero: in every part of every run, whatever fails, as
long as the target leaves its own memory alone. -/
theorem main_overwrites (sdk : Sdk) (argv : List String) (m : Machine) (xs ys : List MainMove)
    (s s' : MainSystem) (hrun : MainSystem.replay sdk ⟨main sdk argv, .absent, m⟩ xs = some s)
    (hrest : s.replay sdk ys = some s') (hquiet : ∀ y ∈ ys, ¬ y.OfTarget) :
    Overwrites s.machine.memory.vm s'.machine.memory.vm := by
  have hstart : MainSystem.Patching ⟨main sdk argv, .absent, m⟩ := main_patch sdk argv m
  have hmid := MainSystem.replay_inv (fun h hs => (MainSystem.Patching.steps h hs).1) hstart hrun
  exact hmid.replay hrest hquiet

/-- A memory with sixteen bytes at the address, which can be read and written. -/
def Vm.mainPage : Vm where
  byte _ := 7
  map := ⟨[.page 0x10491000 3 fun _ => true], by simp⟩
  granularity := 16
  taskPageSize := 16
  hostPageSize := 16
  faults _ _ := none
  calls _ := 0

/-- The process `7`, with a page at the address. -/
def Machine.patchable : Machine where
  world := ⟨{}, .oneProcess fun _ _ => none⟩
  registers _ := {}
  memory := ⟨.mainPage, {}⟩

/-- The bytes at the address after the next step. -/
def MainSystem.nextBytes (s : MainSystem) : Option (List Byte) :=
  (s.replay .macos [.ctl]).map fun s => s.machine.memory.vm.load mainAddr 4

/-- The step that writes sets two bytes to zero. -/
theorem main_overwrites_write : ∃ s s', MainSystem.replay .macos
    ⟨main .macos ["debug", "7"], .absent, .patchable⟩ (List.replicate 28 .ctl) = some s ∧
      s.replay .macos [.ctl] = some s' ∧ s'.machine.memory.vm.load mainAddr 4 = [0, 0, 7, 7] ∧
      Overwrites s.machine.memory.vm s'.machine.memory.vm := by
  obtain ⟨s, hrun, hs⟩ := Option.bind_eq_some_iff.mp
    (show (MainSystem.replay .macos ⟨main .macos ["debug", "7"], .absent, .patchable⟩
      (List.replicate 28 .ctl)).bind MainSystem.nextBytes = some [0, 0, 7, 7] by decide +kernel)
  obtain ⟨s', hrest, hbytes⟩ := Option.map_eq_some_iff.mp hs
  refine ⟨s, s', hrun, hrest, hbytes, main_overwrites _ _ _ _ [.ctl] s s' hrun hrest fun y hy => ?_⟩
  rw [List.mem_singleton.mp hy]
  exact id

end MachDebug
