import MachDebug.Main.Attach
import MachDebug.Memory.Protections

/-!
# The runs of the program

The program, the exception thread that it starts, and the target side take turns at every atomic
operation. In every run, the program ends by an exception or a failed assertion only after one of
its kernel calls has failed, and if it returns then the process is detached and the exception thread
has ended.

## Main definitions

* `Op.Benign`: the operations of the exception thread
* `MainSystem`, `MainSystem.move`, `MainSystem.replay`: the interleavings
* `Exception.Steps`, `MainSystem.Steps`: what a step is

## Main results

* `main_ends`: the program, under interference
* `MainSystem.replay_inv`: an invariant of the steps holds along a run
* `main_runs`: every run of the program
-/

namespace MachDebug

open Program

/-! ## The program under interference -/

section Own

variable {st : ProcessStatus} {joined : Prop}

/-- An operation of the program that leaves the world alone. -/
theorem own_ends {β : Type} {o : MainOp β} (ho : ∀ m b m', o.exec m = some (b, m') →
    m'.world = m.world ∧ m'.failed = m.failed) :
    Ends (Machine.At st joined) (own o) fun _ => Machine.At st joined := by
  have hA := Machine.At.steadfast st joined
  refine .exec hA (fun _ => hA) fun m b m' hm he => hA m m' ?_ hm
  obtain ⟨hw, hf⟩ := ho m b m' he
  have hended : m'.ended = m.ended := machine_exec_ended (o := .own o) he
  exact ⟨by rw [hw], by rw [hw], fun h => by rwa [hw], fun h => by rwa [hw], fun h => by rwa [hf],
    hended.ge, fun h => .inl (by rwa [hw])⟩

/-- A sleep. -/
theorem sleepFor_ends (n : ℕ) :
    Ends (Machine.At st joined) (own (.sleepFor n)) fun _ => Machine.At st joined :=
  own_ends fun m b m' he => by cases he; exact ⟨rfl, rfl⟩

/-- The assertion of an access to the memory. -/
theorem assertStopped_ends : Ends (Machine.At .stop joined) DebuggerController.assertStopped
    fun _ => Machine.At .stop joined := by
  have hA := Machine.At.steadfast .stop joined
  refine .seq (.read (R := (· = ProcessStatus.stop)) (part_all rfl) hA fun _ hm => hm.status)
    fun s => ?_
  refine .of_fact fun hs => (Ends.check hA fun _ _ hf => ?_).mono (fun _ => id) fun _ _ h => h.2
  rw [decide_eq_true hs] at hf
  cases hf

/-- `DebuggerController::read_memory`. -/
theorem readVector_ends (addr : Addr) (size : BitVec 64) : Ends (Machine.At .stop joined)
    (DebuggerController.readVector addr size) fun _ => Machine.At .stop joined := by
  refine .bind assertStopped_ends fun _ => .bind (own_ends fun m b m' he => ?_) fun r => ?_
  · obtain ⟨r, -, he⟩ := Option.map_eq_some_iff.mp he
    cases he
    exact ⟨rfl, rfl⟩
  · exact .ret (Q := fun _ => Machine.At .stop joined) (Machine.At.steadfast _ _)

/-- `DebuggerController::write_memory`. -/
theorem writeVector_ends (addr : Addr) (data : List Byte) : Ends (Machine.At .stop joined)
    (DebuggerController.writeVector addr data) fun _ => Machine.At .stop joined := by
  refine .bind assertStopped_ends fun _ => .bind (own_ends fun m b m' he => ?_) fun r => ?_
  · obtain ⟨r, -, he⟩ := Option.map_eq_some_iff.mp he
    cases he
    exact ⟨rfl, rfl⟩
  · exact .ret (Q := fun _ => Machine.At .stop joined) (Machine.At.steadfast _ _)

/-- The registers of one thread. -/
theorem threadGetRegisters_ends (thread : Port) :
    Ends (Machine.At st joined) (own (.threadGetRegisters thread))
      fun r => Granted (r.1 = 0) (Machine.At st joined) := by
  have hA := Machine.At.steadfast st joined
  refine .exec hA (fun r => hA.granted _) fun m r m' hm he => ?_
  cases he
  refine ⟨fun _ => hA m _ ⟨rfl, rfl, id, fun ht => ?_, fun hf => ?_, le_rfl, .inl⟩ hm,
    fun hne => ?_⟩
  · exact Kernel.issue_ind (M := fun x : _ × Kernel => x.2.excThread = false) (fun _ _ => ht) ht
  · change (m.failed || _) = true
    rw [hf, Bool.true_or]
  · change (_ || decide _) = true
    rw [decide_eq_true hne, Bool.or_true]

/-- The loop of `MachProcess::ReadRegister`. -/
theorem readEach_ends (ths : List Port) : Ends (Machine.At st joined) (MachProcess.readEach ths)
    fun _ => Machine.At st joined := by
  have hA := Machine.At.steadfast st joined
  induction ths with
  | nil => exact .ret (Q := fun _ => Machine.At st joined) hA
  | cons th ths ih =>
    refine .bind (threadGetRegisters_ends th) fun ⟨kr, gpr⟩ => .orFail Iff.rfl ?_
    exact .bind ih fun _ => .ret (Q := fun _ => Machine.At st joined) hA

/-- `DebuggerController::read_pc`. -/
theorem readPc_ends : Ends (Machine.At st joined) DebuggerController.readPc
    fun _ => Machine.At st joined := by
  have hA := Machine.At.steadfast st joined
  refine .bind ?_ fun _ => .ret (Q := fun _ => Machine.At st joined) hA
  refine .bind (B := fun r => Granted (r.1 = 0) (Machine.At st joined)) ?_ fun ⟨kr, threads⟩ => ?_
  · exact .seq (.visit (part_all rfl) hA) fun t => .sys (part_all rfl) hA fun _ => rfl
  · exact .orFail Iff.rfl (readEach_ends threads)

end Own

/-- The operations of `MachProcess::ReadRegister`. -/
theorem readRegister_uses {P : {β : Type} → CtlOp β → Prop}
    (hthreads : (debugger (member .taskPort >>= fun t => sys (.taskThreads t))).Uses P)
    (hget : ∀ thread, P (.own (.threadGetRegisters thread))) : MachProcess.readRegister.Uses P := by
  have heach (ths : List Port) : (MachProcess.readEach ths).Uses P := by
    induction ths with
    | nil => trivial
    | cons th ths ih =>
      refine Prog.Uses.bind ⟨hget th, fun _ => trivial⟩ fun r => ?_
      dsimp only
      split
      · trivial
      · exact ih.bind fun _ => trivial
  refine hthreads.bind fun r => ?_
  dsimp only
  split
  · trivial
  · exact heach _

/-- **The program**, given one argument that is not `0`, detaches and joins the exception thread
after a hundred single steps, or ends after a failed call. -/
theorem main_ends (sdk : Sdk) {argv : List String} (hargc : argv.length = 2)
    (hpid : atoi (argv.getD 1 "") ≠ 0) : Ends (fun _ => True) (main sdk argv)
      fun _ m => m.At .detach True ∧ m.Stepped 100 := by
  have hA := Machine.At.steadfast .stop False
  have hstepped (k : ℕ) := hA.and (Machine.Stepped.steadfast k)
  have hnew : Ends (fun _ => True) (own .newProcess) fun _ => Machine.Free :=
    .exec (fun _ _ _ => id) (fun _ => Machine.Free.steadfast) fun m b m' _ he => by
      cases he
      rfl
  unfold main
  rw [decide_eq_true hargc, Prog.assert_true, Prog.bind_eq, Prog.bind_ret]
  refine .bind (B := fun _ => Machine.At .stop False) ?_ fun _ => ?_
  · exact .bind hnew fun _ => attach_ends sdk hpid _
  refine .bind (sleepFor_ends 1) fun _ => .bind (readVector_ends mainAddr 12) fun data => ?_
  refine .bind (writeVector_ends mainAddr _) fun _ => ?_
  refine .bind (B := fun _ m => m.At .stop False ∧ m.Stepped 0) ?_ fun _ => ?_
  · refine (Ends.repeated (A := fun _ => Machine.At .stop False) (fun _ => hA) (fun _ => ?_)
      3 0).mono (fun _ => id) fun _ m hm => ⟨hm, Nat.zero_le _⟩
    refine .bind resume_ends fun _ => .bind (sleepFor_ends 2) fun _ => ?_
    exact .bind stop_ends fun _ => sleepFor_ends 2
  refine .bind (.repeated hstepped (fun k => ?_) 100 0) fun _ => ?_
  · refine .bind (singleStep_ends k) fun _ => .bind (readPc_ends.stepped (k + 1)) fun _ => ?_
    exact .ret (Q := fun _ m => m.At .stop False ∧ m.Stepped (k + 1)) (hstepped (k + 1))
  · exact .bind (resume_ends.stepped _) fun _ => (detach_ends (by decide)).stepped _

/-! ## The exception thread -/

/-- The operations that leave the assertions of the program alone: those on other parts, a task port
replaced by a valid one, and the end of a single step. -/
inductive Op.Benign : {β : Type} → Op β → Prop
  | other {β : Type} {o : Op β} : (∀ x ∈ o.part, x ∉ Part.asserted) → Benign o
  | setTaskPort {v : Port} : v ≠ 0 → Benign (.member (.setTaskPort v))
  | disarm : Benign (.member (.setSingleStep false))

/-- An operation of the exception thread. -/
theorem exceptionMachine_exec {β : Type} {o : Op β} {m m' : Machine} {b : β}
    (h : exceptionMachine.exec o m = some (b, m')) :
    world.exec o m.world = some (b, m'.world) ∧ m'.failed = m.failed ∧
      m'.ended = m.ended + o.ends := by
  obtain ⟨r, hr, he⟩ := Option.map_eq_some_iff.mp h
  obtain ⟨rfl, rfl⟩ := Prod.mk.inj he
  exact ⟨hr, rfl, rfl⟩

theorem Op.Benign.near {β : Type} {o : Op β} (ho : o.Benign) {m m' : Machine} {b : β}
    (h : exceptionMachine.exec o m = some (b, m')) : m.Near m' := by
  obtain ⟨hw, hf, hended⟩ := exceptionMachine_exec h
  have hle : m.ended ≤ m'.ended := hended ▸ Nat.le_add_right _ _
  cases ho with
  | other ho =>
    have hsame (x : Part) (hx : x ∈ Part.asserted) : m.world.Same m'.world x :=
      exec_same o hw fun hpart => ho x hpart hx
    refine ⟨hsame .status (by decide), hsame .pid (by decide), fun ht => ?_, fun ht => ?_,
      fun hm => hf.trans hm, hle, fun hs => .inl ?_⟩
    · rw [show m'.world.proc.mTask.mTask = m.world.proc.mTask.mTask from
        hsame .taskPort (by decide)]
      exact ht
    · exact (hsame .thread (by decide)).1.trans ht
    · exact Eq.trans (hsame .singleStep (by decide)) hs
  | setTaskPort hv =>
    obtain ⟨hk, hp, -⟩ := world_member_kern hw
    refine ⟨by rw [hp]; rfl, by rw [hp]; rfl, fun _ => ?_, fun ht => ?_, fun hm => hf.trans hm,
      hle, fun hs => .inl ?_⟩
    · rw [hp]
      exact hv
    · rw [hk]
      exact ht
    · rw [hp]
      exact hs
  | disarm =>
    obtain ⟨hk, hp, -⟩ := world_member_kern hw
    refine ⟨by rw [hp]; rfl, by rw [hp]; rfl, fun ht => ?_, fun ht => ?_, fun hm => hf.trans hm,
      hle, fun _ => .inr ?_⟩
    · rw [hp]
      exact ht
    · rw [hk]
      exact ht
    · rw [hended]
      exact Nat.lt_succ_self _

theorem Within.benign {α : Type} {S : List Part} {p : Code α} (hp : Within S p)
    (hS : ∀ x ∈ S, x ∉ Part.asserted) : p.Uses Op.Benign :=
  hp.uses.mono fun _ ho => .other fun x hx => hS x (ho x hx)

theorem fetchReceived_benign (sdk : Sdk) (l : ExceptionThread.Locals) (msg : ExcMsg) :
    (ExceptionThread.fetchReceived sdk l msg).Uses Op.Benign := by
  refine ((catchExceptionRaise_within sdk msg l.task).benign (by simp)).bind ?_
  rintro ⟨success, x⟩
  dsimp only
  split
  · split
    · rename_i h
      have hport : x.state.taskPort ≠ 0 := by
        have hvalid := h.2
        simp only [Data.isValid, Bool.and_eq_true, decide_eq_true_eq] at hvalid
        exact hvalid.1.1
      exact ⟨.setTaskPort hport, fun _ => trivial⟩
    · trivial
  · trivial

theorem fetch_benign (sdk : Sdk) (l : ExceptionThread.Locals) :
    (ExceptionThread.fetch sdk l).Uses Op.Benign := by
  have hport : (member .exceptionPort).Uses Op.Benign :=
    (Within.member (S := []) rfl).benign (by simp)
  unfold ExceptionThread.fetch
  refine hport.bind fun port => ?_
  split
  · trivial
  refine ((Within.sys (S := []) rfl).benign (by simp)).bind fun cancelled => ?_
  split
  · trivial
  refine hport.bind fun port => ?_
  refine ((Within.sys (S := [.queue]) rfl).benign (by decide)).bind fun r => ?_
  cases r with
  | ok msg => exact fetchReceived_benign sdk l msg
  | error kr => exact ((notReceived_within l kr).benign (by simp)).bind fun _ => trivial

theorem exceptionMessageReceived_benign (x : Message) :
    (MachProcess.exceptionMessageReceived x).Uses Op.Benign := by
  have hpush : (member (.pushMessage x)).Uses Op.Benign :=
    (Within.member (S := [.messages]) rfl).benign (by decide)
  have hrest : (MachProcess.disarmAndQueue x).Uses Op.Benign := by
    unfold MachProcess.disarmAndQueue
    refine ((Within.member (S := []) rfl).benign (by simp)).bind fun armed => ?_
    split
    · refine ((updateSingleStep_within _).benign (by decide)).bind fun _ => ?_
      exact Prog.Uses.bind ⟨.disarm, fun _ => trivial⟩ fun _ => hpush
    · exact hpush
  unfold MachProcess.exceptionMessageReceived
  refine ((Within.member (S := []) rfl).benign (by simp)).bind fun empty => ?_
  split
  · exact (suspend_within.benign (by decide)).bind fun _ => hrest
  · exact hrest

/-- The rest of the exception thread's program is benign. -/
def Exception.Benign : Exception → Prop
  | .absent => True
  | .fetching p => p.Uses Op.Benign
  | .delivering p _ => p.Uses Op.Benign
  | .ended => True

theorem Exception.benign_next (sdk : Sdk) (t : ExceptionThread.Turn) :
    (Exception.next sdk t).Benign := by
  cases t with
  | again l => exact fetch_benign sdk l
  | exit => trivial

/-! ## Runs -/

/-- One step of the exception thread. -/
def Exception.move (sdk : Sdk) (m : Machine) : Exception → Option (Exception × Machine)
  | .absent => some (.fetching (ExceptionThread.start sdk), m)
  | .fetching (.ret (some x, next)) =>
    some (.delivering (MachProcess.exceptionMessageReceived x) next, m)
  | .fetching (.ret (none, next)) => some (.next sdk next, m)
  | .fetching p => (p.step exceptionMachine m).map fun r => (.fetching r.1, r.2)
  | .delivering (.ret _) next => some (.next sdk next, m)
  | .delivering p next => (p.step exceptionMachine m).map fun r => (.delivering r.1 next, r.2)
  | .ended => none

/-- What a step of the exception thread is. -/
inductive Exception.Steps (sdk : Sdk) : Exception → Machine → Exception → Machine → Prop
  | start {m : Machine} : Steps sdk .absent m (.fetching (ExceptionThread.start sdk)) m
  | fetch {p p' : Code (Option Message × ExceptionThread.Turn)} {m m' : Machine} :
      p.Step exceptionMachine m p' m' → Steps sdk (.fetching p) m (.fetching p') m'
  | hand {x : Message} {t : ExceptionThread.Turn} {m : Machine} :
      Steps sdk (.fetching (.ret (some x, t))) m
        (.delivering (MachProcess.exceptionMessageReceived x) t) m
  | skip {t : ExceptionThread.Turn} {m : Machine} :
      Steps sdk (.fetching (.ret (none, t))) m (.next sdk t) m
  | deliver {p p' : Code Unit} {t : ExceptionThread.Turn} {m m' : Machine} :
      p.Step exceptionMachine m p' m' → Steps sdk (.delivering p t) m (.delivering p' t) m'
  | delivered {u : Unit} {t : ExceptionThread.Turn} {m : Machine} :
      Steps sdk (.delivering (.ret u) t) m (.next sdk t) m

theorem Exception.move_steps {sdk : Sdk} {e e' : Exception} {m m' : Machine}
    (h : e.move sdk m = some (e', m')) : e.Steps sdk m e' m' := by
  unfold Exception.move at h
  split at h
  · cases h
    exact .start
  · cases h
    exact .hand
  · cases h
    exact .skip
  · obtain ⟨r, hr, heq⟩ := Option.map_eq_some_iff.mp h
    cases heq
    exact .fetch (Prog.step_iff.mpr hr)
  · cases h
    exact .delivered
  · obtain ⟨r, hr, heq⟩ := Option.map_eq_some_iff.mp h
    cases heq
    exact .deliver (Prog.step_iff.mpr hr)
  · cases h

/-- An operation of a benign program. -/
theorem near_of_step {α : Type} {p p' : Code α} {m m' : Machine} (hp : p.Uses Op.Benign)
    (h : p.Step exceptionMachine m p' m') : m.Near m' ∧ p'.Uses Op.Benign :=
  hp.step_inv (I := fun t => m.Near t) (fun _ ho _ _ _ he hnear => hnear.trans (ho.near he)) h
    (Machine.Near.refl m)

/-- **A step of the exception thread** leaves the assertions of the program alone. -/
theorem Exception.Benign.steps {sdk : Sdk} {e e' : Exception} {m m' : Machine}
    (he : e.Benign) (h : e.Steps sdk m e' m') : m.Near m' ∧ e'.Benign := by
  cases h with
  | start =>
    refine ⟨.refl m, ?_⟩
    exact ((Within.member (S := []) rfl).benign (by simp)).bind fun t => fetch_benign sdk _
  | fetch hstep => exact near_of_step he hstep
  | hand => exact ⟨.refl m, exceptionMessageReceived_benign _⟩
  | skip => exact ⟨.refl m, Exception.benign_next sdk _⟩
  | deliver hstep => exact near_of_step he hstep
  | delivered => exact ⟨.refl m, Exception.benign_next sdk _⟩

/-- The program, the exception thread, and what they share. -/
structure MainSystem : Type 1 where
  ctl : Main Unit
  exc : Exception
  machine : Machine

/-- The choice of the next step: of the program, of the exception thread, of the kernel, or of the
target, whose registers and memory change. -/
inductive MainMove
  | ctl
  | exc
  | event (v : Kernel.Event)
  | target (registers : Port → ArmThreadState64) (vm : Vm)

namespace MainSystem

/-- The step that a move stands for. The exception thread moves while it has not been joined. -/
def move (sdk : Sdk) (s : MainSystem) : MainMove → Option MainSystem
  | .ctl => (s.ctl.step MachDebug.machine s.machine).map fun r => ⟨r.1, s.exc, r.2⟩
  | .exc =>
    if s.machine.world.kern.excThread then
      (s.exc.move sdk s.machine).map fun r => ⟨s.ctl, r.1, r.2⟩
    else none
  | .event v =>
    if v.Enabled s.machine.world.kern then
      some ⟨s.ctl, s.exc, { s.machine with world.kern := s.machine.world.kern.event v }⟩
    else none
  | .target registers vm =>
    some ⟨s.ctl, s.exc, { s.machine with registers := registers, memory.vm := vm }⟩

/-- Follow a schedule. -/
def replay (sdk : Sdk) (s : MainSystem) (xs : List MainMove) : Option MainSystem :=
  xs.foldlM (move sdk) s

/-- What a step is. -/
inductive Steps (sdk : Sdk) (s : MainSystem) : MainMove → MainSystem → Prop
  | ctl {p : Main Unit} {m : Machine} :
      s.ctl.Step MachDebug.machine s.machine p m → Steps sdk s .ctl ⟨p, s.exc, m⟩
  | exc {e : Exception} {m : Machine} :
      s.exc.Steps sdk s.machine e m → Steps sdk s .exc ⟨s.ctl, e, m⟩
  | event {v : Kernel.Event} : v.Enabled s.machine.world.kern → Steps sdk s (.event v)
      ⟨s.ctl, s.exc, { s.machine with world.kern := s.machine.world.kern.event v }⟩
  | target {registers : Port → ArmThreadState64} {vm : Vm} : Steps sdk s (.target registers vm)
      ⟨s.ctl, s.exc, { s.machine with registers := registers, memory.vm := vm }⟩

theorem move_steps {sdk : Sdk} {s s' : MainSystem} {x : MainMove} (h : s.move sdk x = some s') :
    s.Steps sdk x s' := by
  cases x with
  | ctl =>
    obtain ⟨r, hr, rfl⟩ := Option.map_eq_some_iff.mp h
    exact .ctl (Prog.step_iff.mpr hr)
  | exc =>
    simp only [move] at h
    split at h
    · obtain ⟨r, hr, rfl⟩ := Option.map_eq_some_iff.mp h
      exact .exc (Exception.move_steps hr)
    · cases h
  | event v =>
    simp only [move] at h
    split at h
    · cases h
      exact .event ‹_›
    · cases h
  | target registers vm =>
    cases h
    exact .target

/-- **An invariant** of the steps holds along a run. -/
theorem replay_inv {sdk : Sdk} {I : MainSystem → Prop}
    (hI : ∀ {s x s'}, I s → s.Steps sdk x s' → I s') {s s' : MainSystem} {xs : List MainMove}
    (h : I s) (hs : s.replay sdk xs = some s') : I s' := by
  induction xs generalizing s with
  | nil =>
    cases hs
    exact h
  | cons x xs ih =>
    obtain ⟨t, ht, hrest⟩ := Option.bind_eq_some_iff.mp hs
    exact ih (hI h (move_steps ht)) hrest

/-- The rest of the program ends as it should, and the exception thread is benign. -/
structure Sound (s : MainSystem) : Prop where
  ctl : s.ctl.reveal.Safe MachDebug.machine mainContract
    (fun _ m => m.At .detach True ∧ m.Stepped 100) (fun _ m => m.failed = true) s.machine
  exc : s.exc.Benign

/-- **A step** of either thread or of the target side keeps the program sound. -/
theorem Sound.steps {sdk : Sdk} {s s' : MainSystem} {x : MainMove} (h : s.Sound)
    (hs : s.Steps sdk x s') : s'.Sound := by
  cases hs with
  | ctl hp => exact ⟨(h.ctl.step hp.reveal).2, h.exc⟩
  | exc he =>
    obtain ⟨hnear, hexc⟩ := h.exc.steps he
    exact ⟨h.ctl.rely hnear, hexc⟩
  | @event v _ =>
    refine ⟨h.ctl.rely ⟨rfl, rfl, id, fun ht => ?_, id, le_rfl, .inl⟩, h.exc⟩
    cases v <;> exact ht
  | target => exact ⟨h.ctl.rely ⟨rfl, rfl, id, id, id, le_rfl, .inl⟩, h.exc⟩

end MainSystem

/-- **Every run of the program**, given one argument that is not `0`: it throws, or aborts on an
assertion, only after one of its kernel calls has failed, and where it returns, the process is
detached and the exception thread has ended. -/
theorem main_runs (sdk : Sdk) (argv : List String) (m : Machine) (hargc : argv.length = 2)
    (hpid : atoi (argv.getD 1 "") ≠ 0) (xs : List MainMove) (s : MainSystem)
    (hrun : MainSystem.replay sdk ⟨main sdk argv, .absent, m⟩ xs = some s) :
    (∀ e, s.ctl = .throw e → s.machine.failed = true) ∧
    (s.ctl = .abort → s.machine.failed = true) ∧
    (∀ u, s.ctl = .ret u → s.machine.world.proc.mStatus = .detach ∧
      s.machine.world.kern.excThread = false) := by
  have hstart : MainSystem.Sound ⟨main sdk argv, .absent, m⟩ :=
    ⟨main_ends sdk hargc hpid m trivial, trivial⟩
  have hctl := (MainSystem.replay_inv MainSystem.Sound.steps hstart hrun).ctl
  refine ⟨fun e he => ?_, fun he => ?_, fun u he => ?_⟩ <;> rw [he] at hctl
  · exact hctl.throw_post
  · exact hctl.throw_post
  · exact ⟨hctl.ret_post.1.status, hctl.ret_post.1.thread trivial⟩

/-- The process `7`, to which no signal can be sent. -/
def Machine.unsignalled : Machine where
  world := ⟨{}, .oneProcess fun c _ => if c = .kill then some ⟨esrch, by decide⟩ else none⟩
  registers _ := {}
  memory := ⟨.dataAndCode fun _ _ => none, {}⟩

/-- The exception that has ended the program. -/
def MainSystem.thrown : MainSystem → Option RuntimeError
  | ⟨.throw e, _, _⟩ => some e
  | _ => none

/-- The program attaches, changes the memory and resumes, and then cannot stop the process. -/
theorem main_runs_unsignalled : ∃ s, MainSystem.replay .macos
    ⟨main .macos ["debug", "7"], .absent, .unsignalled⟩ (List.replicate 39 .ctl) = some s ∧
      s.ctl = .throw (.errno esrch) ∧ s.machine.failed = true := by
  obtain ⟨s, hrun, hs⟩ := Option.bind_eq_some_iff.mp
    (show (MainSystem.replay .macos ⟨main .macos ["debug", "7"], .absent, .unsignalled⟩
      (List.replicate 39 .ctl)).bind MainSystem.thrown = some (.errno esrch) by decide +kernel)
  have hctl : s.ctl = .throw (.errno esrch) := by
    unfold MainSystem.thrown at hs
    split at hs
    · cases hs
      rfl
    · cases hs
  exact ⟨s, hrun, hctl, (main_runs _ _ _ rfl (by decide) _ s hrun).1 _ hctl⟩

end MachDebug
