import MachDebug.Main.Runs
import MachDebug.Threads.Ledger

/-!
# The single steps of the program

A single step is over when the exception thread takes the flag down, which it does once at most for
every exception message that it takes off the port. So the program returns only after the target has
sent a message for every one of its single steps, and never if the exception thread has ended
before.

## Main definitions

* `Machine.Spent n j`: the messages received cover the single steps ended, and `j` more
* `Spends n j p Q`: the program `p` spends the messages that it receives
* `MainSystem.Counted n`: the invariant

## Main results

* `fetch_spends`, `exceptionMessageReceived_spends`: an iteration of the exception thread ends one
  single step at most
* `main_sends`: every run of the program
* `main_waits`: a run whose exception thread has ended
-/

namespace MachDebug

open Program

/-! ## Messages and single steps -/

/-- The messages received since the `n`-th one cover the single steps ended, and `j` more. -/
def Machine.Spent (n j : ℕ) (m : Machine) : Prop :=
  n + m.ended + j + m.world.kern.queue.length ≤ m.world.kern.nextSerial

theorem Machine.Spent.mono {n j j' : ℕ} {m : Machine} (h : m.Spent n j) (hj : j' ≤ j) :
    m.Spent n j' := by
  unfold Machine.Spent at *
  omega

/-- Between two states, `n` messages are taken off the exception port. -/
def Machine.Takes (n : ℕ) (m m' : Machine) : Prop :=
  m'.world.kern.nextSerial + m.world.kern.queue.length =
    m.world.kern.nextSerial + m'.world.kern.queue.length + n

theorem Machine.Takes.refl (m : Machine) : m.Takes 0 m := rfl

theorem Machine.Takes.trans {k n : ℕ} {m m' m'' : Machine} (h : m.Takes k m')
    (h' : m'.Takes n m'') : m.Takes (k + n) m'' := by
  unfold Machine.Takes at *
  omega

/-- No message is taken off the port, and no single step ends. -/
structure Machine.Idle (m m' : Machine) : Prop where
  ended : m'.ended = m.ended
  takes : m.Takes 0 m'

namespace Machine.Idle

theorem refl (m : Machine) : m.Idle m := ⟨rfl, .refl m⟩

theorem trans {m m' m'' : Machine} (h : m.Idle m') (h' : m'.Idle m'') : m.Idle m'' :=
  ⟨h'.ended.trans h.ended, h.takes.trans h'.takes⟩

end Machine.Idle

/-- The contract of the exception thread: single steps are ended by messages received. -/
def spentContract (n : ℕ) : Contract Op Machine where
  rely := Machine.Idle
  guar _ m' := m'.Spent n 0
  permit _ _ _ := True
  rely_refl := Machine.Idle.refl
  rely_trans _ _ _ := Machine.Idle.trans

theorem Machine.Spent.stable (n j : ℕ) : Prog.Stable (spentContract n) (Machine.Spent n j) := by
  intro m m' hm h
  have hended := h.ended
  have htakes := h.takes
  unfold Machine.Takes at htakes
  unfold Machine.Spent at *
  omega

/-- The program of the exception thread, from `j` messages to spend to those that `Q` leaves. -/
def Spends {α : Type} (n j : ℕ) (p : Code α) (Q : α → ℕ) : Prop :=
  ∀ m, m.Spent n j → p.Safe exceptionMachine (spentContract n) (fun a t => t.Spent n (Q a))
    (fun _ _ => True) m

section Rules

variable {α β : Type} {n j : ℕ} {Q : α → ℕ}

theorem Spends.ret {a : α} : Spends n (Q a) (.ret a) Q :=
  fun m hm m' hr => Machine.Spent.stable n (Q a) m m' hm hr

theorem Spends.mono {p : Code α} {Q' : α → ℕ} (h : Spends n j p Q) (hQ : ∀ a, Q' a ≤ Q a) :
    Spends n j p Q' :=
  fun m hm => (h m hm).mono (fun a _ ht => ht.mono (hQ a)) fun _ _ => id

theorem Spends.bind {p : Code β} {f : β → Code α} {R : β → ℕ} (hp : Spends n j p R)
    (hf : ∀ b, Spends n (R b) (f b) Q) : Spends n j (p >>= f) Q :=
  fun m hm => Prog.Safe.bind ((hp m hm).mono (fun b t ht => hf b t ht) fun _ _ => id)

/-- One operation, by what it does. -/
theorem Spends.op {o : Op β} {R : β → ℕ} (h : ∀ m b m', m.Spent n j →
    exceptionMachine.exec o m = some (b, m') → m'.Spent n (R b)) : Spends n j (Prog.call o) R := by
  intro m hm t ht b t' he _
  have hspent : t'.Spent n (R b) := h t b t' (Machine.Spent.stable n j m t hm ht) he
  exact ⟨hspent.mono (Nat.zero_le _), Spends.ret (Q := R) t' hspent⟩

/-- The operations other than a receive and the end of a single step. -/
theorem exec_spent {o : Op β} (ho : ∀ x ∈ o.part, x ∉ [Part.queue, .singleStep]) {m m' : Machine}
    {b : β} (hm : m.Spent n j) (h : exceptionMachine.exec o m = some (b, m')) : m'.Spent n j := by
  obtain ⟨hw, -, hended⟩ := exceptionMachine_exec h
  have hqueue : m'.world.kern.queue = m.world.kern.queue :=
    exec_same o hw (x := .queue) fun hp => ho _ hp (by decide)
  have hends : o.ends = 0 := by
    cases o with
    | sys o => rfl
    | member o =>
      cases o
      case setSingleStep v => exact absurd (by decide) (ho .singleStep rfl)
      all_goals rfl
  unfold Machine.Spent at *
  rw [hqueue, hended, hends, (exec_follows o hw).nextSerial]
  exact hm

/-- A program without such operations. -/
theorem Within.spends {S : List Part} {p : Code α} (hp : Within S p)
    (hS : ∀ x ∈ S, x ∉ [Part.queue, .singleStep]) : Spends n j p fun _ => j := by
  intro m hm
  refine (Prog.Uses.safe (Machine.Spent.stable n j) (fun o ho t b t' ht he _ => ?_) hp.uses hm).mono
    (fun _ _ => id) fun _ _ _ => trivial
  have hspent := exec_spent (fun x hx => hS x (ho x hx)) ht he
  exact ⟨hspent.mono (Nat.zero_le _), hspent⟩

/-- **A receive** gives a message to spend. -/
theorem receive_spends (port : Port) (timeout : Option ℕ) :
    Spends n 0 (sys (.machMsgReceive port timeout)) fun r => if r.isOk then 1 else 0 := by
  refine .op fun m r m' hm he => ?_
  obtain ⟨hw, -, hended⟩ := exceptionMachine_exec he
  have hnext := (exec_follows _ hw).nextSerial
  have hqueue := receive_queue (world_sys_proc hw).2
  unfold Machine.Spent at *
  rw [hnext, hended]
  cases r with
  | ok msg =>
    rw [hqueue, List.length_cons] at hm
    change n + (m.ended + 0) + 1 + m'.world.kern.queue.length ≤ _
    omega
  | error kr =>
    rw [hqueue]
    exact hm

/-- **The end of a single step** spends a message. -/
theorem disarm_spends : Spends n 1 (member (.setSingleStep false)) fun _ => 0 := by
  refine .op fun m b m' hm he => ?_
  obtain ⟨hw, -, hended⟩ := exceptionMachine_exec he
  unfold Machine.Spent at *
  rw [hended, (world_member_kern hw).1]
  change n + (m.ended + 1) + 0 + m.world.kern.queue.length ≤ _
  omega

end Rules

/-! ## The exception thread -/

theorem fetchReceived_within (sdk : Sdk) (l : ExceptionThread.Locals) (msg : ExcMsg) :
    Within [.taskPort] (ExceptionThread.fetchReceived sdk l msg) := by
  unfold ExceptionThread.fetchReceived
  refine .bind ((catchExceptionRaise_within sdk msg l.task).mono (by simp)) fun r => ?_
  refine .ite (.ite ?_ (by simp)) (by simp)
  exact .bind (.member rfl) fun _ => by simp

/-- **An iteration up to the hand-over** leaves a message to spend for the one it hands over. -/
theorem fetch_spends (sdk : Sdk) (l : ExceptionThread.Locals) (n : ℕ) :
    Spends n 0 (ExceptionThread.fetch sdk l) fun r => if r.1.isSome then 1 else 0 := by
  have hport : Spends n 0 (member .exceptionPort) fun _ => 0 :=
    (Within.member (S := []) rfl).spends (by simp)
  have hnone (t : ExceptionThread.Turn) : Spends n 0 (pure (none, t) : Code (Option Message × _))
      fun r => if r.1.isSome then 1 else 0 := .ret
  unfold ExceptionThread.fetch
  refine hport.bind fun port => ?_
  split
  · exact hnone .exit
  refine .bind ((Within.sys (S := []) rfl).spends (by simp)) fun cancelled => ?_
  split
  · exact hnone .exit
  refine hport.bind fun port => (receive_spends port _).bind fun r => ?_
  cases r with
  | ok msg =>
    refine ((fetchReceived_within sdk l msg).spends (j := 1) (by decide)).mono fun r => ?_
    split <;> omega
  | error kr => exact .bind ((notReceived_within l kr).spends (by simp)) hnone

/-- **The hand-over** ends one single step at most. -/
theorem exceptionMessageReceived_spends (x : Message) (n : ℕ) :
    Spends n 1 (MachProcess.exceptionMessageReceived x) fun _ => 0 := by
  have hpush (j : ℕ) : Spends n j (member (.pushMessage x)) fun _ => 0 :=
    ((Within.member (S := [.messages]) rfl).spends (by decide)).mono fun _ => Nat.zero_le _
  have hread {β : Type} {o : MemberOp β} (ho : o.part = none) :
      Spends n 1 (member o) fun _ => 1 :=
    (Within.member (S := []) (by rw [ho]; rfl)).spends (by simp)
  have hrest : Spends n 1 (MachProcess.disarmAndQueue x) fun _ => 0 := by
    unfold MachProcess.disarmAndQueue
    refine (hread rfl).bind fun armed => ?_
    split
    · refine .bind ((updateSingleStep_within _).spends (by decide)) fun _ => ?_
      exact disarm_spends.bind fun _ => hpush 0
    · exact hpush 1
  unfold MachProcess.exceptionMessageReceived
  refine (hread rfl).bind fun empty => ?_
  split
  · exact .bind (suspend_within.spends (by decide)) fun _ => hrest
  · exact hrest

/-- The rest of the exception thread's program spends the messages that it has received. -/
def Exception.Counted (n : ℕ) : Exception → Machine → Prop
  | .fetching p, m => p.Safe exceptionMachine (spentContract n)
      (fun r t => t.Spent n (if r.1.isSome then 1 else 0)) (fun _ _ => True) m
  | .delivering p _, m => p.Safe exceptionMachine (spentContract n) (fun _ t => t.Spent n 0)
      (fun _ _ => True) m
  | _, _ => True

theorem Exception.Counted.rely {n : ℕ} {e : Exception} {m m' : Machine} (h : e.Counted n m)
    (hm : m.Idle m') : e.Counted n m' := by
  cases e with
  | absent => trivial
  | fetching p => exact Prog.Safe.rely h hm
  | delivering p next => exact Prog.Safe.rely h hm
  | ended => trivial

theorem Exception.counted_next (sdk : Sdk) (t : ExceptionThread.Turn) {n : ℕ} {m : Machine}
    (hm : m.Spent n 0) : (Exception.next sdk t).Counted n m := by
  cases t with
  | again l => exact fetch_spends sdk l n m hm
  | exit => trivial

/-- **A step of the exception thread** spends no message that it has not received. -/
theorem Exception.Counted.steps {sdk : Sdk} {n : ℕ} {e e' : Exception} {m m' : Machine}
    (he : e.Counted n m) (hm : m.Spent n 0) (h : e.Steps sdk m e' m') :
    e'.Counted n m' ∧ m'.Spent n 0 := by
  cases h with
  | start =>
    have hport : Spends n 0 (member .taskPort) fun _ => 0 :=
      (Within.member (S := []) rfl).spends (by simp)
    exact ⟨hport.bind (fun _ => fetch_spends sdk _ n) m hm, hm⟩
  | fetch hstep =>
    obtain ⟨hspent, hsafe⟩ := Prog.Safe.step he hstep.permitted
    exact ⟨hsafe, hspent⟩
  | hand => exact ⟨exceptionMessageReceived_spends _ n m (he m ((spentContract n).rely_refl m)), hm⟩
  | skip => exact ⟨Exception.counted_next sdk _ hm, hm⟩
  | deliver hstep =>
    obtain ⟨hspent, hsafe⟩ := Prog.Safe.step he hstep.permitted
    exact ⟨hsafe, hspent⟩
  | delivered => exact ⟨Exception.counted_next sdk _ hm, hm⟩

/-! ## The program -/

/-- An operation that receives no message. -/
def CtlOp.NoReceive {β : Type} : CtlOp β → Prop
  | .debugger o => o.part ≠ some .queue
  | .own _ => True

/-- An operation of the program is idle. -/
theorem idle_of_exec {β : Type} {o : CtlOp β} (ho : o.NoReceive) {m m' : Machine} {b : β}
    (h : machine.exec o m = some (b, m')) : m.Idle m' := by
  refine ⟨machine_exec_ended h, ?_⟩
  cases o with
  | debugger o =>
    obtain ⟨hw, -, -⟩ := machine_exec_debugger h
    have hqueue : m'.world.kern.queue = m.world.kern.queue := exec_same o hw (x := .queue) ho
    unfold Machine.Takes
    rw [hqueue, (exec_follows o hw).nextSerial, Nat.add_zero]
  | own o =>
    cases o with
    | newProcess => cases h; rfl
    | sleepFor n => cases h; rfl
    | threadGetRegisters thread =>
      cases h
      refine Kernel.issue_ind (M := fun x : _ × Kernel => x.2.nextSerial +
        m.world.kern.queue.length = m.world.kern.nextSerial + x.2.queue.length + 0) ?_ rfl
      exact fun _ _ => rfl
    | readMemory a size buf =>
      obtain ⟨r, -, he⟩ := Option.map_eq_some_iff.mp h
      cases he
      rfl
    | writeMemory a size buf =>
      obtain ⟨r, -, he⟩ := Option.map_eq_some_iff.mp h
      cases he
      rfl

/-- A program of the debugger outside the exception port. -/
theorem Within.noReceive {α : Type} {S : List Part} {p : Code α} (hp : Within S p)
    (hS : .queue ∉ S) : (debugger p).Uses CtlOp.NoReceive :=
  Prog.Uses.lift (hp.uses.mono fun _ ho hpart => hS (ho _ hpart))

/-- **The program** receives no message itself. -/
theorem main_noReceive (sdk : Sdk) (argv : List String) : (main sdk argv).Uses CtlOp.NoReceive := by
  have hown {β : Type} (o : MainOp β) : (own o).Uses CtlOp.NoReceive := ⟨trivial, fun _ => trivial⟩
  have hstopped : DebuggerController.assertStopped.Uses CtlOp.NoReceive := by
    have h : Within [] (member .status >>= fun s => Prog.assert (s = .stop)) :=
      .bind (.member rfl) fun _ => within_assert _
    exact h.noReceive (by simp)
  have hread (a : Addr) (size : BitVec 64) :
      (DebuggerController.readVector a size).Uses CtlOp.NoReceive :=
    hstopped.bind fun _ => (hown _).bind fun _ => trivial
  have hwrite (a : Addr) (data : List Byte) :
      (DebuggerController.writeVector a data).Uses CtlOp.NoReceive :=
    hstopped.bind fun _ => (hown _).bind fun _ => trivial
  have hpc : DebuggerController.readPc.Uses CtlOp.NoReceive := by
    have hthreads : Within [] (member .taskPort >>= fun t => sys (.taskThreads t)) :=
      .bind (.member rfl) fun _ => .sys rfl
    exact (readRegister_uses (hthreads.noReceive (by simp)) fun _ => trivial).bind fun _ => trivial
  have hresume : DebuggerController.resume.Uses CtlOp.NoReceive :=
    resume_within.noReceive (by decide)
  have hstop : DebuggerController.stop.Uses CtlOp.NoReceive := stop_within.noReceive (by decide)
  have hstep : DebuggerController.singleStep.Uses CtlOp.NoReceive :=
    singleStep_within.noReceive (by decide)
  have hdetach : DebuggerController.detach.Uses CtlOp.NoReceive :=
    detach_within.noReceive (by decide)
  unfold main
  refine Prog.Uses.bind (by cases decide (argv.length = 2) <;> trivial) fun _ => ?_
  refine ((hown _).bind fun _ => (attach_within sdk _ _).noReceive (by decide)).bind fun _ => ?_
  refine (hown _).bind fun _ => (hread _ _).bind fun data => (hwrite _ _).bind fun _ => ?_
  refine Prog.Uses.bind ?_ fun _ => Prog.Uses.bind ?_ fun _ => hresume.bind fun _ => hdetach
  · refine Prog.Uses.repeated ?_ 3
    exact hresume.bind fun _ => (hown _).bind fun _ => hstop.bind fun _ => hown _
  · refine Prog.Uses.repeated ?_ 100
    exact hstep.bind fun _ => hpc.bind fun _ => trivial

/-! ## Runs -/

namespace MainSystem

/-- The messages received since the `n`-th one cover the single steps ended, and the program
receives none. -/
structure Counted (n : ℕ) (s : MainSystem) : Prop where
  spent : s.machine.Spent n 0
  ctl : s.ctl.Uses CtlOp.NoReceive
  exc : s.exc.Counted n s.machine

/-- **What a step takes**: a message is taken by the exception thread only. -/
theorem Steps.idle {sdk : Sdk} {s s' : MainSystem} {x : MainMove}
    (hctl : s.ctl.Uses CtlOp.NoReceive) (h : s.Steps sdk x s') : s'.ctl.Uses CtlOp.NoReceive ∧
      (s'.exc = s.exc ∧ s.machine.Idle s'.machine ∨
        s.exc.Steps sdk s.machine s'.exc s'.machine) := by
  cases h with
  | ctl hp =>
    obtain ⟨hidle, huses⟩ := hctl.step_inv (I := fun m => s.machine.Idle m)
      (fun _ ho _ _ _ he hm => hm.trans (idle_of_exec ho he)) hp (.refl _)
    exact ⟨huses, .inl ⟨rfl, hidle⟩⟩
  | exc he => exact ⟨hctl, .inr he⟩
  | @event v _ =>
    refine ⟨hctl, .inl ⟨rfl, rfl, ?_⟩⟩
    cases v with
    | send msg =>
      simp only [Machine.Takes, Kernel.event, List.length_append, List.length_singleton]
      omega
    | exit t => rfl
    | threads t ths => rfl
  | target => exact ⟨hctl, .inl ⟨rfl, rfl, .refl _⟩⟩

/-- **A step** of either thread or of the target side keeps the count. -/
theorem Counted.steps {sdk : Sdk} {n : ℕ} {s s' : MainSystem} {x : MainMove} (h : s.Counted n)
    (hs : s.Steps sdk x s') : s'.Counted n := by
  obtain ⟨huses, ⟨hexc, hidle⟩ | hsteps⟩ := hs.idle h.ctl
  · refine ⟨Machine.Spent.stable n 0 _ _ h.spent hidle, huses, ?_⟩
    rw [hexc]
    exact h.exc.rely hidle
  · obtain ⟨hexc, hspent⟩ := h.exc.steps h.spent hsteps
    exact ⟨hspent, huses, hexc⟩

end MainSystem

/-- **Every run of the program** ends single steps by messages only: those that it has ended, and
those that wait, are covered by the messages sent since the start, and where the program returns
there were a hundred single steps. -/
theorem main_sends (sdk : Sdk) (argv : List String) (m : Machine) (hargc : argv.length = 2)
    (hpid : atoi (argv.getD 1 "") ≠ 0) (hended : m.ended = 0) (hqueue : m.world.kern.queue = [])
    (xs : List MainMove) (s : MainSystem)
    (hrun : MainSystem.replay sdk ⟨main sdk argv, .absent, m⟩ xs = some s) :
    m.world.kern.nextSerial + s.machine.ended + s.machine.world.kern.queue.length ≤
      s.machine.world.kern.nextSerial ∧ ∀ u, s.ctl = .ret u → 100 ≤ s.machine.ended := by
  have hsound : MainSystem.Sound ⟨main sdk argv, .absent, m⟩ :=
    ⟨main_ends sdk hargc hpid m trivial, trivial⟩
  have hcounted : MainSystem.Counted m.world.kern.nextSerial ⟨main sdk argv, .absent, m⟩ := by
    refine ⟨?_, main_noReceive sdk argv, trivial⟩
    unfold Machine.Spent
    rw [hended, hqueue]
    exact le_rfl
  refine ⟨(MainSystem.replay_inv MainSystem.Counted.steps hcounted hrun).spent, fun u hu => ?_⟩
  have hctl := (MainSystem.replay_inv MainSystem.Sound.steps hsound hrun).ctl
  rw [hu] at hctl
  exact hctl.ret_post.2

/-- The process `7`, all of whose calls succeed. -/
def Machine.willing : Machine where
  world := ⟨{}, .oneProcess fun _ _ => none⟩
  registers _ := {}
  memory := ⟨.dataAndCode fun _ _ => none, {}⟩

/-- A schedule in which the target answers the first single step. -/
def firstStep : List MainMove :=
  List.replicate 79 .ctl ++ .event (.send .breakpoint) :: List.replicate 29 .exc

/-- The first single step is ended by the only message. -/
theorem main_sends_first : ∃ s, MainSystem.replay .macos
    ⟨main .macos ["debug", "7"], .absent, .willing⟩ firstStep = some s ∧
      0 + 1 + s.machine.world.kern.queue.length ≤ s.machine.world.kern.nextSerial := by
  obtain ⟨s, hrun, hs⟩ := Option.map_eq_some_iff.mp
    (show (MainSystem.replay .macos ⟨main .macos ["debug", "7"], .absent, .willing⟩ firstStep).map
      (fun s => s.machine.ended) = some 1 by decide +kernel)
  have hsends := (main_sends _ _ .willing rfl (by decide) rfl rfl _ s hrun).1
  rw [hs] at hsends
  exact ⟨s, hrun, hsends⟩

/-! ## An exception thread that has ended -/

/-- Once the exception thread has ended, no single step ends. -/
theorem MainSystem.replay_ended {sdk : Sdk} {s s' : MainSystem} {xs : List MainMove}
    (hctl : s.ctl.Uses CtlOp.NoReceive) (h : s.exc = .ended) (hs : s.replay sdk xs = some s') :
    s'.machine.ended = s.machine.ended := by
  refine (MainSystem.replay_inv (I := fun t => t.ctl.Uses CtlOp.NoReceive ∧ t.exc = .ended ∧
    t.machine.ended = s.machine.ended) ?_ ⟨hctl, h, rfl⟩ hs).2.2
  rintro t x t' ⟨huses, hexc, hended⟩ hstep
  obtain ⟨huses', ⟨hexc', hidle⟩ | hsteps⟩ := hstep.idle huses
  · exact ⟨huses', hexc'.trans hexc, hidle.ended.trans hended⟩
  · rw [hexc] at hsteps
    cases hsteps

/-- **Once the exception thread has ended** before the last single step, no run of the program
returns: without a failed call, it waits forever. -/
theorem main_waits (sdk : Sdk) (argv : List String) (m : Machine) (hargc : argv.length = 2)
    (hpid : atoi (argv.getD 1 "") ≠ 0) (xs : List MainMove) (s : MainSystem)
    (hrun : MainSystem.replay sdk ⟨main sdk argv, .absent, m⟩ xs = some s) (hexc : s.exc = .ended)
    (hfew : s.machine.ended < 100) (ys : List MainMove) (s' : MainSystem)
    (hrest : s.replay sdk ys = some s') :
    (∀ u, s'.ctl ≠ .ret u) ∧
    (s'.machine.failed = false → s'.ctl ≠ .abort ∧ ∀ e, s'.ctl ≠ .throw e) := by
  have hsound : MainSystem.Sound ⟨main sdk argv, .absent, m⟩ :=
    ⟨main_ends sdk hargc hpid m trivial, trivial⟩
  have hmid := MainSystem.replay_inv MainSystem.Sound.steps hsound hrun
  have hctl := (MainSystem.replay_inv MainSystem.Sound.steps hmid hrest).ctl
  refine ⟨fun u hu => ?_, fun hfailed => ⟨fun hab => ?_, fun e he => ?_⟩⟩
  · rw [hu] at hctl
    have hall : 100 ≤ s'.machine.ended := hctl.ret_post.2
    have huses : s.ctl.Uses CtlOp.NoReceive := MainSystem.replay_inv
      (I := fun t => t.ctl.Uses CtlOp.NoReceive) (fun h hs => (hs.idle h).1)
      (main_noReceive sdk argv) hrun
    rw [MainSystem.replay_ended huses hexc hrest] at hall
    exact absurd hfew (not_lt.mpr hall)
  · rw [hab] at hctl
    exact Bool.false_ne_true (hfailed.symm.trans hctl.throw_post)
  · rw [he] at hctl
    exact Bool.false_ne_true (hfailed.symm.trans hctl.throw_post)

/-- The process `7`, whose messages cannot be waited for without an interrupt. -/
def Machine.interrupted : Machine :=
  { Machine.willing with
    world := ⟨{}, .oneProcess fun c _ =>
      if c = .machMsgReceive then some ⟨machRcvInterrupted, by decide⟩ else none⟩ }

/-- A schedule in which the target ends while the program attaches. -/
def lostTarget : List MainMove :=
  List.replicate 28 .ctl ++ .event (.exit 1) :: List.replicate 9 .exc

/-- The exception thread has ended and was not joined. -/
def MainSystem.deserted (s : MainSystem) : Bool :=
  match s.exc with
  | .ended => s.machine.ended < 100
  | _ => false

/-- The exception thread ends with the target, and the program never returns. -/
theorem main_waits_lostTarget : ∃ s, MainSystem.replay .macos
    ⟨main .macos ["debug", "7"], .absent, .interrupted⟩ lostTarget = some s ∧
      ∀ ys s', s.replay .macos ys = some s' → ∀ u, s'.ctl ≠ .ret u := by
  obtain ⟨s, hrun, hs⟩ := Option.map_eq_some_iff.mp
    (show (MainSystem.replay .macos ⟨main .macos ["debug", "7"], .absent, .interrupted⟩
      lostTarget).map MainSystem.deserted = some true by decide +kernel)
  unfold MainSystem.deserted at hs
  split at hs
  · rename_i hexc
    exact ⟨s, hrun, fun ys s' hrest =>
      (main_waits _ _ _ rfl (by decide) _ s hrun hexc (of_decide_eq_true hs) ys s' hrest).1⟩
  · cases hs

end MachDebug
