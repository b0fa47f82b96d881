import MachDebug.Debugger.MachProcess

/-!
# What each function writes

Every operation writes at most one part of the world, besides the kernel's call counts. The
footprint of a function is the list of parts that its operations can write, and everything else
is as before after it has run, whatever the kernel answered.

## Main definitions

* `Part`: the parts of the world that operations write
* `Op.part`: the part that an operation writes
* `World.Same`: two worlds agree on a part
* `Within S p`: the program writes only the parts in `S`

## Main results

* `exec_same`: an operation leaves the other parts alone
* `run_follows`: a run changes nothing that is fixed
* `Within.run_same`: so does a program with a footprint
* `resume_within`, `stop_within`, `singleStep_within`, `attach_within`, `detach_within`,
  `received_within`: the footprints
-/

namespace MachDebug

open Program

/-- The parts of the world that operations write. -/
inductive Part
  | status
  | pid
  | taskPort
  | excPortInfo
  | exceptionPort
  | messages
  | singleStep
  | portTable
  | suspendCount
  | debug
  | ports
  | thread
  | replied
  | queue
  /-- No part of the world: the right to loop over the queued messages. -/
  | loop
  /-- No part of the world: the right to wait. -/
  | wait
  deriving DecidableEq

/-- The part that a member access writes. -/
def MemberOp.part {β : Type} : MemberOp β → Option Part
  | .setStatus _ => some .status
  | .setPid _ => some .pid
  | .setTaskPort _ => some .taskPort
  | .setExcPortInfo _ => some .excPortInfo
  | .setExceptionPort _ => some .exceptionPort
  | .messages => some .loop
  | .pushMessage _ => some .messages
  | .clearMessages => some .messages
  | .setSingleStep _ => some .singleStep
  | _ => none

/-- The part that a kernel call writes. -/
def SysOp.part {β : Type} : SysOp β → Option Part
  | .machPortAllocate => some .ports
  | .taskSetExceptionPorts _ _ _ => some .portTable
  | .pthreadCreate => some .thread
  | .pthreadCancel => some .thread
  | .pthreadJoin => some .thread
  | .taskSuspend _ => some .suspendCount
  | .taskResume _ => some .suspendCount
  | .threadSetState _ _ => some .debug
  | .machMsgSend _ _ => some .replied
  | .machMsgReceive _ _ => some .queue
  | _ => none

/-- The part that an operation writes. -/
def Op.part {β : Type} : Op β → Option Part
  | .member o => o.part
  | .sys o => o.part

/-- Two worlds agree on a part. -/
def World.Same (w w' : World) : Part → Prop
  | .status => w'.proc.mStatus = w.proc.mStatus
  | .pid => w'.proc.mPid = w.proc.mPid
  | .taskPort => w'.proc.mTask.mTask = w.proc.mTask.mTask
  | .excPortInfo => w'.proc.mTask.mExcPortInfo = w.proc.mTask.mExcPortInfo
  | .exceptionPort => w'.proc.mTask.mExceptionPort = w.proc.mTask.mExceptionPort
  | .messages => w'.proc.mExceptionMessages = w.proc.mExceptionMessages
  | .singleStep => w'.proc.mSingleStep = w.proc.mSingleStep
  | .portTable => ∀ t, (w'.kern.task t).excPorts = (w.kern.task t).excPorts
  | .suspendCount => (∀ t, (w'.kern.task t).suspendCount = (w.kern.task t).suspendCount) ∧
      w'.kern.issued = w.kern.issued
  | .debug => w'.kern.debug = w.kern.debug
  | .ports => w'.kern.lastPort = w.kern.lastPort
  | .thread => w'.kern.excThread = w.kern.excThread ∧ w'.kern.cancelled = w.kern.cancelled
  | .replied => w'.kern.replied = w.kern.replied
  | .queue => w'.kern.queue = w.kern.queue
  | .loop => True
  | .wait => True

theorem World.Same.refl (w : World) (x : Part) : w.Same w x := by
  cases x <;> simp [World.Same]

theorem World.Same.trans {w w' w'' : World} {x : Part} (h : w.Same w' x) (h' : w'.Same w'' x) :
    w.Same w'' x := by
  cases x <;> simp_all [World.Same]

/-- A member access writes its own part only. -/
theorem member_same {β : Type} (o : MemberOp β) (w : World) {x : Part} (hx : o.part ≠ some x) :
    w.Same { w with proc := (o.exec w.proc).2 } x := by
  cases o <;> cases x <;> simp_all [MemberOp.part, MemberOp.exec, World.Same]

/-- An injected failure writes no part. -/
theorem tally_same (w : World) (c : KCall) (x : Part) :
    w.Same { w with kern := w.kern.tally c } x := by
  cases x <;> simp [World.Same, Kernel.tally]

/-- Assigning exception ports writes nothing else. -/
theorem assignPorts_same (w : World) (k : Kernel) (t : Port) (m : ExceptionMask) (a : ExcAction)
    {x : Part} (hx : x ≠ .portTable) (h : w.Same { w with kern := k } x) :
    w.Same { w with kern := k.assignPorts t m a } x := by
  cases x <;> simp_all [World.Same, Kernel.assignPorts, Kernel.setTask, Function.update_apply]
  intro t'
  split <;> simp_all

/-- Suspending a task writes nothing else. -/
theorem suspendTask_same (w : World) (k : Kernel) (t : Port) {x : Part} (hx : x ≠ .suspendCount)
    (h : w.Same { w with kern := k } x) : w.Same { w with kern := k.suspendTask t } x := by
  cases x <;> simp_all [World.Same, Kernel.suspendTask, Kernel.setTask, Function.update_apply]
  intro t'
  split <;> simp_all

/-- Resuming a task writes nothing else. -/
theorem resumeTask_same (w : World) (k : Kernel) (t : Port) {x : Part} (hx : x ≠ .suspendCount)
    (h : w.Same { w with kern := k } x) : w.Same { w with kern := k.resumeTask t } x := by
  cases x <;> simp_all [World.Same, Kernel.resumeTask, Kernel.setTask, Function.update_apply]
  intro t'
  split <;> simp_all

/-- A kernel call writes its own part only. -/
theorem sys_same {β : Type} (o : SysOp β) {w : World} {b : β} {k : Kernel}
    (h : o.exec w.kern = some (b, k)) {x : Part} (hx : o.part ≠ some x) :
    w.Same { w with kern := k } x := by
  -- a call writes nothing when it fails, so that only its work is left to look at
  have key : ∀ {c : KCall} {fail : KernReturn → β} {act : Kernel → β × Kernel},
      w.kern.issue c fail act = (b, k) →
      w.Same { w with kern := (act (w.kern.tally c)).2 } x → w.Same { w with kern := k } x := by
    intro c fail act he hact
    exact Kernel.issue_inv he (M := fun k => w.Same { w with kern := k } x) (tally_same w c x) hact
  cases o
  case taskSetExceptionPorts t m a =>
    refine key (Option.some.inj h) ?_
    split
    · split
      · exact assignPorts_same w _ t m a (fun he => hx (by rw [he]; rfl)) (tally_same w _ x)
      · exact tally_same w _ x
    · exact tally_same w _ x
  case taskSuspend t =>
    refine key (Option.some.inj h) ?_
    split
    · exact suspendTask_same w _ t (fun he => hx (by rw [he]; rfl)) (tally_same w _ x)
    · exact tally_same w _ x
  case taskResume t =>
    refine key (Option.some.inj h) ?_
    split
    · exact resumeTask_same w _ t (fun he => hx (by rw [he]; rfl)) (tally_same w _ x)
    · exact tally_same w _ x
  case taskGetExceptionPorts t m =>
    refine key (Option.some.inj h) ?_
    split
    · split <;> exact tally_same w _ x
    · exact tally_same w _ x
  case machMsgReceive p timeout =>
    have hne : x ≠ .queue := fun he => hx (by rw [he]; rfl)
    simp only [SysOp.exec] at h
    split at h
    · obtain ⟨e, -, he⟩ := Option.map_eq_some_iff.mp h
      cases he
      exact tally_same w _ x
    · exact key (Option.some.inj h) (tally_same w _ x)
    · refine key (Option.some.inj h) ?_
      cases x <;> first | exact absurd rfl hne | simp [World.Same, Kernel.tally]
  case pthreadTestcancel => cases h; exact World.Same.refl w x
  case usleep n => cases h; exact World.Same.refl w x
  -- the other calls are counted at most, or write the part that is excluded
  all_goals
    refine key (Option.some.inj h) ?_
    first
      | exact tally_same w _ x
      | (split <;> exact tally_same w _ x)
      | (cases x <;> first | exact absurd rfl hx | simp [World.Same, Kernel.tally])

/-- An operation leaves every part but its own as it was. -/
theorem exec_same {β : Type} (o : Op β) {w w' : World} {b : β} (h : world.exec o w = some (b, w'))
    {x : Part} (hx : o.part ≠ some x) : w.Same w' x := by
  cases o with
  | member o =>
    obtain ⟨-, rfl⟩ := Prod.mk.inj (Option.some.inj h)
    exact member_same o w hx
  | sys o =>
    obtain ⟨r, hr, he⟩ := Option.map_eq_some_iff.mp h
    obtain ⟨-, rfl⟩ := Prod.mk.inj he
    exact sys_same o hr hx

/-! ## What no operation changes -/

/-- What the debugger's operations never change: what the kernel supports and knows of processes,
the messages sent so far, the life, the process and the threads of a task, and the failures to be
injected. The calls made are only ever counted up. -/
structure Kernel.Follows (k k' : Kernel) : Prop where
  faults : k'.faults = k.faults
  calls : ∀ c, k.calls c ≤ k'.calls c
  excPorts : k'.excPorts = k.excPorts
  taskOf : k'.taskOf = k.taskOf
  nextSerial : k'.nextSerial = k.nextSerial
  alive : ∀ t, (k'.task t).alive = (k.task t).alive
  pid : ∀ t, (k'.task t).pid = (k.task t).pid
  threads : ∀ t, (k'.task t).threads = (k.task t).threads

namespace Kernel.Follows

theorem refl (k : Kernel) : k.Follows k :=
  ⟨rfl, fun _ => le_rfl, rfl, rfl, rfl, fun _ => rfl, fun _ => rfl, fun _ => rfl⟩

theorem trans {k k' k'' : Kernel} (h : k.Follows k') (h' : k'.Follows k'') : k.Follows k'' :=
  ⟨h'.faults.trans h.faults, fun c => (h.calls c).trans (h'.calls c), h'.excPorts.trans h.excPorts,
    h'.taskOf.trans h.taskOf, h'.nextSerial.trans h.nextSerial,
    fun t => (h'.alive t).trans (h.alive t), fun t => (h'.pid t).trans (h.pid t),
    fun t => (h'.threads t).trans (h.threads t)⟩

theorem tally (k : Kernel) (c : KCall) : k.Follows (k.tally c) where
  faults := rfl
  calls c' := by
    simp only [Kernel.tally, Function.update_apply]
    split <;> simp_all
  excPorts := rfl
  taskOf := rfl
  nextSerial := rfl
  alive _ := rfl
  pid _ := rfl
  threads _ := rfl

/-- A change of a task's suspend count or exception ports. -/
theorem setTask {k k' : Kernel} (h : k.Follows k') (t : Port) (f : Task → Task)
    (hf : ∀ x, (f x).alive = x.alive ∧ (f x).pid = x.pid ∧ (f x).threads = x.threads) :
    k.Follows (k'.setTask t f) := by
  refine ⟨h.faults, h.calls, h.excPorts, h.taskOf, h.nextSerial, fun t' => ?_, fun t' => ?_,
    fun t' => ?_⟩ <;> simp only [Kernel.setTask, Function.update_apply] <;> split
  · subst t'; exact (hf _).1.trans (h.alive t)
  · exact h.alive t'
  · subst t'; exact (hf _).2.1.trans (h.pid t)
  · exact h.pid t'
  · subst t'; exact (hf _).2.2.trans (h.threads t)
  · exact h.threads t'

theorem live {k k' : Kernel} (h : k.Follows k') (t : Port) : k'.live t = k.live t := by
  simp [Kernel.live, h.alive]

theorem faultFree {k k' : Kernel} (h : k.Follows k') (hk : k.FaultFree) : k'.FaultFree := by
  intro c n hn
  rw [h.faults]
  exact hk c n ((h.calls c).trans hn)

end Kernel.Follows

/-- A kernel call changes nothing that is fixed. -/
theorem sys_follows {β : Type} (o : SysOp β) {k k' : Kernel} {b : β}
    (h : o.exec k = some (b, k')) : k.Follows k' := by
  have key : ∀ {c : KCall} {fail : KernReturn → β} {act : Kernel → β × Kernel},
      k.issue c fail act = (b, k') → k.Follows (act (k.tally c)).2 → k.Follows k' := by
    intro c fail act he hact
    exact Kernel.issue_inv he (.tally k c) hact
  have htally := Kernel.Follows.tally k
  cases o
  case taskSetExceptionPorts t m a =>
    refine key (Option.some.inj h) ?_
    split
    · split
      · exact (htally _).setTask t (fun x => { x with excPorts := x.excPorts.assign m a })
          fun x => ⟨rfl, rfl, rfl⟩
      · exact htally _
    · exact htally _
  case taskSuspend t =>
    refine key (Option.some.inj h) ?_
    split
    · obtain ⟨a, b, c, d, e, f, g, i⟩ := (htally .taskSuspend).setTask t
        (fun x => { x with suspendCount := x.suspendCount + 1 }) fun x => ⟨rfl, rfl, rfl⟩
      exact ⟨a, b, c, d, e, f, g, i⟩
    · exact htally _
  case taskResume t =>
    refine key (Option.some.inj h) ?_
    split
    · obtain ⟨a, b, c, d, e, f, g, i⟩ := (htally .taskResume).setTask t
        (fun x => { x with suspendCount := x.suspendCount - 1 }) fun x => ⟨rfl, rfl, rfl⟩
      exact ⟨a, b, c, d, e, f, g, i⟩
    · exact htally _
  case taskGetExceptionPorts t m =>
    refine key (Option.some.inj h) ?_
    split
    · split <;> exact htally _
    · exact htally _
  case machMsgReceive p timeout =>
    simp only [SysOp.exec] at h
    split at h
    · obtain ⟨e, -, he⟩ := Option.map_eq_some_iff.mp h
      cases he
      exact htally _
    · exact key (Option.some.inj h) (htally _)
    · obtain ⟨a, b, c, d, e, f, g, i⟩ := htally .machMsgReceive
      exact key (Option.some.inj h) ⟨a, b, c, d, e, f, g, i⟩
  case pthreadTestcancel => cases h; exact .refl k
  case usleep n => cases h; exact .refl k
  -- the other calls change fields that are not among the fixed ones
  all_goals
    refine key (Option.some.inj h) ?_
    first
      | exact htally _
      | (split <;> exact htally _)
      | (obtain ⟨a, b, c, d, e, f, g, i⟩ := htally _; exact ⟨a, b, c, d, e, f, g, i⟩)

theorem exec_follows {β : Type} (o : Op β) {w w' : World} {b : β}
    (h : world.exec o w = some (b, w')) : w.kern.Follows w'.kern := by
  cases o with
  | member o => rw [(world_member_kern h).1]; exact .refl _
  | sys o => exact sys_follows o (world_sys_proc h).2

/-- A run changes nothing that is fixed. -/
theorem run_follows {α : Type} (p : Code α) (w : World) : w.kern.Follows (p.run world w).2.kern :=
  Prog.Uses.run_inv (P := fun _ => True) (I := fun w' => w.kern.Follows w'.kern)
    (fun o _ _ _ _ he hs => hs.trans (exec_follows o he)) (Prog.uses_true p) (.refl _)

/-! ## Footprints -/

/-- The program writes only the parts in `S`, and has a busy wait only if `S` allows it. -/
structure Within {α : Type} (S : List Part) (p : Code α) : Prop where
  uses : p.Uses fun o => ∀ x ∈ o.part, x ∈ S
  straight : .wait ∉ S → p.Straight

/-- **Frame rule**: a run leaves the parts outside its footprint as they were. -/
theorem Within.run_same {α : Type} {S : List Part} {p : Code α} (hp : Within S p) {x : Part}
    (hx : x ∉ S) (w : World) : w.Same (p.run world w).2 x := by
  refine Prog.Uses.run_inv (I := fun w' => w.Same w' x) (fun o ho s b s' he hs => ?_)
    hp.uses (World.Same.refl w x)
  exact hs.trans (exec_same o he fun h => hx (ho x h))

/-- The frame rule for a run with a known end. -/
theorem Within.same {α : Type} {S : List Part} {p : Code α} (hp : Within S p)
    {w w' : World} {o : Outcome Op RuntimeError α} (h : p.run world w = (o, w')) {x : Part}
    (hx : x ∉ S) : w.Same w' x := by
  simpa only [h] using hp.run_same hx w

theorem follows_of_run {α : Type} {p : Code α} {w w' : World} {o : Outcome Op RuntimeError α}
    (h : p.run world w = (o, w')) : w.kern.Follows w'.kern := by
  simpa only [h] using run_follows p w

/-- Only a receive blocks. -/
theorem exec_ne_none {β : Type} {o : Op β} (ho : o.part ≠ some .queue) (w : World) :
    world.exec o w ≠ none := by
  cases o with
  | member o => simp
  | sys o => cases o <;> simp_all [SysOp.exec, Op.part, SysOp.part]

/-- A program that neither waits nor receives comes to an end. -/
theorem Within.not_waiting {α : Type} {S : List Part} {p : Code α} (hp : Within S p)
    (hw : .wait ∉ S) (hq : .queue ∉ S) (w : World) (q : Code α) (w' : World) :
    p.run world w ≠ (.waiting q, w') :=
  (hp.straight hw).not_waiting hp.uses (fun _ ho => exec_ne_none fun h => hq (ho _ h)) w q w'

/-- The parts that belong to the kernel. -/
def Part.ofKernel : Part → Bool
  | .portTable | .suspendCount | .debug | .ports | .thread | .replied | .queue => true
  | _ => false

/-- A program that writes only kernel parts leaves the members alone. -/
theorem Within.run_proc {α : Type} {S : List Part} {p : Code α} (hp : Within S p)
    (hS : ∀ x ∈ S, x.ofKernel = true) (w : World) : (p.run world w).2.proc = w.proc := by
  have hsame (x : Part) (hx : x.ofKernel = false) : w.Same (p.run world w).2 x :=
    hp.run_same (fun h => by simp [hS x h] at hx) w
  have hstatus := hsame .status rfl
  have hpid := hsame .pid rfl
  have htask := hsame .taskPort rfl
  have hinfo := hsame .excPortInfo rfl
  have hport := hsame .exceptionPort rfl
  have hmsgs := hsame .messages rfl
  have hstep := hsame .singleStep rfl
  simp only [World.Same] at hstatus hpid htask hinfo hport hmsgs hstep
  obtain ⟨⟨st, pid, ⟨t, info, port⟩, ms, ss⟩, k⟩ := w
  generalize (p.run world _).2 = w' at *
  obtain ⟨⟨st', pid', ⟨t', info', port'⟩, ms', ss'⟩, k'⟩ := w'
  simp_all

section Rules

variable {α β : Type} {S : List Part}

@[simp] theorem within_pure (a : α) : Within S (pure a : Code α) := ⟨trivial, fun _ => trivial⟩

@[simp] theorem within_ret (a : α) : Within S (.ret a : Code α) := ⟨trivial, fun _ => trivial⟩

@[simp] theorem within_throw (e : RuntimeError) : Within S (Prog.throw e : Code α) :=
  ⟨trivial, fun _ => trivial⟩

@[simp] theorem within_assert (c : Bool) : Within S (Prog.assert c : Code Unit) :=
  ⟨Prog.uses_assert c, fun _ => by cases c <;> trivial⟩

/-- A property of the parts of an operation, as a check that computes. -/
theorem part_all {q : Option Part} {M : Part → Prop} [DecidablePred M]
    (h : (q.all fun x => M x) = true) : ∀ x ∈ q, M x := by
  rintro x hx
  rw [Option.mem_def.mp hx] at h
  simpa using h

theorem Within.member {o : MemberOp α} (h : (o.part.all fun x => x ∈ S) = true) :
    Within S (member o) :=
  ⟨⟨part_all h, fun _ => trivial⟩, fun _ _ => trivial⟩

theorem Within.sys {o : SysOp α} (h : (o.part.all fun x => x ∈ S) = true) : Within S (sys o) :=
  ⟨⟨part_all h, fun _ => trivial⟩, fun _ _ => trivial⟩

theorem Within.bind {p : Code α} {f : α → Code β} (hp : Within S p) (hf : ∀ a, Within S (f a)) :
    Within S (p >>= f) :=
  ⟨hp.uses.bind fun a => (hf a).uses, fun h => (hp.straight h).bind fun a => (hf a).straight h⟩

theorem Within.ite {c : Prop} [Decidable c] {p q : Code α} (hp : Within S p) (hq : Within S q) :
    Within S (if c then p else q) := by
  split
  · exact hp
  · exact hq

theorem Within.mono {T : List Part} {p : Code α} (h : ∀ x ∈ S, x ∈ T) (hp : Within S p) :
    Within T p :=
  ⟨hp.uses.mono fun _ ho x hx => h x (ho x hx), fun hw => hp.straight fun h' => hw (h _ h')⟩

end Rules

/-! ### Tasks and messages -/

theorem isValid_within (t : Port) : Within [] (MachTask.isValid t) := by
  unfold MachTask.isValid MachTask.basicInfo
  exact .ite (.bind (.sys rfl) fun _ => by simp) (by simp)

theorem suspend_within : Within [.suspendCount] MachTask.suspend := by
  unfold MachTask.suspend
  exact .bind (.member rfl) fun _ => .sys rfl

theorem taskResume_within : Within [.suspendCount] MachTask.resume := by
  unfold MachTask.resume MachTask.basicInfo
  refine .bind (.member rfl) fun t => .ite (by simp) ?_
  refine .bind (.sys rfl) fun r => .ite (.ite (.sys rfl) ?_) ?_ <;> simp

theorem updateThreads_within (f : BitVec 64 → BitVec 64) (ths : List Port) :
    Within [.debug] (MachTask.updateThreads f ths) := by
  induction ths with
  | nil => simp [MachTask.updateThreads]
  | cons th ths ih =>
    unfold MachTask.updateThreads
    refine .bind (.sys rfl) fun r => .ite (by simp) ?_
    exact .bind (.sys rfl) fun kr => .ite (by simp) ih

theorem updateSingleStep_within (f : BitVec 64 → BitVec 64) :
    Within [.debug] (MachTask.updateSingleStep f) := by
  unfold MachTask.updateSingleStep
  refine .bind (.member rfl) fun t => .bind (.sys rfl) fun r => ?_
  exact .ite (by simp) (updateThreads_within f r.2)

theorem replySoftSignal_within (m : Message) (signal : BitVec 32) :
    Within [] (m.replySoftSignal signal) := by
  have hupd : ∀ pid sig, Within [] (m.updateThread pid sig) := fun pid sig =>
    .bind (by simp) fun _ => .bind (.sys rfl) fun _ => by simp
  refine .bind (.member rfl) fun t => .ite ?_ ?_
  · exact .bind (.member rfl) fun pid => hupd pid signal
  · exact .bind (.sys rfl) fun r => hupd _ _

theorem reply_within (m : Message) (signal : BitVec 32) : Within [.replied] (m.reply signal) := by
  have hsend : Within [.replied] (sys (.machMsgSend m.excMsg.serial m.retCode)) :=
    .sys rfl
  exact .ite (.bind ((replySoftSignal_within m signal).mono (by simp)) fun _ => hsend) hsend

theorem machExcServer_within (sdk : Sdk) (msg : ExcMsg) (g : Data) :
    Within [] (machExcServer sdk msg g) := by
  unfold machExcServer
  cases sdk.routine msg.msghId with
  | none => simp
  | some r =>
    cases r with
    | raise =>
      refine .bind ?_ fun _ => by simp
      unfold catchMachExceptionRaise
      refine .ite (by simp) (.bind (isValid_within _) fun b => ?_)
      exact .ite (.ite (by simp) (by simp)) (by simp)
    | raiseState => simp
    | raiseStateIdentity => simp

theorem catchExceptionRaise_within (sdk : Sdk) (msg : ExcMsg) (t : Port) :
    Within [] (Message.catchExceptionRaise sdk msg t) :=
  .bind (machExcServer_within sdk msg _) fun r => by simp

/-! ### The process -/

theorem disarmAndQueue_within (m : Message) :
    Within [.debug, .singleStep, .messages] (MachProcess.disarmAndQueue m) := by
  unfold MachProcess.disarmAndQueue
  have hpush : Within [.debug, .singleStep, .messages] (member (.pushMessage m)) :=
    .member rfl
  refine .bind (.member rfl) fun b => .ite ?_ hpush
  refine .bind ((updateSingleStep_within _).mono (by decide)) fun _ => ?_
  exact .bind (.member rfl) fun _ => hpush

theorem exceptionMessageReceived_within (m : Message) :
    Within [.suspendCount, .debug, .singleStep, .messages]
      (MachProcess.exceptionMessageReceived m) := by
  unfold MachProcess.exceptionMessageReceived
  have hrest : Within [.suspendCount, .debug, .singleStep, .messages]
      (MachProcess.disarmAndQueue m) :=
    (disarmAndQueue_within m).mono (by decide)
  refine .bind (.member rfl) fun b => .ite ?_ hrest
  exact .bind (suspend_within.mono (by decide)) fun _ => hrest

theorem received_within (sdk : Sdk) (l : ExceptionThread.Locals) (msg : ExcMsg) :
    Within [.taskPort, .suspendCount, .debug, .singleStep, .messages]
      (ExceptionThread.received sdk l msg) := by
  unfold ExceptionThread.received
  have hrec (m : Message) := (exceptionMessageReceived_within m).mono
    (T := [.taskPort, .suspendCount, .debug, .singleStep, .messages]) (by decide)
  refine .bind ((catchExceptionRaise_within sdk msg l.task).mono (by simp)) fun r => .ite ?_ ?_
  · refine .ite ?_ (.bind (hrec _) fun _ => by simp)
    exact .bind (.member rfl) fun _ => .bind (hrec _) fun _ => by simp
  · simp

theorem replyEach_within (ms : List Message) : Within [.replied] (MachProcess.replyEach ms) := by
  induction ms with
  | nil => simp [MachProcess.replyEach]
  | cons m ms ih => exact .bind (reply_within m 0) fun _ => ih

theorem replyToAllExceptions_within :
    Within [.loop, .replied, .messages] MachProcess.replyToAllExceptions := by
  unfold MachProcess.replyToAllExceptions
  refine .bind (.member rfl) fun _ => .bind (by simp) fun _ => ?_
  refine .bind (.member rfl) fun b => .ite ?_ (by simp)
  refine .bind (.member rfl) fun ms => ?_
  exact .bind ((replyEach_within ms).mono (by decide)) fun _ => .member rfl

theorem resumeTask_within : Within [.suspendCount, .status] MachProcess.resumeTask := by
  refine .bind (taskResume_within.mono (by decide)) fun kr => ?_
  exact .ite (by simp) (.member rfl)

theorem resume_within :
    Within [.loop, .replied, .messages, .suspendCount, .status] MachProcess.resume := by
  unfold MachProcess.resume
  refine .bind (.member rfl) fun _ => .bind (by simp) fun _ => ?_
  refine .bind (replyToAllExceptions_within.mono (by decide)) fun _ => ?_
  exact resumeTask_within.mono (by decide)

theorem stop_within : Within [.status] MachProcess.stop := by
  unfold MachProcess.stop MachProcess.signal
  refine .bind (.member rfl) fun _ => .bind (by simp) fun _ => ?_
  refine .bind ?_ fun _ => .member rfl
  refine .bind (.member rfl) fun _ => .bind (.sys rfl) fun e => ?_
  exact .ite (by simp) (by simp)

theorem awaitStep_within : Within [.status, .wait] MachProcess.awaitStep :=
  ⟨by simp [MachProcess.awaitStep, member, Prog.call, Op.part, MemberOp.part],
    fun h => by simp at h⟩

theorem armAndResume_within :
    Within [.singleStep, .debug, .loop, .replied, .messages, .suspendCount, .status]
      MachProcess.armAndResume := by
  unfold MachProcess.armAndResume
  refine .bind (.member rfl) fun _ => .bind (by simp) fun _ => ?_
  refine .bind (.member rfl) fun _ => ?_
  refine .bind ((updateSingleStep_within _).mono (by decide)) fun _ => ?_
  exact resume_within.mono (by decide)

theorem singleStep_within :
    Within [.singleStep, .debug, .loop, .replied, .messages, .suspendCount, .status, .wait]
      MachProcess.singleStep :=
  .bind (armAndResume_within.mono (by decide)) fun _ => awaitStep_within.mono (by decide)

/-! ### Attaching and detaching -/

theorem save_within (sdk : Sdk) (t : Port) : Within [] (PortInfo.save sdk t) := by
  unfold PortInfo.save
  refine .bind (.sys rfl) fun r => .ite ?_ (by simp)
  exact .bind (.sys rfl) fun _ => by simp

theorem restore_within (info : PortInfo) (t : Port) : Within [.portTable] (info.restore t) := by
  unfold PortInfo.restore
  refine .bind ?_ fun _ => by simp
  induction info.entries with
  | nil => simp [PortInfo.restoreEntries]
  | cons x xs ih => exact .bind (.sys rfl) fun kr => .ite (by simp) ih

theorem taskForPidRetry_within (pid : ℤ) (n : ℕ) : Within [] (MachTask.taskForPidRetry pid n) := by
  induction n with
  | zero => simp [MachTask.taskForPidRetry]
  | succ n ih =>
    unfold MachTask.taskForPidRetry
    refine .bind (.sys rfl) fun r => .ite (by simp) ?_
    exact .bind (.sys rfl) fun _ => ih

theorem taskPortForProcessID_within : Within [.taskPort] MachTask.taskPortForProcessID := by
  unfold MachTask.taskPortForProcessID MachTask.taskPortForPid
  refine .bind (.member rfl) fun t => .ite ?_ (.member rfl)
  refine .bind (.member rfl) fun pid => .bind ?_ fun t => ?_
  · exact .ite ((taskForPidRetry_within pid 10).mono (by simp)) (by simp)
  · exact .bind (.member rfl) fun _ => .member rfl

theorem savePorts_within (sdk : Sdk) : Within [] (MachTask.savePorts sdk) := by
  unfold MachTask.savePorts
  refine .bind (.member rfl) fun p => ?_
  refine .bind (.sys rfl) fun kr => .bind (by simp) fun _ => ?_
  exact .bind (.member rfl) fun t => .bind (save_within sdk t) fun _ => by simp

theorem redirect_within (ignored : List ExceptionMask) (t : Port) (err : DNBError)
    (info : PortInfo) :
    Within [.excPortInfo, .portTable, .thread] (MachTask.redirect ignored t err info) := by
  unfold MachTask.redirect
  refine .bind (.member rfl) fun _ => .ite (by simp) ?_
  refine .bind (.member rfl) fun _ => .bind (.member rfl) fun p => ?_
  refine .bind (.sys rfl) fun kr => .bind (by simp) fun _ => ?_
  exact .bind (.sys rfl) fun _ => by simp

theorem listen_within (sdk : Sdk) (ignored : List ExceptionMask) (t : Port) :
    Within [.ports, .exceptionPort, .excPortInfo, .portTable, .thread]
      (MachTask.listen sdk ignored t) := by
  unfold MachTask.listen
  refine .bind (.sys rfl) fun r => .bind (.member rfl) fun _ => ?_
  refine .bind (by simp) fun _ => .bind ((savePorts_within sdk).mono (by simp)) fun s => ?_
  exact (redirect_within ignored t s.1 s.2).mono (by decide)

theorem attachStarted_within (pid : ℤ) (started : Bool) (err : DNBError) :
    Within [.status] (MachProcess.attachStarted pid started err) := by
  unfold MachProcess.attachStarted
  refine .ite (by simp) (.bind (.sys rfl) fun e => .ite (by simp) ?_)
  exact .bind (.sys rfl) fun _ => .member rfl

theorem attachStart_within (sdk : Sdk) (pid : ℤ) (ignored : List ExceptionMask) :
    Within [.pid, .taskPort, .ports, .exceptionPort, .excPortInfo, .portTable, .thread]
      (MachProcess.attachStart sdk pid ignored) := by
  unfold MachProcess.attachStart MachTask.startExceptionThread
  refine .bind (.member rfl) fun _ => .bind (by simp) fun _ => .ite (by simp) ?_
  refine .bind (.sys rfl) fun e => .ite (by simp) ?_
  refine .bind (.member rfl) fun _ => ?_
  refine .bind (taskPortForProcessID_within.mono (by decide)) fun t => ?_
  refine .bind ((isValid_within t).mono (by simp)) fun b => .ite ?_ (by simp)
  exact (listen_within sdk ignored t).mono (by decide)

theorem attach_within (sdk : Sdk) (pid : ℤ) (ignored : List ExceptionMask) :
    Within [.pid, .taskPort, .ports, .exceptionPort, .excPortInfo, .portTable, .thread, .status]
      (MachProcess.attach sdk pid ignored) := by
  unfold MachProcess.attach
  refine .bind ((attachStart_within sdk pid ignored).mono (by decide)) fun r => ?_
  exact (attachStarted_within pid r.1 r.2).mono (by decide)

theorem joinExceptionThread_within :
    Within [.exceptionPort, .thread] MachTask.joinExceptionThread := by
  unfold MachTask.joinExceptionThread
  refine .bind (.member rfl) fun p => .bind (.member rfl) fun _ => ?_
  refine .bind (.sys rfl) fun e => .bind (by simp) fun _ => ?_
  exact .bind (.sys rfl) fun e => .bind (by simp) fun _ => .sys rfl

theorem shutDownExcecptionThread_within :
    Within [.portTable, .excPortInfo, .exceptionPort, .thread]
      MachTask.shutDownExcecptionThread := by
  unfold MachTask.shutDownExcecptionThread
  refine .bind (.member rfl) fun info => .bind (.member rfl) fun t => ?_
  refine .bind ((restore_within info t).mono (by decide)) fun r => ?_
  refine .bind (.member rfl) fun _ => ?_
  exact joinExceptionThread_within.mono (by decide)

theorem detachPtrace_within (kr : KernReturn) :
    Within [.status] (MachProcess.detachPtrace kr) := by
  unfold MachProcess.detachPtrace
  refine .ite (by simp) (.bind (.member rfl) fun pid => ?_)
  exact .bind (.sys rfl) fun e => .ite (by simp) (.member rfl)

theorem releaseTask_within : Within [.suspendCount] MachProcess.releaseTask :=
  .bind (taskResume_within.mono (by decide)) fun _ => .ite (by simp) (by simp)

theorem detach_within :
    Within [.portTable, .excPortInfo, .exceptionPort, .thread, .suspendCount, .status]
      MachProcess.detach := by
  unfold MachProcess.detach
  have hrest : Within [.portTable, .excPortInfo, .exceptionPort, .thread, .suspendCount, .status]
      (MachTask.shutDownExcecptionThread >>= fun kr => MachProcess.detachPtrace kr >>=
        fun _ => MachProcess.releaseTask) := by
    refine .bind (shutDownExcecptionThread_within.mono (by decide)) fun kr => ?_
    refine .bind ((detachPtrace_within kr).mono (by decide)) fun _ => ?_
    exact releaseTask_within.mono (by decide)
  refine .bind (.member rfl) fun st => .bind (by simp) fun _ => .ite ?_ hrest
  exact .bind (stop_within.mono (by decide)) fun _ => hrest

/-! ### The exception thread -/

theorem notReceived_within (l : ExceptionThread.Locals) (kr : KernReturn) :
    Within [] (ExceptionThread.notReceived l kr) := by
  have hvalid (l : ExceptionThread.Locals) : Within [] (MachTask.isValid l.task >>= fun valid =>
      if valid = true then return .again l else return .exit : Code ExceptionThread.Turn) :=
    .bind (isValid_within _) fun _ => .ite (by simp) (by simp)
  unfold ExceptionThread.notReceived
  refine .ite (.bind (.member rfl) fun p => .ite (by simp) (hvalid l)) ?_
  exact .ite (.ite (hvalid _) (by simp)) (by simp)

theorem turn_within (sdk : Sdk) (l : ExceptionThread.Locals) :
    Within [.queue, .taskPort, .suspendCount, .debug, .singleStep, .messages]
      (ExceptionThread.turn sdk l) := by
  unfold ExceptionThread.turn
  refine .bind (.member rfl) fun p => .ite (by simp) ?_
  refine .bind (.sys rfl) fun b => .ite (by simp) ?_
  refine .bind (.member rfl) fun p => .bind (.sys rfl) fun r => ?_
  cases r with
  | ok msg => exact .bind ((received_within sdk l msg).mono (by decide)) fun _ => by simp
  | error kr => exact (notReceived_within l kr).mono (by simp)

end MachDebug
