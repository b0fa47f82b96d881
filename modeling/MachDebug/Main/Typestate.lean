import MachDebug.Main.Program

/-!
# The states of the process in the program

`m_status` and `m_pid` are written by the controller only, and the exception thread replaces
`m_task` by valid ports only. So the controller knows where it is: each of its calls finds the
process in the status that it asserts, and ends by an exception or a failed assertion only after one
of its kernel calls has failed.

## Main definitions

* `Machine.Near m m'`: what the others may do to the state of the program
* `Ends A p Q`: from `A`, the program `p` returns in `Q`, or ends after a failed call
* `Machine.At st joined m`: the process is attached, and in the status `st`

## Main results

* `Ends.bind`, `Ends.repeated`, `Ends.frame`, `Ends.spin`: the rules
* `stop_ends`, `resume_ends`, `singleStep_ends`: the calls on an attached process
-/

namespace MachDebug

open Program

/-! ## Rules -/

/-- What the others may do to the state of the program: the status and the process stay, a task port
is replaced by a valid one, the exception thread is not started, and the single-step flag is taken
down only to end a step. -/
structure Machine.Near (m m' : Machine) : Prop where
  status : m'.world.proc.mStatus = m.world.proc.mStatus
  pid : m'.world.proc.mPid = m.world.proc.mPid
  task : m.world.proc.mTask.mTask ≠ 0 → m'.world.proc.mTask.mTask ≠ 0
  thread : m.world.kern.excThread = false → m'.world.kern.excThread = false
  failed : m.failed = true → m'.failed = true
  ended : m.ended ≤ m'.ended
  singleStep : m.world.proc.mSingleStep = true →
    m'.world.proc.mSingleStep = true ∨ m.ended < m'.ended

namespace Machine.Near

theorem refl (m : Machine) : m.Near m := ⟨rfl, rfl, id, id, id, le_rfl, .inl⟩

theorem trans {m m' m'' : Machine} (h : m.Near m') (h' : m'.Near m'') : m.Near m'' where
  status := h'.status.trans h.status
  pid := h'.pid.trans h.pid
  task ht := h'.task (h.task ht)
  thread ht := h'.thread (h.thread ht)
  failed hf := h'.failed (h.failed hf)
  ended := h.ended.trans h'.ended
  singleStep hs := by
    rcases h.singleStep hs with hs' | hlt
    · exact (h'.singleStep hs').imp_right fun hlt => lt_of_le_of_lt h.ended hlt
    · exact .inr (lt_of_lt_of_le hlt h'.ended)

end Machine.Near

/-- The contract of the program. -/
def mainContract : Contract CtlOp Machine where
  rely := Machine.Near
  guar _ _ := True
  permit _ _ _ := True
  rely_refl := Machine.Near.refl
  rely_trans _ _ _ := Machine.Near.trans

/-- An assertion that the others cannot invalidate. -/
def Steadfast (A : Machine → Prop) : Prop := ∀ m m', m.Near m' → A m → A m'

/-- From `A`, the program returns in `Q`, or ends after a kernel call of its own has failed. -/
def Ends {α : Type} (A : Machine → Prop) (p : Main α) (Q : α → Machine → Prop) : Prop :=
  ∀ m, A m → p.reveal.Safe machine mainContract Q (fun _ m => m.failed = true) m

theorem steadfast_failed : Steadfast fun m => m.failed = true := fun _ _ h => h.failed

/-- `A`, if the call succeeded; otherwise a call has failed. -/
def Granted (ok : Prop) (A : Machine → Prop) (m : Machine) : Prop :=
  (ok → A m) ∧ (¬ ok → m.failed = true)

theorem Steadfast.granted {A : Machine → Prop} (h : Steadfast A) (ok : Prop) :
    Steadfast (Granted ok A) :=
  fun _ _ hm hA => ⟨fun hok => h _ _ hm (hA.1 hok), fun hok => hm.failed (hA.2 hok)⟩

theorem Steadfast.and {A B : Machine → Prop} (hA : Steadfast A) (hB : Steadfast B) :
    Steadfast fun m => A m ∧ B m :=
  fun _ _ hm h => ⟨hA _ _ hm h.1, hB _ _ hm h.2⟩

theorem Steadfast.of_fact (R : Prop) : Steadfast fun _ => R := fun _ _ _ h => h

namespace Ends

variable {α β : Type} {A : Machine → Prop} {Q : α → Machine → Prop}

theorem ret {a : α} (h : Steadfast (Q a)) : Ends (Q a) (.ret a) Q :=
  fun m hm m' hr => h m m' hr hm

theorem throw (e : RuntimeError) : Ends (fun m => m.failed = true) (.throw e) Q :=
  fun _ hm _ hr => hr.failed hm

theorem abort : Ends (fun m => m.failed = true) .abort Q := fun _ hm _ hr => hr.failed hm

theorem mono {A' : Machine → Prop} {Q' : α → Machine → Prop} {p : Main α} (h : Ends A p Q)
    (hA : ∀ m, A' m → A m) (hQ : ∀ a m, Q a m → Q' a m) : Ends A' p Q' :=
  fun m hm => (h m (hA m hm)).mono hQ fun _ _ => id

/-- **Sequencing.** -/
theorem bind {p : Main β} {f : β → Main α} {B : β → Machine → Prop} (hp : Ends A p B)
    (hf : ∀ b, Ends (B b) (f b) Q) : Ends A (p.bind f) Q := by
  intro m hm
  rw [Prog.reveal_bind]
  exact Prog.Safe.bind ((hp m hm).mono (fun b t hB => hf b t hB) fun _ _ => id)

/-- **A repeated program**, with an invariant that counts its runs. -/
theorem repeated {A : ℕ → Machine → Prop} {p : Main Unit} (hA : ∀ k, Steadfast (A k))
    (hp : ∀ k, Ends (A k) p fun _ => A (k + 1)) (n k : ℕ) :
    Ends (A k) (Prog.repeated n p) fun _ => A (k + n) := by
  induction n generalizing k with
  | zero => exact ret (Q := fun _ => A k) (hA k)
  | succ n ih =>
    refine (hp k).bind fun _ => (ih (k + 1)).mono (fun _ => id) fun _ m h => ?_
    rwa [Nat.add_right_comm, Nat.add_assoc] at h

/-- **The frame rule**: an assertion that the others cannot invalidate, and that the operations of
the program keep. -/
theorem frame {R : {β : Type} → CtlOp β → Prop} {B : Machine → Prop} {p : Main α} (hp : Ends A p Q)
    (hu : p.Uses R) (hB : Steadfast B) (h : ∀ {β : Type} (o : CtlOp β), R o → ∀ m b m', B m →
      machine.exec o m = some (b, m') → B m') :
    Ends (fun m => A m ∧ B m) p fun a m => Q a m ∧ B m :=
  fun m hm => (hp m hm.1).frame (fun t t' ht hr => hB t t' hr ht) h hu.reveal hm.2

/-- One operation, by what it does. -/
theorem exec {o : CtlOp β} {B : β → Machine → Prop} (hA : Steadfast A) (hB : ∀ b, Steadfast (B b))
    (h : ∀ m b m', A m → machine.exec o m = some (b, m') → B b m') : Ends A (Prog.call o) B := by
  intro m hm m₁ hr b m₂ he _
  exact ⟨trivial, fun m₃ hr' => hB b m₂ m₃ hr' (h m₁ b m₂ (hA m m₁ hr hm) he)⟩

end Ends

/-! ## Operations of the debugger -/

/-- The program ends no single step itself. -/
theorem machine_exec_ended {β : Type} {o : CtlOp β} {m m' : Machine} {b : β}
    (h : machine.exec o m = some (b, m')) : m'.ended = m.ended := by
  cases o with
  | debugger o =>
    obtain ⟨r, -, he⟩ := Option.map_eq_some_iff.mp h
    cases he
    rfl
  | own o =>
    cases o with
    | newProcess => cases h; rfl
    | threadGetRegisters thread => cases h; rfl
    | sleepFor n => cases h; rfl
    | readMemory a size buf =>
      obtain ⟨r, -, he⟩ := Option.map_eq_some_iff.mp h
      cases he
      rfl
    | writeMemory a size buf =>
      obtain ⟨r, -, he⟩ := Option.map_eq_some_iff.mp h
      cases he
      rfl

/-- The parts of the world that the program's assertions speak about. -/
def Part.asserted : List Part := [.status, .pid, .taskPort, .thread, .singleStep]

/-- An operation of the debugger, in the program. -/
theorem machine_exec_debugger {β : Type} {o : Op β} {m m' : Machine} {b : β}
    (h : machine.exec (.debugger o) m = some (b, m')) :
    world.exec o m.world = some (b, m'.world) ∧ m'.failed = (m.failed || o.fails b) ∧
      m'.ended = m.ended := by
  obtain ⟨r, hr, he⟩ := Option.map_eq_some_iff.mp h
  obtain ⟨rfl, rfl⟩ := Prod.mk.inj he
  exact ⟨hr, rfl, rfl⟩

/-- An operation on other parts. -/
theorem near_of_exec {β : Type} {o : Op β} (ho : ∀ x ∈ o.part, x ∉ Part.asserted) {m m' : Machine}
    {b : β} (h : machine.exec (.debugger o) m = some (b, m')) : m.Near m' := by
  obtain ⟨hw, hf, hended⟩ := machine_exec_debugger h
  have hsame (x : Part) (hx : x ∈ Part.asserted) : m.world.Same m'.world x :=
    exec_same o hw fun hpart => ho x hpart hx
  refine ⟨hsame .status (by decide), hsame .pid (by decide), fun ht => ?_, fun ht => ?_,
    fun hm => ?_, hended.ge, fun hs => .inl ?_⟩
  · rw [show m'.world.proc.mTask.mTask = m.world.proc.mTask.mTask from hsame .taskPort (by decide)]
    exact ht
  · exact (hsame .thread (by decide)).1.trans ht
  · rw [hf, hm, Bool.true_or]
  · exact Eq.trans (hsame .singleStep (by decide)) hs

/-- An operation that fails is recorded. -/
theorem failed_of_exec {β : Type} {o : Op β} {m m' : Machine} {b : β}
    (h : machine.exec (.debugger o) m = some (b, m')) (hb : o.fails b = true) :
    m'.failed = true := by
  rw [(machine_exec_debugger h).2.1, hb, Bool.or_true]

section Debugger

variable {α β : Type} {A : Machine → Prop} {Q : α → Machine → Prop}

/-- **Sequencing**, of programs of the debugger. -/
theorem Ends.seq {p : Code β} {f : β → Code α} {B : β → Machine → Prop}
    (hp : Ends A (debugger p) B) (hf : ∀ b, Ends (B b) (debugger (f b)) Q) :
    Ends A (debugger (p >>= f)) Q := by
  unfold debugger
  rw [Prog.bind_eq, Prog.lift_bind]
  exact hp.bind hf

/-- A value returned. -/
theorem Ends.pure {a : α} (h : Steadfast (Q a)) : Ends (Q a) (debugger (pure a)) Q := .ret h

/-- An assertion that fails only after a failed call. -/
theorem Ends.check {c : Bool} (hA : Steadfast A) (h : ∀ m, A m → c = false → m.failed = true) :
    Ends A (debugger (Prog.assert c)) fun _ m => c = true ∧ A m := by
  cases c with
  | true =>
    have hret := Ends.ret (a := ()) (Q := fun _ m => true = true ∧ A m)
      ((Steadfast.of_fact _).and hA)
    exact hret.mono (fun _ hm => ⟨rfl, hm⟩) fun _ _ => id
  | false => exact Ends.abort.mono (fun m hm => h m hm rfl) fun _ _ => id

/-- **An operation on other parts** of the world, with what is known of every answer. -/
theorem Ends.answer {o : Op β} {R : β → Prop} (ho : ∀ x ∈ o.part, x ∉ Part.asserted)
    (hA : Steadfast A) (hR : ∀ m b w', A m → world.exec o m.world = some (b, w') → R b) :
    Ends A (debugger (Prog.call o)) fun b m =>
      R b ∧ A m ∧ (o.fails b = true → m.failed = true) := by
  refine .exec hA (fun b => ?_) fun m b m' hm he => ?_
  · exact (Steadfast.of_fact _).and (hA.and fun m m' hn hf hb => hn.failed (hf hb))
  · exact ⟨hR m b _ hm (machine_exec_debugger he).1, hA m m' (near_of_exec ho he) hm,
      failed_of_exec he⟩

/-- An operation on other parts of the world: it succeeds, or is recorded as failed. -/
theorem Ends.call {o : Op β} (ho : ∀ x ∈ o.part, x ∉ Part.asserted) (hA : Steadfast A) :
    Ends A (debugger (Prog.call o)) fun b => Granted (o.fails b = false) A :=
  (Ends.answer (R := fun _ => True) ho hA fun _ _ _ _ _ => trivial).mono (fun _ => id)
    fun _ _ h => ⟨fun _ => h.2.1, fun hf => h.2.2 (by simpa using hf)⟩

/-- A kernel call on other parts of the world. -/
theorem Ends.sys {o : SysOp β} (ho : ∀ x ∈ o.part, x ∉ Part.asserted) (hA : Steadfast A)
    (hfails : ∀ b, (Op.sys o).fails b = decide (o.answer b ≠ 0)) :
    Ends A (debugger (sys o)) fun b => Granted (o.answer b = 0) A := by
  refine (Ends.call (o := .sys o) ho hA).mono (fun _ => id) fun b m hm => ?_
  rwa [hfails, decide_eq_false_iff_not, not_not] at hm

/-- An operation on other parts of the world, whatever it answers. -/
theorem Ends.visit {o : Op β} (ho : ∀ x ∈ o.part, x ∉ Part.asserted) (hA : Steadfast A) :
    Ends A (debugger (Prog.call o)) fun _ => A :=
  (Ends.answer (R := fun _ => True) ho hA fun _ _ _ _ _ => trivial).mono (fun _ => id)
    fun _ _ h => h.2.1

/-- A member is read. -/
theorem Ends.read {o : MemberOp β} {R : β → Prop} (ho : ∀ x ∈ o.part, x ∉ Part.asserted)
    (hA : Steadfast A) (hR : ∀ m, A m → R (o.exec m.world.proc).1) :
    Ends A (debugger (member o)) fun b m => R b ∧ A m :=
  (Ends.answer (o := .member o) ho hA fun m _ _ hm he => (world_member_kern he).2.2 ▸ hR m hm).mono
    (fun _ => id) fun _ _ h => ⟨h.1, h.2.1⟩

/-- A member is written. -/
theorem Ends.write {o : MemberOp β} {B : Machine → Prop} (hA : Steadfast A) (hB : Steadfast B)
    (h : ∀ m m', A m → m'.world.kern = m.world.kern → m'.world.proc = (o.exec m.world.proc).2 →
      m'.failed = m.failed → m'.ended = m.ended → B m') :
    Ends A (debugger (member o)) fun _ => B := by
  refine .exec hA (fun _ => hB) fun m b m' hm he => ?_
  obtain ⟨hw, hf, hended⟩ := machine_exec_debugger he
  obtain ⟨hk, hp, -⟩ := world_member_kern hw
  exact h m m' hm hk hp (hf.trans (Bool.or_false _)) hended

/-- What is known of values is used. -/
theorem Ends.of_fact {R : Prop} {p : Main α} (h : R → Ends A p Q) : Ends (fun m => R ∧ A m) p Q :=
  fun m hm => h hm.1 m hm.2

/-- Where the call has failed, the program throws. -/
theorem Ends.orFail {c ok : Prop} [Decidable c] {e : RuntimeError} {p : Main α} (hc : c ↔ ¬ ok)
    (hp : Ends A p Q) : Ends (Granted ok A) (if c then Prog.throw e else p) Q := by
  split
  · rename_i h
    exact (Ends.throw e).mono (fun m hm => hm.2 (hc.mp h)) fun _ _ => id
  · rename_i h
    exact hp.mono (fun m hm => hm.1 (not_not.mp (mt hc.mpr h))) fun _ _ => id

/-- Where the call has failed, the program of the debugger throws. -/
theorem Ends.orThrow {c ok : Prop} [Decidable c] {e : RuntimeError} {p : Code α} (hc : c ↔ ¬ ok)
    (hp : Ends A (debugger p) Q) :
    Ends (Granted ok A) (debugger (if c then Prog.throw e else p)) Q := by
  rw [show debugger (if c then Prog.throw e else p) =
    if c then Prog.throw e else debugger p by split <;> rfl]
  exact .orFail hc hp

/-- Where the call has failed, the assertion fails. -/
theorem Ends.orAbort {c : Bool} {ok : Prop} (hA : Steadfast A) (hc : c = true ↔ ok) :
    Ends (Granted ok A) (debugger (Prog.assert c)) fun _ => A := by
  refine (Ends.check (hA.granted ok) fun m hm hf => hm.2 fun hok => ?_).mono (fun _ => id)
    fun _ m hm => hm.2.1 (hc.mp hm.1)
  rw [hc.mpr hok] at hf
  cases hf

/-- A busy wait on a member, with an invariant. -/
theorem Ends.spin {o : MemberOp Bool} {p : Code α} {B : Machine → Prop}
    (ho : ∀ x ∈ o.part, x ∉ Part.asserted) (hA : Steadfast A) (hB : Steadfast B)
    (h : ∀ m, A m → (o.exec m.world.proc).1 = false → B m) (hp : Ends B (debugger p) Q) :
    Ends A (debugger (.spin (.member o) p)) Q := by
  intro m hm
  refine ⟨A, hm, fun t t' ht hr => hA t t' hr ht, fun t ht b t' he _ => ⟨trivial, ?_⟩⟩
  have hnear : t.Near t' := near_of_exec (o := .member o) ho he
  obtain ⟨-, -, hb⟩ := world_member_kern (machine_exec_debugger he).1
  cases b with
  | true => exact hA t t' hnear ht
  | false => exact hp t' (hB t t' hnear (h t ht hb.symm))

/-- The operations of the debugger outside some parts. -/
def CtlOp.Outside (S : List Part) {β : Type} : CtlOp β → Prop
  | .debugger o => ∀ x ∈ o.part, x ∉ S
  | .own _ => False

theorem Within.outside {S T : List Part} {p : Code α} (hp : Within S p) (hST : ∀ x ∈ S, x ∉ T) :
    (debugger p).Uses (CtlOp.Outside T) :=
  Prog.Uses.lift (hp.uses.mono fun _ ho x hx => hST x (ho x hx))

end Debugger

/-! ## The attached process -/

/-- The process is attached and in the status `st`; if `joined`, the exception thread has ended. -/
structure Machine.At (st : ProcessStatus) (joined : Prop) (m : Machine) : Prop where
  status : m.world.proc.mStatus = st
  pid : 0 < m.world.proc.mPid
  task : m.world.proc.mTask.mTask ≠ 0
  thread : joined → m.world.kern.excThread = false

theorem Machine.At.steadfast (st : ProcessStatus) (joined : Prop) :
    Steadfast (Machine.At st joined) := fun _ _ h hm =>
  ⟨h.status.trans hm.status, h.pid ▸ hm.pid, h.task hm.task, fun hj => h.thread (hm.thread hj)⟩

section Process

variable {st : ProcessStatus} {joined : Prop}

/-- The status is written. -/
theorem setStatus_ends (st' : ProcessStatus) : Ends (Machine.At st joined)
    (debugger (member (.setStatus st'))) fun _ => Machine.At st' joined := by
  refine .write (Machine.At.steadfast st joined) (Machine.At.steadfast st' joined)
    fun m m' hm hk hp _ _ => ?_
  refine ⟨by rw [hp]; rfl, ?_, ?_, fun hj => ?_⟩
  · rw [hp]
    exact hm.pid
  · rw [hp]
    exact hm.task
  · rw [hk]
    exact hm.thread hj

/-- An assertion on the status that the controller knows. -/
theorem Ends.assertStatus {α : Type} {A : Machine → Prop} {c : ProcessStatus → Bool}
    {f : ProcessStatus → Code α} {Q : α → Machine → Prop} (hA : Steadfast A)
    (hst : ∀ m, A m → m.world.proc.mStatus = st) (hc : c st = true)
    (hf : Ends A (debugger (f st)) Q) :
    Ends A (debugger (member .status >>= fun s => Prog.assert (c s) >>= fun _ => f s)) Q := by
  refine .seq (.read (R := fun s => s = st) (part_all rfl) hA hst) fun s => .of_fact fun hs => ?_
  subst hs
  refine .seq (.check hA fun _ _ hf => ?_) fun _ => .of_fact fun _ => hf
  rw [hc] at hf
  cases hf

/-! ### Stopping -/

/-- `MachProcess::Signal`. -/
theorem signal_ends (sig : BitVec 32) : Ends (Machine.At st joined)
    (debugger (MachProcess.signal sig)) fun _ => Machine.At st joined := by
  have hA := Machine.At.steadfast st joined
  unfold MachProcess.signal
  refine .seq (.visit (part_all rfl) hA) fun pid => ?_
  refine .seq (.sys (part_all rfl) hA fun _ => rfl) fun e => .orThrow Iff.rfl ?_
  exact .pure (Q := fun _ => Machine.At st joined) hA

/-- `MachProcess::Stop`. -/
theorem stop_ends : Ends (Machine.At .running joined) (debugger MachProcess.stop)
    fun _ => Machine.At .stop joined :=
  .assertStatus (c := fun s => s = .running) (Machine.At.steadfast _ _) (fun _ hm => hm.status)
    rfl <| .seq (signal_ends _) fun _ => setStatus_ends _

/-! ### Resuming -/

/-- The update of a thread, in a process that was found. -/
theorem updateThread_ends (x : Message) (pid : ℤ) (sig : BitVec 32) :
    Ends (Granted (pid ≠ -1) (Machine.At st joined)) (debugger (x.updateThread pid sig))
      fun _ => Machine.At st joined := by
  have hA := Machine.At.steadfast st joined
  unfold Message.updateThread
  refine .seq (.orAbort hA (by simp)) fun _ => .seq (.visit (part_all rfl) hA) fun _ => ?_
  exact .pure (Q := fun _ => Machine.At st joined) hA

/-- The part of `Reply` for a soft signal: the tracked task is that of the process, and the process
of another is looked up. -/
theorem replySoftSignal_ends (x : Message) (sig : BitVec 32) : Ends (Machine.At st joined)
    (debugger (x.replySoftSignal sig)) fun _ => Machine.At st joined := by
  have hA := Machine.At.steadfast st joined
  unfold Message.replySoftSignal
  refine .seq (.visit (part_all rfl) hA) fun t => ?_
  split
  · refine .seq (.read (R := fun pid => 0 < pid) (part_all rfl) hA fun _ hm => hm.pid) fun pid => ?_
    refine (updateThread_ends x pid sig).mono (fun m hm => ⟨fun _ => hm.2, fun h => ?_⟩)
      fun _ _ => id
    have hpos := hm.1
    omega
  · refine .seq (.answer (o := .sys _) (R := fun _ => True) (part_all rfl) hA
      fun _ _ _ _ _ => trivial) fun r => ?_
    refine (updateThread_ends x (r.2.getD (-1)) _).mono (fun m hm => ⟨fun _ => hm.2.1, fun h => ?_⟩)
      fun _ _ => id
    -- a lookup that finds `-1` has failed
    refine hm.2.2 ?_
    rw [Op.fails, decide_eq_true (not_not.mp h), Bool.or_true]

/-- `MachException::Message::Reply`. -/
theorem reply_ends (x : Message) (sig : BitVec 32) : Ends (Machine.At st joined)
    (debugger (x.reply sig)) fun _ => Machine.At st joined := by
  have hA := Machine.At.steadfast st joined
  have hsend : Ends (Machine.At st joined)
      (debugger (sys (.machMsgSend x.excMsg.serial x.retCode))) fun _ => Machine.At st joined :=
    .visit (part_all rfl) hA
  unfold Message.reply
  split
  · exact .seq (replySoftSignal_ends x sig) fun _ => hsend
  · exact hsend

/-- The reply loop. -/
theorem replyEach_ends (xs : List Message) : Ends (Machine.At st joined)
    (debugger (MachProcess.replyEach xs)) fun _ => Machine.At st joined := by
  induction xs with
  | nil => exact .pure (Q := fun _ => Machine.At st joined) (Machine.At.steadfast st joined)
  | cons x xs ih => exact .seq (reply_ends x 0) fun _ => ih

/-- `MachProcess::ReplyToAllExceptions`. -/
theorem replyToAllExceptions_ends : Ends (Machine.At .stop joined)
    (debugger MachProcess.replyToAllExceptions) fun _ => Machine.At .stop joined := by
  have hA := Machine.At.steadfast .stop joined
  refine .assertStatus (c := fun s => s = .stop) hA (fun _ hm => hm.status) rfl ?_
  refine .seq (.visit (part_all rfl) hA) fun empty => ?_
  split
  · refine .seq (.visit (part_all rfl) hA) fun xs => .seq (replyEach_ends xs) fun _ => ?_
    exact .visit (part_all rfl) hA
  · exact .pure (Q := fun _ => Machine.At .stop joined) hA

/-- `MachTask::Resume`: the task is there, so that only a call can fail. -/
theorem taskResume_ends : Ends (Machine.At st joined) (debugger MachTask.resume)
    fun kr => Granted (kr = 0) (Machine.At st joined) := by
  have hA := Machine.At.steadfast st joined
  have hret (kr : KernReturn) : Ends (Granted (kr = 0) (Machine.At st joined))
      (debugger (pure kr)) fun kr => Granted (kr = 0) (Machine.At st joined) :=
    .pure (Q := fun kr => Granted (kr = 0) (Machine.At st joined)) (hA.granted _)
  unfold MachTask.resume MachTask.basicInfo
  refine .seq (.read (R := fun t => t ≠ 0) (part_all rfl) hA fun _ hm => hm.task) fun t => ?_
  refine .of_fact fun ht => ?_
  rw [if_neg ht]
  refine .seq (.sys (part_all rfl) hA fun _ => rfl) fun ⟨kr, suspendCount⟩ => ?_
  change Ends (Granted (kr = 0) (Machine.At st joined)) (debugger (if kr = 0 then
    if suspendCount > 0 then sys (.taskResume t) else pure kr else pure kr)) _
  split
  · rename_i hkr
    split
    · exact (Ends.sys (o := .taskResume t) (part_all rfl) hA fun _ => rfl).mono
        (fun m hm => hm.1 hkr) fun _ _ => id
    · exact hret kr
  · exact hret kr

/-- The part of `MachProcess::Resume` after the replies. -/
theorem resumeTask_ends : Ends (Machine.At st joined) (debugger MachProcess.resumeTask)
    fun _ => Machine.At .running joined :=
  .seq taskResume_ends fun _ => .orThrow Iff.rfl (setStatus_ends _)

/-- `MachProcess::Resume`. -/
theorem resume_ends : Ends (Machine.At .stop joined) (debugger MachProcess.resume)
    fun _ => Machine.At .running joined :=
  .assertStatus (c := fun s => s = .stop) (Machine.At.steadfast _ _) (fun _ hm => hm.status) rfl <|
    .seq replyToAllExceptions_ends fun _ => resumeTask_ends

/-! ### Single steps -/

/-- The loop over the threads. -/
theorem updateThreads_ends (f : BitVec 64 → BitVec 64) (ths : List Port) :
    Ends (Machine.At st joined) (debugger (MachTask.updateThreads f ths))
      fun _ => Machine.At st joined := by
  have hA := Machine.At.steadfast st joined
  induction ths with
  | nil => exact .pure (Q := fun _ => Machine.At st joined) hA
  | cons th ths ih =>
    unfold MachTask.updateThreads
    refine .seq (.sys (part_all rfl) hA fun _ => rfl) fun r => .orThrow Iff.rfl ?_
    exact .seq (.sys (part_all rfl) hA fun _ => rfl) fun kr => .orThrow Iff.rfl ih

/-- `MachTask::EnableSingleStep`. -/
theorem updateSingleStep_ends (f : BitVec 64 → BitVec 64) : Ends (Machine.At st joined)
    (debugger (MachTask.updateSingleStep f)) fun _ => Machine.At st joined := by
  have hA := Machine.At.steadfast st joined
  unfold MachTask.updateSingleStep
  refine .seq (.visit (part_all rfl) hA) fun t => ?_
  refine .seq (.sys (part_all rfl) hA fun _ => rfl) fun r => .orThrow Iff.rfl ?_
  exact updateThreads_ends f r.2

/-- The exception thread has ended `k` single steps. -/
def Machine.Stepped (k : ℕ) (m : Machine) : Prop := k ≤ m.ended

theorem Machine.Stepped.steadfast (k : ℕ) : Steadfast (Machine.Stepped k) :=
  fun _ _ h hm => le_trans hm h.ended

/-- The exception thread has ended `k` single steps, and another one if the flag is down. -/
def Machine.Stepping (k : ℕ) (m : Machine) : Prop :=
  m.world.proc.mSingleStep = true ∧ k ≤ m.ended ∨ k + 1 ≤ m.ended

theorem Machine.Stepping.steadfast (k : ℕ) : Steadfast (Machine.Stepping k) := by
  rintro m m' h (⟨hs, hk⟩ | hk)
  · rcases h.singleStep hs with hs' | hlt
    · exact .inl ⟨hs', hk.trans h.ended⟩
    · exact .inr (lt_of_le_of_lt hk hlt)
  · exact .inr (hk.trans h.ended)

/-- Calls outside the single-step flag. -/
theorem Ends.stepping {A : Machine → Prop} {Q : Unit → Machine → Prop} {p : Code Unit}
    {S : List Part} (hp : Ends A (debugger p) Q) (hw : Within S p) (hS : .singleStep ∉ S) (k : ℕ) :
    Ends (fun m => A m ∧ m.Stepping k) (debugger p) fun a m => Q a m ∧ m.Stepping k := by
  refine hp.frame (hw.outside (T := [.singleStep]) fun x hx h => ?_) (Machine.Stepping.steadfast k)
    fun o ho m b m' hm he => ?_
  · rw [List.mem_singleton] at h
    exact hS (h ▸ hx)
  · cases o with
    | own o => exact ho.elim
    | debugger o =>
      obtain ⟨hw, -, hended⟩ := machine_exec_debugger he
      have hflag : m'.world.proc.mSingleStep = m.world.proc.mSingleStep :=
        exec_same o hw (x := .singleStep) fun hpart => ho _ hpart (List.mem_singleton_self _)
      unfold Machine.Stepping
      rwa [hflag, hended]

/-- The calls of the program end no single step. -/
theorem Ends.stepped {α : Type} {A : Machine → Prop} {Q : α → Machine → Prop} {p : Main α}
    (hp : Ends A p Q) (k : ℕ) :
    Ends (fun m => A m ∧ m.Stepped k) p fun a m => Q a m ∧ m.Stepped k := by
  refine hp.frame (Prog.uses_true p) (Machine.Stepped.steadfast k) fun o _ m b m' hm he => ?_
  unfold Machine.Stepped
  rwa [machine_exec_ended he]

/-- `MachProcess::SingleStep`: the process is running during the busy wait, which is left only when
the exception thread has ended the step. -/
theorem singleStep_ends (k : ℕ) : Ends (fun m => m.At .stop joined ∧ m.Stepped k)
    (debugger MachProcess.singleStep) fun _ m => m.At .stop joined ∧ m.Stepped (k + 1) := by
  have hA := (Machine.At.steadfast .stop joined).and (Machine.Stepped.steadfast k)
  refine .seq (B := fun _ m => m.At .running joined ∧ m.Stepping k) ?_ fun _ => ?_
  · refine .assertStatus (c := fun s => s = .stop) hA (fun _ hm => hm.1.status) rfl ?_
    refine .seq (.write hA ((Machine.At.steadfast .stop joined).and (Machine.Stepping.steadfast k))
      fun m m' hm hk hp _ hended => ?_) fun _ => ?_
    · refine ⟨⟨?_, ?_, ?_, ?_⟩, .inl ⟨?_, ?_⟩⟩
      · rw [hp]
        exact hm.1.status
      · rw [hp]
        exact hm.1.pid
      · rw [hp]
        exact hm.1.task
      · rw [hk]
        exact hm.1.thread
      · rw [hp]
        rfl
      · rw [hended]
        exact hm.2
    · refine .seq ((updateSingleStep_ends _).stepping (updateSingleStep_within _) (by decide) k)
        fun _ => ?_
      exact resume_ends.stepping resume_within (by decide) k
  · refine .spin (part_all rfl)
      ((Machine.At.steadfast .running joined).and (Machine.Stepping.steadfast k))
      ((Machine.At.steadfast .running joined).and (Machine.Stepped.steadfast (k + 1)))
      (fun m hm hflag => ⟨hm.1, hm.2.resolve_left fun h => ?_⟩) ((setStatus_ends _).stepped (k + 1))
    exact Bool.false_ne_true (hflag.symm.trans h.1)

end Process

end MachDebug
