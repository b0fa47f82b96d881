import MachDebug.Main.Steps

/-!
# The exception thread after its shutdown

`ShutDownExcecptionThread` nulls `m_exception_port` and waits for the exception thread to end. The
thread reads the member at the head of its loop, and once more for the receive. So one receive may
still be under way, and none follows: a message that is sent later stays on the port.

## Main definitions

* `Op.Receives`: the operation takes a message off the port
* `Exception.Due`: one receive at most is left in the iteration
* `Exception.Drained`: no receive is left while the port is null

## Main results

* `Exception.Due.steps`, `Exception.Drained.steps`: a step of the exception thread
* `shutdown_drains`: the exception thread takes one message at most while the port is null
-/

namespace MachDebug

open Program

/-- The operation takes a message off the port. -/
def Op.Receives {β : Type} (o : Op β) : Prop := o.part = some .queue

/-- An operation takes one message at most, and none unless it receives. -/
theorem takes_of_exec {β : Type} {o : Op β} {m m' : Machine} {b : β}
    (h : exceptionMachine.exec o m = some (b, m')) :
    m.Takes 0 m' ∨ (o.Receives ∧ m.Takes 1 m') := by
  obtain ⟨hw, -, -⟩ := exceptionMachine_exec h
  have hnext := (exec_follows o hw).nextSerial
  by_cases ho : o.Receives
  · cases o with
    | member o => cases o <;> cases ho
    | sys o =>
      cases o
      case machMsgReceive port timeout =>
        have hqueue := receive_queue (world_sys_proc hw).2
        unfold Machine.Takes
        rw [hnext]
        cases b with
        | ok msg =>
          refine .inr ⟨rfl, ?_⟩
          rw [hqueue, List.length_cons, Nat.add_assoc]
        | error kr =>
          refine .inl ?_
          rw [hqueue, Nat.add_zero]
      all_goals cases ho
  · refine .inl ?_
    unfold Machine.Takes
    rw [hnext, show m'.world.kern.queue = m.world.kern.queue from exec_same o hw (x := .queue) ho,
      Nat.add_zero]

/-- A program without receives takes no message. -/
theorem takes_of_step {α : Type} {p p' : Code α} {m m' : Machine}
    (hp : p.Uses fun o => ¬ o.Receives) (h : p.Step exceptionMachine m p' m') :
    m.Takes 0 m' ∧ p'.Uses fun o => ¬ o.Receives := by
  refine hp.step_inv (I := fun t => m.Takes 0 t) (fun o ho t b t' he ht => ?_) h (.refl m)
  exact ht.trans ((takes_of_exec he).resolve_right fun hr => ho hr.1)

theorem Within.receives {α : Type} {S : List Part} {p : Code α} (hp : Within S p)
    (hS : .queue ∉ S) : p.Uses fun o => ¬ o.Receives :=
  hp.uses.mono fun _ ho hpart => hS (ho _ hpart)

/-! ## The iterations -/

/-- **An iteration** receives once at most. -/
theorem fetch_once (sdk : Sdk) (l : ExceptionThread.Locals) :
    (ExceptionThread.fetch sdk l).Once Op.Receives := by
  have hport : (member .exceptionPort).Uses fun o => ¬ o.Receives :=
    (Within.member (S := []) rfl).receives (by simp)
  unfold ExceptionThread.fetch
  refine hport.bind_once fun port => ?_
  split
  · trivial
  refine ((Within.sys (S := []) rfl).receives (by simp)).bind_once fun cancelled => ?_
  split
  · trivial
  refine hport.bind_once fun port => .inl fun r => ?_
  cases r with
  | ok msg => exact (fetchReceived_within sdk l msg).receives (by decide)
  | error kr => exact ((notReceived_within l kr).receives (by simp)).bind fun _ => trivial

theorem exceptionMessageReceived_receives (x : Message) :
    (MachProcess.exceptionMessageReceived x).Uses fun o => ¬ o.Receives :=
  (exceptionMessageReceived_within x).receives (by decide)

/-- One receive at most is left in the iteration. -/
def Exception.Due : Exception → Prop
  | .absent => True
  | .fetching p => p.Once Op.Receives
  | .delivering p _ => p.Uses fun o => ¬ o.Receives
  | .ended => True

/-- No receive is left while the port is null: the loop is at its head, or past the receive. -/
def Exception.Drained (sdk : Sdk) : Exception → Prop
  | .absent => True
  | .fetching p => (p.Uses fun o => ¬ o.Receives) ∨ p = ExceptionThread.start sdk ∨
      ∃ l, p = ExceptionThread.fetch sdk l
  | .delivering p _ => p.Uses fun o => ¬ o.Receives
  | .ended => True

theorem Exception.due_next (sdk : Sdk) (t : ExceptionThread.Turn) : (Exception.next sdk t).Due := by
  cases t with
  | again l => exact fetch_once sdk l
  | exit => trivial

theorem Exception.drained_next (sdk : Sdk) (t : ExceptionThread.Turn) :
    (Exception.next sdk t).Drained sdk := by
  cases t with
  | again l => exact .inr (.inr ⟨l, rfl⟩)
  | exit => trivial

/-- **A step of the exception thread** takes no message, or the last one of its iteration. -/
theorem Exception.Due.steps {sdk : Sdk} {e e' : Exception} {m m' : Machine} (he : e.Due)
    (h : e.Steps sdk m e' m') : e'.Due ∧ (m.Takes 0 m' ∨ (m.Takes 1 m' ∧ e'.Drained sdk)) := by
  cases h with
  | start =>
    refine ⟨?_, .inl (.refl m)⟩
    exact ((Within.member (S := []) rfl).receives (by simp)).bind_once fun t => fetch_once sdk _
  | fetch hp =>
    obtain ⟨β, o, b, hexec, huses | ⟨hno, honce⟩⟩ := Prog.Once.step he hp
    · exact ⟨huses.once, (takes_of_exec hexec).imp_right fun ht => ⟨ht.2, .inl huses⟩⟩
    · exact ⟨honce, .inl ((takes_of_exec hexec).resolve_right fun hr => hno hr.1)⟩
  | hand => exact ⟨exceptionMessageReceived_receives _, .inl (.refl m)⟩
  | skip => exact ⟨Exception.due_next sdk _, .inl (.refl m)⟩
  | deliver hp =>
    obtain ⟨htakes, huses⟩ := takes_of_step he hp
    exact ⟨huses, .inl htakes⟩
  | delivered => exact ⟨Exception.due_next sdk _, .inl (.refl m)⟩

/-- **A step while the port is null** takes no message. -/
theorem Exception.Drained.steps {sdk : Sdk} {e e' : Exception} {m m' : Machine}
    (he : e.Drained sdk) (hport : m.world.proc.mTask.mExceptionPort = 0)
    (h : e.Steps sdk m e' m') : e'.Drained sdk ∧ m.Takes 0 m' := by
  cases h with
  | start => exact ⟨.inr (.inl rfl), .refl m⟩
  | fetch hp =>
    rcases he with huses | rfl | ⟨l, rfl⟩
    · obtain ⟨htakes, huses'⟩ := takes_of_step huses hp
      exact ⟨.inl huses', htakes⟩
    · unfold ExceptionThread.start at hp
      rw [Prog.bind_eq, member_bind] at hp
      cases hp with
      | op hexec =>
        exact ⟨.inr (.inr ⟨_, rfl⟩), (takes_of_exec hexec).resolve_right fun hr => by cases hr.1⟩
    · unfold ExceptionThread.fetch at hp
      rw [Prog.bind_eq, member_bind] at hp
      cases hp with
      | op hexec =>
        obtain ⟨hw, -, -⟩ := exceptionMachine_exec hexec
        obtain ⟨-, -, hb⟩ := world_member_kern hw
        rw [show _ = (0 : Port) from hb.trans hport]
        exact ⟨.inl trivial, (takes_of_exec hexec).resolve_right fun hr => by cases hr.1⟩
  | hand => exact ⟨exceptionMessageReceived_receives _, .refl m⟩
  | skip => exact ⟨Exception.drained_next sdk _, .refl m⟩
  | deliver hp =>
    obtain ⟨htakes, huses⟩ := takes_of_step he hp
    exact ⟨huses, htakes⟩
  | delivered => exact ⟨Exception.drained_next sdk _, .refl m⟩

/-! ## Runs -/

namespace MainSystem

/-- The exception port is null in every state of the run. -/
def Nulled (sdk : Sdk) (s : MainSystem) (xs : List MainMove) : Prop :=
  ∀ ys t, ys <+: xs → s.replay sdk ys = some t → t.machine.world.proc.mTask.mExceptionPort = 0

theorem Nulled.head {sdk : Sdk} {s : MainSystem} {xs : List MainMove} (h : s.Nulled sdk xs) :
    s.machine.world.proc.mTask.mExceptionPort = 0 := h [] s List.nil_prefix rfl

theorem Nulled.tail {sdk : Sdk} {s t : MainSystem} {x : MainMove} {xs : List MainMove}
    (h : s.Nulled sdk (x :: xs)) (hs : s.move sdk x = some t) : t.Nulled sdk xs := by
  intro ys u hys hu
  refine h (x :: ys) u (List.cons_prefix_cons.mpr ⟨rfl, hys⟩) ?_
  exact Option.bind_eq_some_iff.mpr ⟨t, hs, hu⟩

variable {sdk : Sdk} {s s' : MainSystem} {xs : List MainMove}

/-- **A run while the port is null**, with the loop at its head or past the receive. -/
theorem replay_drained (hctl : s.ctl.Uses CtlOp.NoReceive) (he : s.exc.Drained sdk)
    (hnull : s.Nulled sdk xs) (hs : s.replay sdk xs = some s') : s.machine.Takes 0 s'.machine := by
  induction xs generalizing s with
  | nil =>
    cases hs
    exact .refl _
  | cons x xs ih =>
    obtain ⟨t, ht, hrest⟩ := Option.bind_eq_some_iff.mp hs
    obtain ⟨huses, ⟨hexc, hidle⟩ | hsteps⟩ := (move_steps ht).idle hctl
    · exact hidle.takes.trans (ih huses (hexc ▸ he) (hnull.tail ht) hrest)
    · obtain ⟨hdrained, htakes⟩ := he.steps hnull.head hsteps
      exact htakes.trans (ih huses hdrained (hnull.tail ht) hrest)

/-- **A run while the port is null**, from anywhere in the loop. -/
theorem replay_due (hctl : s.ctl.Uses CtlOp.NoReceive) (he : s.exc.Due) (hnull : s.Nulled sdk xs)
    (hs : s.replay sdk xs = some s') :
    s.machine.Takes 0 s'.machine ∨ s.machine.Takes 1 s'.machine := by
  induction xs generalizing s with
  | nil =>
    cases hs
    exact .inl (.refl _)
  | cons x xs ih =>
    obtain ⟨t, ht, hrest⟩ := Option.bind_eq_some_iff.mp hs
    obtain ⟨huses, ⟨hexc, hidle⟩ | hsteps⟩ := (move_steps ht).idle hctl
    · exact (ih huses (hexc ▸ he) (hnull.tail ht) hrest).imp hidle.takes.trans hidle.takes.trans
    · obtain ⟨hdue, htakes | ⟨htakes, hdrained⟩⟩ := he.steps hsteps
      · exact (ih huses hdue (hnull.tail ht) hrest).imp htakes.trans htakes.trans
      · exact .inr (htakes.trans (replay_drained huses hdrained (hnull.tail ht) hrest))

end MainSystem

/-- **The exception thread takes one message at most** while `m_exception_port` is null, from any
state that a program can reach that receives no message itself, and in every interleaving: all other
messages stay on the port. -/
theorem shutdown_drains (sdk : Sdk) (p : Main Unit) (m : Machine) (hp : p.Uses CtlOp.NoReceive)
    (xs ys : List MainMove) (s s' : MainSystem)
    (hrun : MainSystem.replay sdk ⟨p, .absent, m⟩ xs = some s) (hnull : s.Nulled sdk ys)
    (hrest : s.replay sdk ys = some s') :
    s'.machine.world.kern.nextSerial + s.machine.world.kern.queue.length ≤
      s.machine.world.kern.nextSerial + s'.machine.world.kern.queue.length + 1 := by
  have hstart : Exception.Due .absent := trivial
  have hmid := MainSystem.replay_inv (I := fun t => t.ctl.Uses CtlOp.NoReceive ∧ t.exc.Due) ?_
    ⟨hp, hstart⟩ hrun
  · have htakes := MainSystem.replay_due hmid.1 hmid.2 hnull hrest
    unfold Machine.Takes at htakes
    omega
  · rintro t x t' ⟨huses, hdue⟩ hstep
    obtain ⟨huses', ⟨hexc, -⟩ | hsteps⟩ := hstep.idle huses
    · exact ⟨huses', hexc ▸ hdue⟩
    · exact ⟨huses', (hdue.steps hsteps).1⟩

/-- Attach to the process `7`, and detach. -/
def attachDetach : Main Unit := do
  DebuggerController.attach .macos 7
  DebuggerController.detach

/-- A schedule in which two messages wait, and the exception thread is about to receive when its
port is nulled. -/
def lateShutdown : List MainMove :=
  List.replicate 26 .ctl ++ [.event (.send .breakpoint), .event (.send .breakpoint)] ++
    List.replicate 5 .exc ++ List.replicate 15 .ctl

/-- The exception thread goes on, with its port null, and leaves a message on the port. -/
def MainSystem.leavesOne (s : MainSystem) : Bool :=
  (List.replicate 10 MainMove.exc).inits.all (fun ys => (s.replay .macos ys).all fun t =>
    t.machine.world.proc.mTask.mExceptionPort = 0) &&
  (s.replay .macos (List.replicate 10 .exc)).any fun t => t.machine.world.kern.queue.length = 1

/-- The first of the two messages is taken, and the second stays on the port. -/
theorem shutdown_drains_late : ∃ s s', MainSystem.replay .macos ⟨attachDetach, .absent, .willing⟩
    lateShutdown = some s ∧ s.replay .macos (List.replicate 10 .exc) = some s' ∧
      s'.machine.world.kern.queue.length = 1 ∧
      s'.machine.world.kern.nextSerial + s.machine.world.kern.queue.length ≤
        s.machine.world.kern.nextSerial + s'.machine.world.kern.queue.length + 1 := by
  obtain ⟨s, hrun, hs⟩ := Option.map_eq_some_iff.mp
    (show (MainSystem.replay .macos ⟨attachDetach, .absent, .willing⟩ lateShutdown).map
      MainSystem.leavesOne = some true by decide +kernel)
  obtain ⟨hall, hleft⟩ := (Bool.and_eq_true _ _).mp hs
  obtain ⟨s', hrest, hone⟩ := (Option.any_eq_true _ _).mp hleft
  have hnull : s.Nulled .macos (List.replicate 10 .exc) := by
    intro ys t hys ht
    have hport := List.all_eq_true.mp hall ys ((List.mem_inits ys _).mpr hys)
    rw [ht] at hport
    exact of_decide_eq_true hport
  have huses : attachDetach.Uses CtlOp.NoReceive := by
    refine Prog.Uses.bind ?_ fun _ => detach_within.noReceive (by decide)
    exact Prog.Uses.bind ⟨trivial, fun _ => trivial⟩ fun _ =>
      (attach_within .macos 7 _).noReceive (by decide)
  exact ⟨s, s', hrun, hrest, of_decide_eq_true hone,
    shutdown_drains .macos attachDetach .willing huses _ _ s s' hrun hnull hrest⟩

end MachDebug
