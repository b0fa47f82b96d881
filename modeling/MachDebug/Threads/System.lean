import MachDebug.Debugger.Footprint
import MachDebug.Program.Interference
import MachDebug.Session.Serial

/-!
# The two threads, one operation at a time

The controller and the exception thread take turns at every atomic operation: every access to a
member and every kernel call of either thread is a step of its own, and the target side acts in
between. A trace records what the two threads have done, as far as the properties of interleavings
speak about it.

## Main definitions

* `ExceptionThread.fetch`: an iteration of the exception thread up to the hand-over of its message
* `Trace`, `Traced`, `traced`: the record of the threads' operations
* `System`, `System.Step`, `System.Runs`: the two threads and their interleavings
* `Move`, `System.replay`: schedules

## Main results

* `ExceptionThread.turn_eq`: an iteration is a fetch and a hand-over
* `System.replay_runs`: a schedule that can be followed is a run
-/

namespace MachDebug

open Program

/-! ## Fetching and handing over -/

namespace ExceptionThread

/-- The part of `received` before the message is handed to the process. -/
def fetchReceived (sdk : Sdk) (l : Locals) (msg : ExcMsg) : Code (Option Message × Turn) := do
  let (success, m) ← Message.catchExceptionRaise sdk msg l.task
  if success then
    if m.state.taskPort ≠ l.task ∧ m.state.isValid then
      member (.setTaskPort m.state.taskPort)
      return (some m, .again ⟨m.state.taskPort, l.numExceptionsReceived + 1⟩)
    else
      return (some m, .again { l with numExceptionsReceived := l.numExceptionsReceived + 1 })
  else
    return (none, .again l)

/-- An iteration of the loop up to the hand-over: the message, and how the loop goes on. -/
def fetch (sdk : Sdk) (l : Locals) : Code (Option Message × Turn) := do
  if !machPortValid (← member .exceptionPort) then return (none, .exit)
  else if ← sys .pthreadTestcancel then return (none, .exit)
  else
    let timeout := if l.numExceptionsReceived > 0 then some 1
      else if periodicTimeout > 0 then some periodicTimeout else none
    match ← sys (.machMsgReceive (← member .exceptionPort) timeout) with
    | .ok msg => fetchReceived sdk l msg
    | .error kr => return (none, ← notReceived l kr)

/-- Hand a message to the process, if there is one. -/
def handOver : Option Message → Code Unit
  | none => return ()
  | some m => MachProcess.exceptionMessageReceived m

theorem received_eq (sdk : Sdk) (l : Locals) (msg : ExcMsg) :
    (received sdk l msg >>= fun l => return .again l) =
      fetchReceived sdk l msg >>= fun r => handOver r.1 >>= fun _ => return r.2 := by
  simp only [received, fetchReceived, Prog.bind_eq, Prog.bind_assoc, Prog.pure_eq]
  congr 1
  funext r
  split
  · split <;> simp only [member_bind, Prog.bind_op, Prog.bind_ret, Prog.bind_assoc] <;> rfl
  · rfl

/-- **An iteration** of the loop fetches a message and hands it over. -/
theorem turn_eq (sdk : Sdk) (l : Locals) :
    turn sdk l = fetch sdk l >>= fun r => handOver r.1 >>= fun _ => return r.2 := by
  unfold turn fetch
  simp only [Prog.bind_eq, member_bind, sys_bind, Prog.bind_op, Prog.bind_ite, Prog.pure_eq,
    Prog.bind_ret]
  congr 1
  funext port
  split
  · rfl
  · congr 1
    funext cancelled
    split
    · rfl
    · congr 1
      funext port
      congr 1
      funext r
      cases r with
      | ok msg => exact received_eq sdk l msg
      | error kr =>
        simp only [Prog.bind_assoc, Prog.bind_ret]
        exact (Prog.bind_ret_right _).symm

end ExceptionThread

/-! ## The record of the threads -/

/-- The threads of the debugger. -/
inductive Thread
  | controller
  | exception
  deriving DecidableEq

/-- What the two threads have done so far. -/
structure Trace where
  /-- The serial of the message that was received last. -/
  fetched : Option ℕ := none
  /-- The serials of the messages handed to `ExceptionMessageReceived`. -/
  handed : List ℕ := []
  /-- The message that was handed over and is not queued yet. -/
  inFlight : Option Message := none
  /-- The exception thread is between its test for an empty list and the `push_back`. -/
  tested : Bool := false
  /-- The exception thread has suspended the task, and not yet queued its message. -/
  suspended : Bool := false
  /-- The message in whose hand-over the single-step flag was taken down last. -/
  ender : Option Message := none
  /-- The serials of the messages that were given a reply. -/
  replies : List ℕ := []
  /-- The controller is between the start of the reply loop and the `clear`. -/
  replying : Bool := false
  /-- The controller has cleared the list, and not yet resumed the task. -/
  resuming : Bool := false

/-- The record after one operation of the exception thread. -/
def Trace.byException (r : Trace) : {β : Type} → Op β → β → Trace
  | _, .sys (.machMsgReceive _ _), .ok m => { r with fetched := some m.serial }
  | _, .member .messagesEmpty, _ => { r with tested := true }
  | _, .sys (.taskSuspend _), _ => { r with suspended := true }
  | _, .member (.setSingleStep false), _ => { r with ender := r.inFlight }
  | _, .member (.pushMessage _), _ =>
    { r with inFlight := none, tested := false, suspended := false }
  | _, _, _ => r

/-- The record after one operation of the controller. -/
def Trace.byController (r : Trace) : {β : Type} → Op β → β → Trace
  | _, .member .messages, _ => { r with replying := true }
  | _, .sys (.machMsgSend n _), _ => { r with replies := r.replies ++ [n] }
  | _, .member .clearMessages, _ => { r with replying := false, resuming := true }
  | _, .sys (.taskResume _), _ => { r with resuming := false }
  | _, _, _ => r

/-- The record after one operation of a thread. -/
def Trace.observe {β : Type} (r : Trace) (who : Thread) (o : Op β) (b : β) : Trace :=
  match who with
  | .exception => r.byException o b
  | .controller => r.byController o b

/-- The world together with the record. -/
structure Traced where
  world : World
  trace : Trace

/-- The operations of a thread, recorded. -/
def traced (who : Thread) : Handler Op Traced where
  exec o t := (world.exec o t.world).map fun r => (r.1, ⟨r.2, t.trace.observe who o r.1⟩)

theorem traced_exec {who : Thread} {β : Type} {o : Op β} {t t' : Traced} {b : β}
    (h : (traced who).exec o t = some (b, t')) :
    world.exec o t.world = some (b, t'.world) ∧ t'.trace = t.trace.observe who o b := by
  obtain ⟨r, hr, he⟩ := Option.map_eq_some_iff.mp h
  cases he
  exact ⟨hr, rfl⟩

/-- A message is handed to `ExceptionMessageReceived`. -/
def Traced.hand (t : Traced) (m : Message) : Traced :=
  ⟨t.world, { t.trace with
    fetched := none
    handed := t.trace.handed ++ [m.excMsg.serial]
    inFlight := some m }⟩

/-- Something happens on the target side. -/
def Traced.event (t : Traced) (e : Kernel.Event) : Traced :=
  ⟨⟨t.world.proc, t.world.kern.event e⟩, t.trace⟩

/-! ## Interleavings -/

/-- The program of a call. -/
def Call.code (sdk : Sdk) : Call → Code Unit
  | .attach pid ignored => MachProcess.attach sdk pid ignored
  | .resume => MachProcess.resume
  | .stop => MachProcess.stop
  | .singleStep => MachProcess.singleStep
  | .detach => MachProcess.detach

/-- The controller is between two calls, or inside one with the rest of its program. -/
inductive Controller : Type 1
  | idle
  | inside (c : Call) (p : Code Unit)

/-- No call is in progress. -/
def Controller.isIdle : Controller → Bool
  | .idle => true
  | .inside _ _ => false

/-- The controller is at the end of a single step that returns. -/
def Controller.stepReturns : Controller → Bool
  | .inside .singleStep (.ret _) => true
  | _ => false

theorem Controller.eq_of_stepReturns {c : Controller} (h : c.stepReturns = true) :
    c = .inside .singleStep (.ret ()) := by
  unfold Controller.stepReturns at h
  split at h
  · rfl
  · cases h

/-- The exception thread has not started, is fetching a message, is handing one over, or has
ended. -/
inductive Exception : Type 1
  | absent
  | fetching (p : Code (Option Message × ExceptionThread.Turn))
  | delivering (p : Code Unit) (next : ExceptionThread.Turn)
  | ended

/-- The two threads and what they share. -/
structure System : Type 1 where
  ctl : Controller
  exc : Exception
  state : Traced

/-- A rule on the operations of both threads, by the state before and the answer. -/
abbrev Rule := Thread → {β : Type} → Op β → Traced → β → Prop

/-- The rule that permits every order and every answer. -/
def Rule.any : Rule := fun _ _ _ _ _ => True

instance (who : Thread) {β : Type} (o : Op β) (t : Traced) (b : β) :
    Decidable (Rule.any who o t b) :=
  isTrue trivial

/-- The threads of a suspended task do not change. -/
def Kernel.Event.Enabled (k : Kernel) : Kernel.Event → Prop
  | .threads t _ => (k.task t).suspendCount = 0
  | _ => True

instance (k : Kernel) (v : Kernel.Event) : Decidable (v.Enabled k) :=
  match v with
  | .threads t _ => inferInstanceAs (Decidable ((k.task t).suspendCount = 0))
  | .send _ => isTrue trivial
  | .exit _ => isTrue trivial

/-- The start of the exception thread. -/
def ExceptionThread.start (sdk : Sdk) : Code (Option Message × ExceptionThread.Turn) := do
  ExceptionThread.fetch sdk ⟨← member .taskPort, 0⟩

/-- Where the exception thread is after an iteration. -/
def Exception.next (sdk : Sdk) : ExceptionThread.Turn → Exception
  | .again l => .fetching (ExceptionThread.fetch sdk l)
  | .exit => .ended

/-- The choice of the next step. -/
inductive Move
  | call (c : Call)
  | ctl
  | exc
  | event (v : Kernel.Event)

/-- An attach to the process `7` during which the target sends the messages `ms` and the exception
thread takes `n` steps before the controller writes the status. -/
def attachMoves (ms : List ExcMsg) (n : ℕ) : List Move :=
  .call (.attach 7 []) :: (List.replicate 22 .ctl ++ ms.map (.event <| .send ·) ++
    (List.replicate n .exc ++ [.ctl, .ctl]))

namespace System

variable (sdk : Sdk) (rule : Rule)

/-- One step of either thread, within the rule, or of the target side. The controller does not
detach. -/
inductive Step : System → System → Prop
  | call {c : Call} {e : Exception} {t : Traced} : c ≠ .detach →
      Step ⟨.idle, e, t⟩ ⟨.inside c (c.code sdk), e, t⟩
  | ctl {c : Call} {p p' : Code Unit} {e : Exception} {t t' : Traced} :
      p.PermittedStep (traced .controller) (rule .controller) t p' t' →
      Step ⟨.inside c p, e, t⟩ ⟨.inside c p', e, t'⟩
  | ret {c : Call} {e : Exception} {t : Traced} : Step ⟨.inside c (.ret ()), e, t⟩ ⟨.idle, e, t⟩
  | throw {c : Call} {x : RuntimeError} {e : Exception} {t : Traced} :
      Step ⟨.inside c (.throw x), e, t⟩ ⟨.idle, e, t⟩
  | start {c : Controller} {t : Traced} : t.world.kern.excThread = true →
      Step ⟨c, .absent, t⟩ ⟨c, .fetching (ExceptionThread.start sdk), t⟩
  | fetch {c : Controller} {p p' : Code (Option Message × ExceptionThread.Turn)} {t t' : Traced} :
      p.PermittedStep (traced .exception) (rule .exception) t p' t' →
      Step ⟨c, .fetching p, t⟩ ⟨c, .fetching p', t'⟩
  | hand {c : Controller} {m : Message} {next : ExceptionThread.Turn} {t : Traced} :
      Step ⟨c, .fetching (.ret (some m, next)), t⟩
        ⟨c, .delivering (MachProcess.exceptionMessageReceived m) next, t.hand m⟩
  | skip {c : Controller} {next : ExceptionThread.Turn} {t : Traced} :
      Step ⟨c, .fetching (.ret (none, next)), t⟩ ⟨c, .next sdk next, t⟩
  | deliver {c : Controller} {p p' : Code Unit} {next : ExceptionThread.Turn} {t t' : Traced} :
      p.PermittedStep (traced .exception) (rule .exception) t p' t' →
      Step ⟨c, .delivering p next, t⟩ ⟨c, .delivering p' next, t'⟩
  | delivered {c : Controller} {next : ExceptionThread.Turn} {t : Traced} :
      Step ⟨c, .delivering (.ret ()) next, t⟩ ⟨c, .next sdk next, t⟩
  | event {c : Controller} {e : Exception} {t : Traced} {v : Kernel.Event} :
      v.Enabled t.world.kern → Step ⟨c, e, t⟩ ⟨c, e, t.event v⟩

/-- The runs within the rule. -/
def Runs : System → System → Prop := Relation.ReflTransGen (Step sdk rule)

section Replay

variable [∀ (who : Thread) {β : Type} (o : Op β) (t : Traced) (b : β), Decidable (rule who o t b)]

/-- The next step of the controller inside a call. -/
def moveCtl (c : Call) (p : Code Unit) (e : Exception) (t : Traced) : Option System :=
  match p with
  | .ret _ => some ⟨.idle, e, t⟩
  | .throw _ => some ⟨.idle, e, t⟩
  | p => (p.advance (traced .controller) (rule .controller) t).map fun r => ⟨.inside c r.1, e, r.2⟩

/-- The next step of the exception thread. -/
def moveExc (c : Controller) (t : Traced) : Exception → Option System
  | .absent =>
    if t.world.kern.excThread = true then some ⟨c, .fetching (ExceptionThread.start sdk), t⟩
    else none
  | .fetching (.ret (some m, next)) =>
    some ⟨c, .delivering (MachProcess.exceptionMessageReceived m) next, t.hand m⟩
  | .fetching (.ret (none, next)) => some ⟨c, .next sdk next, t⟩
  | .fetching p =>
    (p.advance (traced .exception) (rule .exception) t).map fun r => ⟨c, .fetching r.1, r.2⟩
  | .delivering (.ret _) next => some ⟨c, .next sdk next, t⟩
  | .delivering p next =>
    (p.advance (traced .exception) (rule .exception) t).map fun r => ⟨c, .delivering r.1 next, r.2⟩
  | .ended => none

/-- The step that a move stands for. -/
def move (s : System) : Move → Option System
  | .call c =>
    match s.ctl, c with
    | .idle, .detach => none
    | .idle, c => some ⟨.inside c (c.code sdk), s.exc, s.state⟩
    | .inside _ _, _ => none
  | .ctl =>
    match s.ctl with
    | .idle => none
    | .inside c p => moveCtl rule c p s.exc s.state
  | .exc => moveExc sdk rule s.ctl s.state s.exc
  | .event v =>
    if v.Enabled s.state.world.kern then some ⟨s.ctl, s.exc, s.state.event v⟩ else none

/-- Follow a schedule. -/
def replay (s : System) : List Move → Option System
  | [] => some s
  | m :: ms => (move sdk rule s m).bind fun s' => replay s' ms

end Replay

/-- A new object, in the kernel `k`. -/
def fresh (k : Kernel) : System := ⟨.idle, .absent, ⟨⟨{}, k⟩, {}⟩⟩

section Replay

variable {sdk rule}
variable [∀ (who : Thread) {β : Type} (o : Op β) (t : Traced) (b : β), Decidable (rule who o t b)]

theorem moveCtl_step {c : Call} {p : Code Unit} {e : Exception} {t : Traced} {s' : System}
    (h : moveCtl rule c p e t = some s') : Step sdk rule ⟨.inside c p, e, t⟩ s' := by
  unfold moveCtl at h
  split at h
  · cases h
    exact .ret
  · cases h
    exact .throw
  · obtain ⟨r, hr, rfl⟩ := Option.map_eq_some_iff.mp h
    exact .ctl (Prog.advance_permitted hr)

theorem moveExc_step {c : Controller} {e : Exception} {t : Traced} {s' : System}
    (h : moveExc sdk rule c t e = some s') : Step sdk rule ⟨c, e, t⟩ s' := by
  unfold moveExc at h
  split at h
  · split at h
    · cases h
      exact .start ‹_›
    · cases h
  · cases h
    exact .hand
  · cases h
    exact .skip
  · obtain ⟨r, hr, rfl⟩ := Option.map_eq_some_iff.mp h
    exact .fetch (Prog.advance_permitted hr)
  · cases h
    exact .delivered
  · obtain ⟨r, hr, rfl⟩ := Option.map_eq_some_iff.mp h
    exact .deliver (Prog.advance_permitted hr)
  · cases h

theorem move_step {s s' : System} {m : Move} (h : move sdk rule s m = some s') :
    Step sdk rule s s' := by
  obtain ⟨ctl, exc, t⟩ := s
  cases m with
  | call c =>
    simp only [move] at h
    split at h
    · cases h
    · cases h
      exact .call (by rintro rfl; contradiction)
    · cases h
  | ctl =>
    cases ctl with
    | idle => cases h
    | inside c p => exact moveCtl_step h
  | exc => exact moveExc_step h
  | event v =>
    simp only [move] at h
    split at h
    · cases h
      exact .event ‹_›
    · cases h

/-- **A schedule that can be followed** is a run. -/
theorem replay_runs {s s' : System} {ms : List Move} (h : replay sdk rule s ms = some s') :
    Runs sdk rule s s' := by
  induction ms generalizing s with
  | nil =>
    cases h
    exact .refl
  | cons m ms ih =>
    obtain ⟨u, hu, hrest⟩ := Option.bind_eq_some_iff.mp h
    exact .head (move_step hu) (ih hrest)

end Replay

/-- A state reached by a schedule, with what a test says about it. -/
theorem exists_runs (sdk : Sdk) (rule : Rule)
    [∀ (who : Thread) {β : Type} (o : Op β) (t : Traced) (b : β), Decidable (rule who o t b)]
    (s : System) (ms : List Move) (f : System → Bool)
    (h : (replay sdk rule s ms).any f = true) : ∃ s', Runs sdk rule s s' ∧ f s' = true := by
  cases hr : replay sdk rule s ms with
  | none => simp [hr] at h
  | some s' => exact ⟨s', replay_runs hr, by simpa [hr] using h⟩

end System

end MachDebug
