import MachDebug.Threads.System

/-!
# The exception thread against any environment

The exception thread runs alone here, and what is around it answers as it likes: the kernel, the
target and the controller choose the answer to every operation of the thread, at every time. Only
`m_task` is the thread's own, as no other thread writes it while the thread runs. The operations
that the loop's protocol speaks about are written to a log.

## Main definitions

* `Answers`: the answers of the environment
* `Event`, `Tape`, `tape`: the log, the state, and the handler that writes it
* `ExceptionThread.Fetched`: the ways an iteration can go, up to the hand-over
* `ExceptionThread.exceptionThread`: the thread, for a number of iterations

## Main results

* `ExceptionThread.run_fetch`: an iteration goes one of these ways
* `exceptionMessageReceived_logs`: the hand-over queues the message or throws
* `ExceptionThread.run_turn`: the two together
-/

namespace MachDebug

open Program

/-- The answers of the environment, at every time and to every operation. -/
structure Answers where
  answer : ℕ → {β : Type} → Op β → β

/-- An operation of the exception thread and its answer, as far as the protocol speaks about it. -/
inductive Event
  | port (port : Port)
  | testcancel (pending : Bool)
  | receive (timeout : Option ℕ) (answer : Except KernReturn ExcMsg)
  | taskInfo (task : Port) (kr : KernReturn)
  | queued (m : Message)

/-- What an operation adds to the log. -/
def Event.of : {β : Type} → Op β → β → List Event
  | _, .member .exceptionPort, p => [.port p]
  | _, .sys .pthreadTestcancel, b => [.testcancel b]
  | _, .sys (.machMsgReceive _ timeout), r => [.receive timeout r]
  | _, .sys (.taskInfo task), r => [.taskInfo task r.1]
  | _, .member (.pushMessage m), _ => [.queued m]
  | _, _, _ => []

/-- The state of the thread's run: the time, `m_task`, and the log, oldest first. -/
structure Tape where
  clock : ℕ := 0
  mTask : Port
  log : List Event := []

namespace Tape

/-- The answer to an operation. -/
def answer (e : Answers) (s : Tape) : {β : Type} → Op β → β
  | _, .member .taskPort => s.mTask
  | _, o => e.answer s.clock o

/-- `m_task` after an operation. -/
def taskAfter (s : Tape) : {β : Type} → Op β → Port
  | _, .member (.setTaskPort v) => v
  | _, _ => s.mTask

/-- The state after an operation. -/
def next (e : Answers) (s : Tape) {β : Type} (o : Op β) : Tape where
  clock := s.clock + 1
  mTask := s.taskAfter o
  log := s.log ++ Event.of o (s.answer e o)

/-- The log has grown by some events, and `m_task` is as before. -/
structure Extends (s : Tape) (es : List Event) (s' : Tape) : Prop where
  log : s'.log = s.log ++ es
  mTask : s'.mTask = s.mTask

theorem Extends.refl (s : Tape) : s.Extends [] s := ⟨(List.append_nil _).symm, rfl⟩

theorem Extends.trans {s s' s'' : Tape} {es es' : List Event} (h : s.Extends es s')
    (h' : s'.Extends es' s'') : s.Extends (es ++ es') s'' :=
  ⟨by rw [h'.log, h.log, List.append_assoc], h'.mTask.trans h.mTask⟩

end Tape

/-- The handler of the thread's operations; nothing blocks. -/
def tape (e : Answers) : Handler Op Tape := ⟨fun o s => some (s.answer e o, s.next e o)⟩

theorem run_tape {α β : Type} (e : Answers) (o : Op β) (k : β → Code α) (s : Tape) :
    (Prog.op o k).run (tape e) s = (k (s.answer e o)).run (tape e) (s.next e o) := rfl

/-! ## Handing a message over -/

/-- The program logs these events and returns, or logs nothing and throws; `m_task` is as before. -/
def Logs (es : List Event) {α : Type} (p : Code α) : Prop :=
  ∀ e s, ∃ s' : Tape, (s.Extends es s' ∧ ∃ a, p.run (tape e) s = (.done a, s')) ∨
    (s.Extends [] s' ∧ ∃ x, p.run (tape e) s = (.threw x, s'))

namespace Logs

variable {α γ : Type} {es : List Event}

theorem ret (a : α) : Logs [] (Prog.ret a : Code α) :=
  fun _ s => ⟨s, .inl ⟨.refl s, a, rfl⟩⟩

theorem throw (x : RuntimeError) : Logs es (Prog.throw x : Code α) :=
  fun _ s => ⟨s, .inr ⟨.refl s, x, rfl⟩⟩

/-- Nothing is logged before the part that logs. -/
theorem bind {p : Code α} {f : α → Code γ} (hp : Logs [] p) (hf : ∀ a, Logs es (f a)) :
    Logs es (p.bind f) := by
  intro e s
  obtain ⟨t, ⟨ht, a, hrun⟩ | ⟨ht, x, hrun⟩⟩ := hp e s
  · rw [Prog.run_bind_done _ hrun]
    obtain ⟨s', ⟨hs', hout⟩ | ⟨hs', hout⟩⟩ := hf a e t
    · exact ⟨s', .inl ⟨ht.trans hs', hout⟩⟩
    · exact ⟨s', .inr ⟨ht.trans hs', hout⟩⟩
  · refine ⟨t, .inr ⟨ht, x, ?_⟩⟩
    rw [Prog.run_bind, hrun]
    rfl

theorem ite {c : Prop} [Decidable c] {p q : Code α} (hp : Logs es p) (hq : Logs es q) :
    Logs es (if c then p else q) := by
  split
  · exact hp
  · exact hq

/-- An operation that is not logged. -/
theorem op {β : Type} {o : Op β} {k : β → Code α} (hk : ∀ b, Logs es (k b))
    (ho : ∀ b, Event.of o b = []) (ht : ∀ s : Tape, s.taskAfter o = s.mTask) :
    Logs es (Prog.op o k) := by
  refine bind (p := Prog.call o) (fun e s => ⟨s.next e o, .inl ⟨⟨?_, ht s⟩, _, rfl⟩⟩) hk
  show s.log ++ Event.of o _ = _
  rw [ho]

end Logs

theorem updateThreads_logs (f : BitVec 64 → BitVec 64) (threads : List Port) :
    Logs [] (MachTask.updateThreads f threads) := by
  induction threads with
  | nil => exact .ret ()
  | cons thread threads ih =>
    refine .op (fun r => ?_) (fun _ => rfl) fun _ => rfl
    refine .ite (.throw _) (.op (fun kr => ?_) (fun _ => rfl) fun _ => rfl)
    exact .ite (.throw _) ih

theorem updateSingleStep_logs (f : BitVec 64 → BitVec 64) :
    Logs [] (MachTask.updateSingleStep f) := by
  refine .op (fun task => .op (fun r => ?_) (fun _ => rfl) fun _ => rfl) (fun _ => rfl) fun _ => rfl
  exact .ite (.throw _) (updateThreads_logs f r.2)

theorem suspend_logs : Logs [] MachTask.suspend :=
  .op (fun _ => .op (fun _ => .ret _) (fun _ => rfl) fun _ => rfl) (fun _ => rfl) fun _ => rfl

theorem disarmAndQueue_logs (m : Message) : Logs [.queued m] (MachProcess.disarmAndQueue m) := by
  have hpush : Logs [.queued m] (member (.pushMessage m)) :=
    fun e s => ⟨s.next e (.member (.pushMessage m)), .inl ⟨⟨rfl, rfl⟩, _, rfl⟩⟩
  refine .op (fun armed => ?_) (fun _ => rfl) fun _ => rfl
  refine .ite (.bind (updateSingleStep_logs _) fun _ => ?_) hpush
  exact .op (fun _ => hpush) (fun _ => rfl) fun _ => rfl

/-- **`ExceptionMessageReceived`** queues the message, unless it throws. -/
theorem exceptionMessageReceived_logs (m : Message) :
    Logs [.queued m] (MachProcess.exceptionMessageReceived m) := by
  refine .op (fun isEmpty => ?_) (fun _ => rfl) fun _ => rfl
  exact .ite (.bind suspend_logs fun _ => disarmAndQueue_logs m) (disarmAndQueue_logs m)

/-! ## The validity of a task -/

/-- `IsValid` has answered `v` for the task, and has logged these events for it. -/
inductive Probed : Port → List Event → Bool → Prop
  | null : Probed 0 [] false
  | asked {task : Port} (kr : KernReturn) : task ≠ 0 → Probed task [.taskInfo task kr] (kr = 0)

/-- The events tell the answer. -/
theorem Probed.unique {task : Port} {es : List Event} {v v' : Bool} (h : Probed task es v)
    (h' : Probed task es v') : v = v' := by
  cases h with
  | null =>
    cases h' with
    | null => rfl
  | asked kr _ =>
    cases h' with
    | asked kr _ => rfl

/-- Without events, there was no task to ask for. -/
theorem Probed.eq_zero {task : Port} {v : Bool} (h : Probed task [] v) : task = 0 := by
  generalize hes : ([] : List Event) = es at h
  cases h with
  | null => rfl
  | asked kr _ => cases hes

theorem run_isValid_tape (e : Answers) (task : Port) (s : Tape) : ∃ v es s', s.Extends es s' ∧
    Probed task es v ∧ (MachTask.isValid task).run (tape e) s = (.done v, s') := by
  by_cases ht : task = 0
  · subst ht
    exact ⟨false, [], s, .refl s, .null, rfl⟩
  · refine ⟨_, _, s.next e (.sys (.taskInfo task)), ⟨rfl, rfl⟩, .asked _ ht, ?_⟩
    unfold MachTask.isValid
    rw [if_pos ht]
    rfl

namespace ExceptionThread

/-! ## Fetching a message -/

/-- The timeout of the next receive. -/
def timeout (l : Locals) : Option ℕ := if l.numExceptionsReceived > 0 then some 1 else none

/-- The events of an iteration up to its receive, which is answered. -/
def attempt (l : Locals) (p q : Port) (answer : Except KernReturn ExcMsg) : List Event :=
  [.port p, .testcancel false, .port q, .receive (timeout l) answer]

/-- A message of an exec: the first one of a new task, which has all ports. -/
structure OfExec (sdk : Sdk) (msg : ExcMsg) : Prop where
  routine : sdk.routine msg.msghId = some .raise
  excType : msg.excType = excSoftware
  codes : msg.codes = [excSoftSignal, sigtrap]
  task : msg.task ≠ 0
  thread : msg.thread ≠ 0

/-- **The ways an iteration can go**, up to the hand-over, from `m_task` with the locals `l`: the
events it logs, the message to hand over, how the loop goes on, and `m_task` after it. -/
inductive Fetched (sdk : Sdk) (l : Locals) (mTask : Port) :
    List Event → Option Message → Turn → Port → Prop
  | portInvalid {p : Port} : machPortValid p = false →
      Fetched sdk l mTask [.port p] none .exit mTask
  | cancelled {p : Port} : machPortValid p = true →
      Fetched sdk l mTask [.port p, .testcancel true] none .exit mTask
  | interruptedPort {p q q' : Port} : machPortValid p = true → machPortValid q' = false →
      Fetched sdk l mTask (attempt l p q (.error machRcvInterrupted) ++ [.port q']) none .exit mTask
  | interrupted {p q q' : Port} {es : List Event} {v : Bool} : machPortValid p = true →
      machPortValid q' = true → Probed l.task es v →
      Fetched sdk l mTask (attempt l p q (.error machRcvInterrupted) ++ .port q' :: es) none
        (if v then .again l else .exit) mTask
  | timedOut {p q : Port} {es : List Event} {v : Bool} : machPortValid p = true →
      l.numExceptionsReceived > 0 → Probed l.task es v →
      Fetched sdk l mTask (attempt l p q (.error machRcvTimedOut) ++ es) none
        (if v then .again { l with numExceptionsReceived := 0 } else .exit) mTask
  | failed {p q : Port} {kr : KernReturn} : machPortValid p = true → kr ≠ machRcvInterrupted →
      (kr = machRcvTimedOut → ¬ l.numExceptionsReceived > 0) →
      Fetched sdk l mTask (attempt l p q (.error kr)) none (.again l) mTask
  | refused {p q : Port} {msg : ExcMsg} : machPortValid p = true →
      sdk.routine msg.msghId = none →
      Fetched sdk l mTask (attempt l p q (.ok msg)) none (.again l) mTask
  | caught {p q : Port} {msg : ExcMsg} {m : Message} {es : List Event} : machPortValid p = true →
      (sdk.routine msg.msghId).isSome → m.excMsg = msg → (es = [] ∨ ∃ v, Probed l.task es v) →
      (Probed l.task es false → ¬ OfExec sdk msg) →
      Fetched sdk l mTask (attempt l p q (.ok msg) ++ es) (some m)
        (.again { l with numExceptionsReceived := l.numExceptionsReceived + 1 }) mTask
  | execed {p q : Port} {msg : ExcMsg} {m : Message} {es : List Event} : machPortValid p = true →
      OfExec sdk msg → m.excMsg = msg → Probed l.task es false → msg.task ≠ l.task →
      Fetched sdk l mTask (attempt l p q (.ok msg) ++ es) (some m)
        (.again ⟨msg.task, l.numExceptionsReceived + 1⟩) msg.task

theorem run_notReceived_tape (e : Answers) (sdk : Sdk) {l : Locals} {p q : Port} (kr : KernReturn)
    (hp : machPortValid p = true) (s : Tape) : ∃ es t s', s.Extends es s' ∧
      Fetched sdk l s.mTask (attempt l p q (.error kr) ++ es) none t s.mTask ∧
      (notReceived l kr).run (tape e) s = (.done t, s') := by
  have hvalid (l' : Locals) (hl : l'.task = l.task) (s : Tape) : ∃ v es s', s.Extends es s' ∧
      Probed l.task es v ∧ (MachTask.isValid l'.task >>= fun valid =>
        if valid = true then return .again l' else return .exit : Code Turn).run (tape e) s =
        (.done (if v then .again l' else .exit), s') := by
    obtain ⟨v, es, s', hext, hprobed, hrun⟩ := run_isValid_tape e l'.task s
    refine ⟨v, es, s', hext, hl ▸ hprobed, ?_⟩
    rw [Prog.bind_eq, Prog.run_bind_done _ hrun]
    cases v <;> rfl
  unfold notReceived
  by_cases hint : kr = machRcvInterrupted
  · subst hint
    rw [if_pos rfl, Prog.bind_eq, member_bind, run_tape]
    set s₁ := s.next e (.member .exceptionPort)
    have hext₁ : s.Extends [.port (s.answer e (.member .exceptionPort))] s₁ := ⟨rfl, rfl⟩
    by_cases hq : machPortValid (s.answer e (.member .exceptionPort)) = true
    · obtain ⟨v, es, s', hext, hprobed, hrun⟩ := hvalid l rfl s₁
      refine ⟨_, _, s', hext₁.trans hext, .interrupted hp hq hprobed, ?_⟩
      simp only [hq, Bool.not_true, Bool.false_eq_true, if_false]
      exact hrun
    · have hq' := eq_false_of_ne_true hq
      refine ⟨_, .exit, s₁, hext₁, .interruptedPort hp hq', ?_⟩
      simp only [hq', Bool.not_false, if_true]
      rfl
  · rw [if_neg hint]
    by_cases htime : kr = machRcvTimedOut
    -- timed out: only a receive that was collecting clears the counter
    · subst htime
      rw [if_pos rfl]
      by_cases hnum : l.numExceptionsReceived > 0
      · obtain ⟨v, es, s', hext, hprobed, hrun⟩ :=
          hvalid { l with numExceptionsReceived := 0 } rfl s
        rw [if_pos hnum]
        exact ⟨es, _, s', hext, .timedOut hp hnum hprobed, hrun⟩
      · rw [if_neg hnum]
        refine ⟨[], .again l, s, .refl s, ?_, rfl⟩
        rw [List.append_nil]
        exact .failed hp hint fun _ => hnum
    · rw [if_neg htime]
      refine ⟨[], .again l, s, .refl s, ?_, rfl⟩
      rw [List.append_nil]
      exact .failed hp hint fun h => absurd h htime

/-- What `catch_mach_exception_raise` leaves in its record. -/
inductive Caught (msg : ExcMsg) (l : Locals) : List Event → Data → Prop
  | own : msg.task = l.task →
      Caught msg l [] ⟨msg.task, msg.thread, msg.excType, msg.codes⟩
  | exec {es : List Event} : msg.task ≠ l.task → Probed l.task es false →
      msg.excType = excSoftware ∧ msg.codes = [excSoftSignal, sigtrap] →
      Caught msg l es ⟨msg.task, msg.thread, msg.excType, msg.codes⟩
  | other {es : List Event} {v : Bool} : msg.task ≠ l.task → Probed l.task es v →
      (v = false → ¬ (msg.excType = excSoftware ∧ msg.codes = [excSoftSignal, sigtrap])) →
      Caught msg l es { taskPort := l.task }

theorem run_catchMachExceptionRaise_tape (e : Answers) (msg : ExcMsg) (l : Locals) (s : Tape) :
    ∃ kr g es s', s.Extends es s' ∧ Caught msg l es g ∧
      (catchMachExceptionRaise msg { taskPort := l.task }).run (tape e) s =
        (.done (kr, g), s') := by
  unfold catchMachExceptionRaise
  by_cases htask : msg.task = l.task
  · rw [if_pos htask]
    exact ⟨_, _, [], s, .refl s, .own htask, rfl⟩
  · rw [if_neg htask]
    obtain ⟨v, es, s', hext, hprobed, hrun⟩ := run_isValid_tape e l.task s
    rw [Prog.bind_eq, Prog.run_bind_done _ hrun]
    cases v with
    | true => exact ⟨_, _, es, s', hext, .other htask hprobed (fun h => by cases h), rfl⟩
    | false =>
      rw [if_pos (by rfl)]
      by_cases hexec : msg.excType = excSoftware ∧ msg.codes = [excSoftSignal, sigtrap]
      · rw [if_pos hexec]
        exact ⟨_, _, es, s', hext, .exec htask hprobed hexec, rfl⟩
      · rw [if_neg hexec]
        exact ⟨_, _, es, s', hext, .other htask hprobed fun _ => hexec, rfl⟩

/-- The end of `fetchReceived`, for a message that the server has taken. -/
def settle (l : Locals) (m : Message) : Code (Option Message × Turn) := do
  if m.state.taskPort ≠ l.task ∧ m.state.isValid then
    member (.setTaskPort m.state.taskPort)
    return (some m, .again ⟨m.state.taskPort, l.numExceptionsReceived + 1⟩)
  else
    return (some m, .again { l with numExceptionsReceived := l.numExceptionsReceived + 1 })

theorem fetchReceived_raise {sdk : Sdk} {l : Locals} {msg : ExcMsg}
    (h : sdk.routine msg.msghId = some .raise) : fetchReceived sdk l msg =
      (catchMachExceptionRaise msg { taskPort := l.task }).bind fun r =>
        settle l ⟨msg, r.1, r.2⟩ := by
  unfold fetchReceived Message.catchExceptionRaise machExcServer
  rw [h]
  simp only [Prog.bind_eq, Prog.bind_assoc]
  rfl

/-- A message that does not move the thread to another task. -/
theorem run_settle_stay (e : Answers) {sdk : Sdk} {l : Locals} {p q : Port} {msg : ExcMsg}
    {kr : KernReturn} {g : Data} {es : List Event} (hp : machPortValid p = true)
    (hr : (sdk.routine msg.msghId).isSome) (h : g.taskPort ≠ l.task → g.isValid = false)
    (hes : es = [] ∨ ∃ v, Probed l.task es v) (hexec : Probed l.task es false → ¬ OfExec sdk msg)
    (s : Tape) : ∃ m t s', s'.log = s.log ∧
      Fetched sdk l s.mTask (attempt l p q (.ok msg) ++ es) m t s'.mTask ∧
      (settle l ⟨msg, kr, g⟩).run (tape e) s = (.done (m, t), s') := by
  refine ⟨some ⟨msg, kr, g⟩, _, s, rfl, .caught hp hr rfl hes hexec, ?_⟩
  unfold settle
  rw [if_neg]
  · rfl
  · rintro ⟨hne, hvalid⟩
    rw [h hne] at hvalid
    cases hvalid

/-- A message that was caught moves the thread exactly when it is that of an exec. -/
theorem run_settle_tape (e : Answers) {sdk : Sdk} {l : Locals} {p q : Port} {msg : ExcMsg}
    {kr : KernReturn} {g : Data} {es : List Event} (hp : machPortValid p = true)
    (hr : sdk.routine msg.msghId = some .raise) (hcaught : Caught msg l es g) (s : Tape) :
    ∃ m t s', s'.log = s.log ∧
      Fetched sdk l s.mTask (attempt l p q (.ok msg) ++ es) m t s'.mTask ∧
      (settle l ⟨msg, kr, g⟩).run (tape e) s = (.done (m, t), s') := by
  have hr' : (sdk.routine msg.msghId).isSome := by rw [hr]; rfl
  cases hcaught with
  | own htask =>
    refine run_settle_stay e hp hr' (fun h => absurd htask h) (.inl rfl)
      (fun hprobed hexec => ?_) s
    exact hexec.task (htask.trans hprobed.eq_zero)
  | exec htask hprobed hcodes =>
    -- the task of the exec is taken over, unless its record is not valid
    by_cases hports : msg.task ≠ 0 ∧ msg.thread ≠ 0
    · have hexec : OfExec sdk msg := ⟨hr, hcodes.1, hcodes.2, hports.1, hports.2⟩
      refine ⟨some ⟨msg, kr, ⟨msg.task, msg.thread, msg.excType, msg.codes⟩⟩, _,
        s.next e (.member (.setTaskPort msg.task)), List.append_nil _,
        .execed hp hexec rfl hprobed htask, ?_⟩
      unfold settle
      rw [if_pos]
      · rfl
      · have htype : msg.excType ≠ 0 := by rw [hcodes.1]; decide
        simp [Data.isValid, htask, hports.1, hports.2, htype]
    · refine run_settle_stay e hp hr' (fun _ => ?_) (.inr ⟨_, hprobed⟩)
        (fun _ hexec => hports ⟨hexec.task, hexec.thread⟩) s
      by_contra hvalid
      simp only [Data.isValid, ne_eq, decide_not, Bool.and_eq_true, Bool.not_eq_eq_eq_not,
        Bool.not_true, decide_eq_false_iff_not, Bool.not_eq_false] at hvalid
      exact hports ⟨hvalid.1.1, hvalid.1.2⟩
  | other htask hprobed hcodes =>
    refine run_settle_stay e hp hr' (fun h => absurd rfl h) (.inr ⟨_, hprobed⟩)
      (fun hinvalid hexec => ?_) s
    exact hcodes (hprobed.unique hinvalid) ⟨hexec.excType, hexec.codes⟩

theorem run_fetchReceived_tape (e : Answers) (sdk : Sdk) {l : Locals} {p q : Port} (msg : ExcMsg)
    (hp : machPortValid p = true) (s : Tape) : ∃ es m t s', s'.log = s.log ++ es ∧
      Fetched sdk l s.mTask (attempt l p q (.ok msg) ++ es) m t s'.mTask ∧
      (fetchReceived sdk l msg).run (tape e) s = (.done (m, t), s') := by
  have hfails (r : Routine) (hr : sdk.routine msg.msghId = some r) (hne : r ≠ .raise)
      (hfetch : fetchReceived sdk l msg =
        settle l ⟨msg, kernFailure, { taskPort := l.task }⟩) : ∃ es m t s', s'.log = s.log ++ es ∧
        Fetched sdk l s.mTask (attempt l p q (.ok msg) ++ es) m t s'.mTask ∧
        (fetchReceived sdk l msg).run (tape e) s = (.done (m, t), s') := by
    have hexec : ¬ OfExec sdk msg :=
      fun hexec => hne (Option.some.inj (hr.symm.trans hexec.routine))
    rw [hfetch]
    refine ⟨[], ?_⟩
    rw [List.append_nil]
    exact run_settle_stay e hp (by rw [hr]; rfl) (fun h => absurd rfl h) (.inl rfl) (fun _ => hexec)
      s
  cases hr : sdk.routine msg.msghId with
  | none =>
    refine ⟨[], none, .again l, s, (List.append_nil _).symm, ?_, ?_⟩
    · rw [List.append_nil]
      exact .refused hp hr
    · unfold fetchReceived Message.catchExceptionRaise machExcServer
      rw [hr]
      rfl
  | some r =>
    cases r with
    | raise =>
      obtain ⟨kr, g, es, s₁, hext, hcaught, hrun⟩ := run_catchMachExceptionRaise_tape e msg l s
      obtain ⟨m, t, s', hlog, hfetched, hsettle⟩ := run_settle_tape e hp hr hcaught s₁
      refine ⟨es, m, t, s', hlog.trans hext.log, hext.mTask ▸ hfetched, ?_⟩
      rw [fetchReceived_raise hr, Prog.run_bind_done _ hrun]
      exact hsettle
    | raiseState =>
      refine hfails _ hr (by decide) ?_
      unfold fetchReceived Message.catchExceptionRaise machExcServer
      rw [hr]
      rfl
    | raiseStateIdentity =>
      refine hfails _ hr (by decide) ?_
      unfold fetchReceived Message.catchExceptionRaise machExcServer
      rw [hr]
      rfl

/-- **An iteration**, up to the hand-over, goes one of the ways. -/
theorem run_fetch (e : Answers) (sdk : Sdk) (l : Locals) (s : Tape) : ∃ es m t s',
    s'.log = s.log ++ es ∧ Fetched sdk l s.mTask es m t s'.mTask ∧
      (fetch sdk l).run (tape e) s = (.done (m, t), s') := by
  have htimeout : (if l.numExceptionsReceived > 0 then some 1
      else if periodicTimeout > 0 then some periodicTimeout else none) = timeout l := by
    unfold timeout
    split <;> rfl
  unfold fetch
  rw [Prog.bind_eq, member_bind, run_tape]
  set p := s.answer e (.member .exceptionPort)
  set s₁ := s.next e (.member .exceptionPort)
  have hext₁ : s.Extends [.port p] s₁ := ⟨rfl, rfl⟩
  by_cases hp : machPortValid p = true
  · rw [if_neg (by simp [hp]), Prog.bind_eq, sys_bind, run_tape]
    cases hcancel : s₁.answer e (.sys .pthreadTestcancel) with
    | true =>
      refine ⟨_, none, .exit, s₁.next e (.sys .pthreadTestcancel), ?_, .cancelled hp, rfl⟩
      show s₁.log ++ [.testcancel (s₁.answer e (.sys .pthreadTestcancel))] = _
      rw [hcancel, hext₁.log, List.append_assoc]
      rfl
    | false =>
      set s₂ := s₁.next e (.sys .pthreadTestcancel) with hs₂
      have hext₂ : s₁.Extends [.testcancel false] s₂ := by
        refine ⟨?_, rfl⟩
        show s₁.log ++ [.testcancel (s₁.answer e (.sys .pthreadTestcancel))] = _
        rw [hcancel]
      rw [if_neg (by decide), Prog.bind_eq, member_bind, run_tape]
      set q := s₂.answer e (.member .exceptionPort)
      set s₃ := s₂.next e (.member .exceptionPort)
      have hext₃ : s₂.Extends [.port q] s₃ := ⟨rfl, rfl⟩
      rw [Prog.bind_eq, sys_bind, run_tape, htimeout]
      set s₄ := s₃.next e (.sys (.machMsgReceive q (timeout l))) with hs₄
      cases hanswer : s₃.answer e (.sys (.machMsgReceive q (timeout l))) with
      | ok msg =>
        have hext : s.Extends (attempt l p q (.ok msg)) s₄ := by
          refine ((hext₁.trans hext₂).trans hext₃).trans ⟨?_, rfl⟩
          show s₃.log ++ [.receive (timeout l) _] = _
          rw [hanswer]
        obtain ⟨es, m, t, s', hlog, hfetched, hrun⟩ := run_fetchReceived_tape e sdk msg hp s₄
        refine ⟨_, m, t, s', ?_, hext.mTask ▸ hfetched, hrun⟩
        rw [hlog, hext.log, List.append_assoc]
      | error kr =>
        have hext : s.Extends (attempt l p q (.error kr)) s₄ := by
          refine ((hext₁.trans hext₂).trans hext₃).trans ⟨?_, rfl⟩
          show s₃.log ++ [.receive (timeout l) _] = _
          rw [hanswer]
        obtain ⟨es, t, s', hext', hfetched, hrun⟩ := run_notReceived_tape e sdk kr hp s₄
        refine ⟨_, none, t, s', (hext.trans hext').log, ?_, ?_⟩
        · rw [hext'.mTask]
          exact hext.mTask ▸ hfetched
        · simp only
          rw [Prog.bind_eq, Prog.run_bind_done _ hrun]
          rfl
  · have hp' := eq_false_of_ne_true hp
    rw [if_pos (by simp [hp'])]
    exact ⟨_, none, .exit, s₁, hext₁.log, .portInvalid hp', rfl⟩

/-! ## The loop -/

/-- **One iteration** goes one of the ways, and then the message is queued, or handing it over
throws. -/
theorem run_turn (e : Answers) (sdk : Sdk) {l : Locals} {s s' : Tape}
    {o : Outcome Op RuntimeError Turn} (h : (turn sdk l).run (tape e) s = (o, s')) :
    ∃ es m t, Fetched sdk l s.mTask es m t s'.mTask ∧
      ((s'.log = s.log ++ (es ++ m.toList.map .queued) ∧ o = .done t) ∨
        (s'.log = s.log ++ es ∧ m.isSome ∧ ∃ x, o = .threw x)) := by
  obtain ⟨es, m, t, s₁, hlog, hfetched, hrun⟩ := run_fetch e sdk l s
  refine ⟨es, m, t, ?_⟩
  rw [turn_eq, Prog.bind_eq, Prog.run_bind_done _ hrun] at h
  simp only [Prog.bind_eq] at h
  cases m with
  | none =>
    obtain ⟨rfl, rfl⟩ := Prod.mk.inj h
    exact ⟨hfetched, .inl ⟨by simpa using hlog, rfl⟩⟩
  | some m =>
    obtain ⟨s₂, ⟨hext, a, hrun'⟩ | ⟨hext, x, hrun'⟩⟩ := exceptionMessageReceived_logs m e s₁
    · rw [handOver, Prog.run_bind_done _ hrun'] at h
      obtain ⟨rfl, rfl⟩ := Prod.mk.inj h
      refine ⟨hext.mTask ▸ hfetched, .inl ⟨?_, rfl⟩⟩
      rw [hext.log, hlog, List.append_assoc]
      rfl
    · rw [Prog.run_bind, handOver, hrun'] at h
      obtain ⟨rfl, rfl⟩ := Prod.mk.inj h
      refine ⟨hext.mTask ▸ hfetched, .inr ⟨?_, rfl, x, rfl⟩⟩
      rw [hext.log, hlog, List.append_nil]

/-- Some iterations of the loop of `MachTask::ExceptionThread`. -/
def iterations (sdk : Sdk) : ℕ → Locals → Code Turn
  | 0, l => return .again l
  | n + 1, l => do
    match ← turn sdk l with
    | .again l => iterations sdk n l
    | .exit => return .exit

/-- `MachTask::ExceptionThread`, for a number of iterations. -/
def exceptionThread (sdk : Sdk) (n : ℕ) : Code Turn := do
  iterations sdk n ⟨← member .taskPort, 0⟩

/-- One more iteration, if the loop goes on. -/
def turnAgain (sdk : Sdk) : Turn → Code Turn
  | .again l => turn sdk l
  | .exit => return .exit

theorem iterations_succ (sdk : Sdk) (n : ℕ) (l : Locals) :
    iterations sdk (n + 1) l = (iterations sdk n l).bind (turnAgain sdk) := by
  induction n generalizing l with
  | zero =>
    show (turn sdk l).bind _ = turn sdk l
    refine Eq.trans ?_ (Prog.bind_ret_right _)
    congr 1
    funext t
    cases t <;> rfl
  | succ n ih =>
    show (turn sdk l).bind _ = ((turn sdk l).bind _).bind _
    rw [Prog.bind_assoc]
    congr 1
    funext t
    cases t with
    | again l => exact ih l
    | exit => rfl

theorem exceptionThread_succ (sdk : Sdk) (n : ℕ) :
    exceptionThread sdk (n + 1) = (exceptionThread sdk n).bind (turnAgain sdk) := by
  unfold exceptionThread
  simp only [Prog.bind_eq, member_bind, Prog.bind_op, iterations_succ]

end ExceptionThread

/-- The answers of an environment whose calls succeed with nothing to report, except for the
receives and the questions about a task; the exception port is `7`. -/
def Op.idleAnswer (receive : ℕ → Option ℕ → Except KernReturn ExcMsg) (kr : KernReturn)
    (time : ℕ) : {β : Type} → Op β → β
  | _, .member o => (o.exec { mTask := { mExceptionPort := 7 } }).1
  | _, .sys (.taskInfo _) => (kr, 0)
  | _, .sys (.machMsgReceive _ timeout) => receive time timeout
  | _, .sys .pthreadTestcancel => false
  | _, .sys (.usleep _) => ()
  | _, .sys (.getpgid _) | _, .sys (.machPortInsertRight _) | _, .sys (.machPortDeallocate _)
  | _, .sys (.taskSetExceptionPorts _ _ _) | _, .sys .pthreadCreate | _, .sys .pthreadCancel
  | _, .sys .pthreadJoin | _, .sys (.ptAttachExc _) | _, .sys (.ptDetach _)
  | _, .sys (.ptThUpdate _ _ _) | _, .sys (.kill _ _) | _, .sys (.taskSuspend _)
  | _, .sys (.taskResume _) | _, .sys (.threadSetState _ _) | _, .sys (.machMsgSend _ _) => 0#32
  | _, .sys (.taskForPid _) | _, .sys .machPortAllocate => (0, 0)
  | _, .sys (.taskGetExceptionPorts _ _) | _, .sys (.taskThreads _) => (0, [])
  | _, .sys (.threadGetState _) => (0, .zero)
  | _, .sys (.pidForTask _) => (0, none)

/-- An environment with nothing to report, except for the receives and the questions about a
task. -/
def Answers.idle (receive : ℕ → Option ℕ → Except KernReturn ExcMsg) (kr : KernReturn) : Answers :=
  ⟨fun time => Op.idleAnswer receive kr time⟩

end MachDebug
