import MachDebug.Loop.Tape

/-!
# The protocol of the exception loop

The loop waits for a first exception without a timeout, and then collects the others with one, until
a receive times out. Its counter is 32 bits wide, so that the mode of a receive is given by the
number of exceptions modulo `2 ^ 32`. The log of a run of any length tells which messages were
handed over, how each receive was made, and why the thread has ended.

## Main definitions

* `receives`, `queuedMessages`: the receives of a log, and the messages that were queued
* `accepted sdk rs`: the received messages that `CatchExceptionRaise` accepts
* `sinceTimeout sdk rs`: how many of them came after the last receive that timed out
* `Delivered`, `Waits`, `Leaves`: the clauses of the protocol

## Main results

* `ExceptionThread.Fetched.receives_cases`: what one iteration adds to the log
* `ExceptionThread.exceptionThread_protocol`: the clauses hold for every run
-/

namespace MachDebug

open Program

/-- A receive: its timeout, and its answer. -/
abbrev Receive := Option ℕ × Except KernReturn ExcMsg

/-- The receives of a log, oldest first. -/
def receives : List Event → List Receive :=
  List.filterMap fun
    | .receive timeout answer => some (timeout, answer)
    | _ => none

/-- The messages that were queued, oldest first. -/
def queuedMessages : List Event → List Message :=
  List.filterMap fun
    | .queued m => some m
    | _ => none

@[simp] theorem receives_append (es es' : List Event) :
    receives (es ++ es') = receives es ++ receives es' := List.filterMap_append

@[simp] theorem queuedMessages_append (es es' : List Event) :
    queuedMessages (es ++ es') = queuedMessages es ++ queuedMessages es' := List.filterMap_append

@[simp] theorem receives_queued (ms : List Message) : receives (ms.map .queued) = [] := by
  induction ms with
  | nil => rfl
  | cons m ms ih => exact ih

@[simp] theorem queuedMessages_queued (ms : List Message) :
    queuedMessages (ms.map .queued) = ms := by
  induction ms with
  | nil => rfl
  | cons m ms ih => exact congrArg (m :: ·) ih

/-- The message of a receive, if `CatchExceptionRaise` accepts it: if its id has a handler. -/
def acceptedMessage (sdk : Sdk) : Receive → Option ExcMsg
  | (_, .ok msg) => if (sdk.routine msg.msghId).isSome then some msg else none
  | (_, .error _) => none

/-- The received messages that `CatchExceptionRaise` accepts, oldest first. -/
def accepted (sdk : Sdk) (rs : List Receive) : List ExcMsg := rs.filterMap (acceptedMessage sdk)

/-- The number of accepted messages since the last receive that timed out, after one more
receive. -/
def countReceive (sdk : Sdk) (n : ℕ) (r : Receive) : ℕ :=
  match r.2 with
  | .error kr => if kr = machRcvTimedOut then 0 else n
  | .ok _ => if (acceptedMessage sdk r).isSome then n + 1 else n

/-- The number of accepted messages since the last receive that timed out. -/
def sinceTimeout (sdk : Sdk) (rs : List Receive) : ℕ := rs.foldl (countReceive sdk) 0

/-- Counting is the same modulo the size of the counter. -/
theorem countReceive_mod (sdk : Sdk) (n : ℕ) (r : Receive) :
    countReceive sdk (n % 2 ^ 32) r % 2 ^ 32 = countReceive sdk n r % 2 ^ 32 := by
  unfold countReceive
  split
  · split
    · rfl
    · exact Nat.mod_mod _ _
  · split
    · exact Nat.mod_add_mod _ _ _
    · exact Nat.mod_mod _ _

theorem mem_of_mem_receives {log : List Event} {wait : Option ℕ}
    {answer : Except KernReturn ExcMsg} (h : (wait, answer) ∈ receives log) :
    .receive wait answer ∈ log := by
  obtain ⟨event, hmem, hevent⟩ := List.mem_filterMap.mp h
  cases event with
  | receive wait' answer' =>
    obtain ⟨rfl, rfl⟩ := Prod.mk.inj (Option.some.inj hevent)
    exact hmem
  | _ => cases hevent

/-! ## The clauses -/

/-- **Delivery**: the messages that were queued are the accepted ones, once each and in order. When
handing over a message has thrown, it is the one that is missing. -/
def Delivered (sdk : Sdk) (log : List Event) : Outcome Op RuntimeError ExceptionThread.Turn → Prop
  | .done _ => (queuedMessages log).map Message.excMsg = accepted sdk (receives log)
  | .threw _ => ∃ msg,
    (queuedMessages log).map Message.excMsg ++ [msg] = accepted sdk (receives log)
  | .aborted => False
  | .waiting _ => False

/-- **Waiting**: a receive is made without a timeout exactly when the number of accepted messages
since the last one that timed out is `0` modulo `2 ^ 32`. -/
def Waits (sdk : Sdk) (rs : List Receive) : Prop :=
  ∀ before timeout answer after, rs = before ++ (timeout, answer) :: after →
    (timeout = none ↔ sinceTimeout sdk before % 2 ^ 32 = 0)

/-- **Leaving**: the events of an iteration in which the thread returns, with the tracked task. -/
inductive Leaves (task : Port) : List Event → Prop
  | portInvalid {p : Port} {es : List Event} :
      ExceptionThread.machPortValid p = false → Leaves task (.port p :: es)
  | interruptedPort (before after : List Event) {timeout : Option ℕ} {p : Port} :
      ExceptionThread.machPortValid p = false → .port p ∈ after →
      Leaves task (before ++ .receive timeout (.error machRcvInterrupted) :: after)
  | interruptedTask (before after : List Event) {es : List Event} {timeout : Option ℕ} :
      Probed task es false →
      Leaves task (before ++ .receive timeout (.error machRcvInterrupted) :: (after ++ es))
  | timedOutTask (before after : List Event) {es : List Event} {timeout : Option ℕ} :
      Probed task es false →
      Leaves task (before ++ .receive timeout (.error machRcvTimedOut) :: (after ++ es))

theorem Waits.snoc {sdk : Sdk} {rs : List Receive} {r : Receive} (h : Waits sdk rs)
    (hr : r.1 = none ↔ sinceTimeout sdk rs % 2 ^ 32 = 0) : Waits sdk (rs ++ [r]) := by
  intro before timeout answer after heq
  rcases List.eq_nil_or_concat after with rfl | ⟨after, r', rfl⟩
  · obtain ⟨rfl, hlast⟩ := List.append_inj' heq rfl
    obtain rfl := List.singleton_inj.mp hlast
    exact hr
  · rw [List.concat_eq_append, ← List.cons_append, ← List.append_assoc] at heq
    exact h before timeout answer after (List.append_inj' heq rfl).1

/-! ## One iteration -/

theorem Probed.receives_eq {task : Port} {es : List Event} {v : Bool} (h : Probed task es v) :
    receives es = [] := by
  cases h <;> rfl

theorem Probed.queuedMessages_eq {task : Port} {es : List Event} {v : Bool} (h : Probed task es v) :
    queuedMessages es = [] := by
  cases h <;> rfl

namespace ExceptionThread

variable {sdk : Sdk} {l l' : Locals} {es : List Event} {m : Option Message} {t : Turn}
  {mTask mTask' : Port}

theorem receives_attempt (l : Locals) (p q : Port) (answer : Except KernReturn ExcMsg) :
    receives (attempt l p q answer) = [(timeout l, answer)] := rfl

theorem queuedMessages_attempt (l : Locals) (p q : Port) (answer : Except KernReturn ExcMsg) :
    queuedMessages (attempt l p q answer) = [] := rfl

/-- The receive is without a timeout exactly when the counter is zero. -/
theorem timeout_eq_none_iff (l : Locals) :
    timeout l = none ↔ l.numExceptionsReceived.toNat = 0 := by
  unfold timeout
  split
  · rename_i h
    have hpos : 0 < l.numExceptionsReceived.toNat := h
    simp
    omega
  · rename_i h
    have hzero : ¬ 0 < l.numExceptionsReceived.toNat := h
    simp
    omega

/-- Nothing is queued before the hand-over. -/
theorem Fetched.queuedMessages_eq (h : Fetched sdk l mTask es m t mTask') :
    queuedMessages es = [] := by
  have hprobe {es : List Event} (h : es = [] ∨ ∃ v, Probed l.task es v) :
      queuedMessages es = [] := by
    rcases h with rfl | ⟨v, hprobed⟩
    · rfl
    · exact hprobed.queuedMessages_eq
  cases h with
  | portInvalid _ => rfl
  | cancelled _ => rfl
  | interruptedPort _ _ => rfl
  | @interrupted p q q' es v _ _ hprobed =>
    show queuedMessages es = []
    exact hprobe (.inr ⟨v, hprobed⟩)
  | timedOut _ _ hprobed =>
    rw [queuedMessages_append, queuedMessages_attempt]
    exact hprobe (.inr ⟨_, hprobed⟩)
  | failed _ _ _ => rfl
  | refused _ _ => rfl
  | caught _ _ _ hes _ =>
    rw [queuedMessages_append, queuedMessages_attempt]
    exact hprobe hes
  | execed _ _ _ hprobed _ =>
    rw [queuedMessages_append, queuedMessages_attempt]
    exact hprobe (.inr ⟨_, hprobed⟩)

/-- What one iteration adds to the receives: nothing when the thread ends before it, or one, whose
message is handed over when it is accepted, and the counter follows. -/
theorem Fetched.receives_cases (h : Fetched sdk l mTask es m t mTask') :
    (receives es = [] ∧ m = none ∧ t = .exit) ∨
    ∃ answer, receives es = [(timeout l, answer)] ∧
      (acceptedMessage sdk (timeout l, answer)) = m.map Message.excMsg ∧
      ((timeout l = none → answer ≠ .error machRcvTimedOut) → ∀ l', t = .again l' →
        l'.numExceptionsReceived.toNat =
          countReceive sdk l.numExceptionsReceived.toNat (timeout l, answer) % 2 ^ 32) := by
  have hmod := Nat.mod_eq_of_lt l.numExceptionsReceived.isLt
  have hadd :
      (l.numExceptionsReceived + 1).toNat = (l.numExceptionsReceived.toNat + 1) % 2 ^ 32 := by
    rw [BitVec.toNat_add]
    rfl
  cases h with
  | portInvalid _ => exact .inl ⟨rfl, rfl, rfl⟩
  | cancelled _ => exact .inl ⟨rfl, rfl, rfl⟩
  | interruptedPort _ _ =>
    exact .inr ⟨_, rfl, rfl, fun _ l' ht => by cases ht⟩
  | @interrupted p q q' es v _ _ hprobed =>
    refine .inr ⟨.error machRcvInterrupted, ?_, rfl, fun _ l' ht => ?_⟩
    · show (timeout l, _) :: receives es = _
      rw [hprobed.receives_eq]
    · cases v <;> cases ht
      exact hmod.symm
  | @timedOut p q es v _ _ hprobed =>
    refine .inr ⟨.error machRcvTimedOut, ?_, rfl, fun _ l' ht => ?_⟩
    · rw [receives_append, receives_attempt, hprobed.receives_eq, List.append_nil]
    · cases v <;> cases ht
      rfl
  | @failed p q kr _ hint hnum =>
    refine .inr ⟨_, rfl, rfl, fun htimeout l' ht => ?_⟩
    cases ht
    -- a timeout that is not counted would be one without a time limit
    have hkr : kr ≠ machRcvTimedOut := by
      rintro rfl
      exact htimeout ((timeout_eq_none_iff l).mpr (Nat.eq_zero_of_not_pos (hnum rfl))) rfl
    simp only [countReceive, if_neg hkr]
    exact hmod.symm
  | @refused p q msg _ hnone =>
    have hacc : acceptedMessage sdk (timeout l, .ok msg) = none := by simp [acceptedMessage, hnone]
    refine .inr ⟨_, rfl, hacc, fun _ l' ht => ?_⟩
    cases ht
    simp only [countReceive, hacc]
    exact hmod.symm
  | @caught p q msg m es _ hsome hmsg hes _ =>
    have hacc : acceptedMessage sdk (timeout l, .ok msg) = some msg := by
      simp [acceptedMessage, hsome]
    refine .inr ⟨_, ?_, by rw [hacc, Option.map_some, hmsg], fun _ l' ht => ?_⟩
    · rw [receives_append, receives_attempt]
      rcases hes with rfl | ⟨v, hprobed⟩
      · rfl
      · rw [hprobed.receives_eq, List.append_nil]
    · cases ht
      simp only [countReceive, hacc]
      exact hadd
  | @execed p q msg m es _ hexec hmsg hprobed _ =>
    have hacc : acceptedMessage sdk (timeout l, .ok msg) = some msg := by
      simp [acceptedMessage, hexec.routine]
    refine .inr ⟨_, ?_, by rw [hacc, Option.map_some, hmsg], fun _ l' ht => ?_⟩
    · rw [receives_append, receives_attempt, hprobed.receives_eq, List.append_nil]
    · cases ht
      simp only [countReceive, hacc]
      exact hadd

/-- An iteration that ends the thread hands nothing over, and ends it for one of the reasons, unless
the thread is cancelled in it. -/
theorem Fetched.leaves (h : Fetched sdk l mTask es m .exit mTask') :
    m = none ∧ (.testcancel true ∉ es → Leaves l.task es) := by
  generalize ht : Turn.exit = t at h
  cases h with
  | portInvalid hp => exact ⟨rfl, fun _ => .portInvalid hp⟩
  | cancelled _ => exact ⟨rfl, fun hcancel => absurd (by simp) hcancel⟩
  | @interruptedPort p q q' _ hq =>
    refine ⟨rfl, fun _ => ?_⟩
    exact .interruptedPort [.port p, .testcancel false, .port q] [.port q'] hq (by simp)
  | @interrupted p q q' es v _ _ hprobed =>
    cases v <;> cases ht
    refine ⟨rfl, fun _ => ?_⟩
    exact .interruptedTask [.port p, .testcancel false, .port q] [.port q'] hprobed
  | @timedOut p q es v _ _ hprobed =>
    cases v <;> cases ht
    refine ⟨rfl, fun _ => ?_⟩
    exact .timedOutTask [.port p, .testcancel false, .port q] [] hprobed
  | failed _ _ _ => cases ht
  | refused _ _ => cases ht
  | caught _ _ _ _ _ => cases ht
  | execed _ _ _ _ _ => cases ht

end ExceptionThread

/-! ## The log -/

/-- No receive without a timeout has timed out. -/
def NoLostTimeout (log : List Event) : Prop := .receive none (.error machRcvTimedOut) ∉ log

/-- The receives of the log are answered by the environment. -/
theorem mem_of_receive {e : Answers} {s : Tape} {wait : Option ℕ}
    {answer : Except KernReturn ExcMsg} {β : Type} {o : Op β}
    (h : .receive wait answer ∈ Event.of o (s.answer e o)) :
    ∃ port, answer = e.answer s.clock (.sys (.machMsgReceive port wait)) := by
  cases o with
  | member o => cases o <;> simp [Event.of] at h
  | sys o =>
    cases o with
    | machMsgReceive port wait' =>
      obtain ⟨rfl, rfl⟩ : wait = wait' ∧ answer = _ := by simpa [Event.of] using h
      exact ⟨port, rfl⟩
    | _ => simp [Event.of] at h

/-- When no receive without a timeout can time out, the log of a run has none that did. -/
theorem noLostTimeout_run {α : Type} {e : Answers}
    (htimeout : ∀ time port,
      e.answer time (.sys (.machMsgReceive port none)) ≠ .error machRcvTimedOut)
    (p : Code α) {s : Tape} (hs : NoLostTimeout s.log) :
    NoLostTimeout (p.run (tape e) s).2.log := by
  refine (Prog.uses_true p).run_inv (I := fun s : Tape => NoLostTimeout s.log) ?_ hs
  intro β o _ s b s' hexec hlog hmem
  obtain ⟨-, rfl⟩ := Prod.mk.inj (Option.some.inj hexec)
  rcases List.mem_append.mp hmem with hmem | hmem
  · exact hlog hmem
  · obtain ⟨port, hanswer⟩ := mem_of_receive hmem
    exact htimeout s.clock port hanswer.symm

namespace ExceptionThread

variable {sdk : Sdk} {e : Answers} {l : Locals} {s s' : Tape} {o : Outcome Op RuntimeError Turn}

/-- The invariant at the head of the loop. -/
structure Conforms (sdk : Sdk) (l : Locals) (log : List Event) : Prop where
  delivered : (queuedMessages log).map Message.excMsg = accepted sdk (receives log)
  waits : Waits sdk (receives log)
  counter : l.numExceptionsReceived.toNat = sinceTimeout sdk (receives log) % 2 ^ 32

/-- **One iteration** follows the protocol, and the counter follows the log. -/
theorem Conforms.turn (h : Conforms sdk l s.log) (hrun : (turn sdk l).run (tape e) s = (o, s'))
    (hlost : NoLostTimeout s'.log) : Delivered sdk s'.log o ∧ Waits sdk (receives s'.log) ∧
      ∀ l', o = .done (.again l') → Conforms sdk l' s'.log := by
  obtain ⟨es, m, t, hfetched, hend⟩ := run_turn e sdk hrun
  have hqueued := hfetched.queuedMessages_eq
  have hreceives : receives s'.log = receives s.log ++ receives es := by
    rcases hend with ⟨hlog, -⟩ | ⟨hlog, -⟩ <;> rw [hlog] <;> simp
  have hqueues (hdone : o = .done t) :
      queuedMessages s'.log = queuedMessages s.log ++ m.toList := by
    rcases hend with ⟨hlog, -⟩ | ⟨-, -, x, hx⟩
    · rw [hlog]
      simp [hqueued]
    · rw [hx] at hdone
      cases hdone
  rcases hfetched.receives_cases with ⟨hnone, rfl, rfl⟩ | ⟨answer, hone, hacc, hcount⟩
  · rw [hnone, List.append_nil] at hreceives
    rcases hend with ⟨-, rfl⟩ | ⟨-, hsome, -⟩
    · refine ⟨?_, hreceives ▸ h.waits, fun l' ht => by cases ht⟩
      show (queuedMessages s'.log).map _ = _
      rw [hqueues rfl, hreceives, Option.toList_none, List.append_nil]
      exact h.delivered
    · cases hsome
  · rw [hone] at hreceives
    have haccepted : accepted sdk (receives s'.log) =
        accepted sdk (receives s.log) ++ (m.map Message.excMsg).toList := by
      rw [hreceives, accepted, List.filterMap_append, ← hacc]
      cases hmsg : acceptedMessage sdk (timeout l, answer) <;> simp [hmsg, accepted]
    have hwaits : Waits sdk (receives s'.log) := by
      rw [hreceives]
      refine h.waits.snoc ?_
      rw [timeout_eq_none_iff, h.counter]
    -- a receive without a time limit has not timed out, so the counter follows
    have hnot : timeout l = none → answer ≠ .error machRcvTimedOut := by
      rintro hzero rfl
      refine hlost (mem_of_mem_receives ?_)
      rw [hreceives, hzero]
      exact List.mem_append_right _ (List.mem_singleton_self _)
    rcases hend with ⟨-, rfl⟩ | ⟨hlog, hsome, x, rfl⟩
    · have hdelivered :
          (queuedMessages s'.log).map Message.excMsg = accepted sdk (receives s'.log) := by
        rw [hqueues rfl, haccepted, List.map_append, h.delivered]
        cases m <;> rfl
      refine ⟨hdelivered, hwaits, fun l' ht => ⟨hdelivered, hwaits, ?_⟩⟩
      cases ht
      rw [hcount hnot l' rfl, hreceives, sinceTimeout, List.foldl_append, ← sinceTimeout, h.counter]
      exact countReceive_mod sdk _ _
    · obtain ⟨m, rfl⟩ := Option.isSome_iff_exists.mp hsome
      refine ⟨⟨m.excMsg, ?_⟩, hwaits, fun l' ht => by cases ht⟩
      rw [haccepted, ← h.delivered, hlog, queuedMessages_append, hqueued, List.append_nil]
      rfl

/-- The whole thread keeps the invariant. -/
theorem run_exceptionThread_conforms (sdk : Sdk) {e : Answers} (htimeout : ∀ time port,
      e.answer time (.sys (.machMsgReceive port none)) ≠ .error machRcvTimedOut) (mTask : Port)
    (n : ℕ) {o : Outcome Op RuntimeError Turn} {s : Tape}
    (hrun : (exceptionThread sdk n).run (tape e) ⟨0, mTask, []⟩ = (o, s)) :
    Delivered sdk s.log o ∧ Waits sdk (receives s.log) ∧
      ∀ l, o = .done (.again l) → Conforms sdk l s.log := by
  have hlost (n : ℕ) {o : Outcome Op RuntimeError Turn} {s : Tape}
      (hrun : (exceptionThread sdk n).run (tape e) ⟨0, mTask, []⟩ = (o, s)) :
      NoLostTimeout s.log := by
    have hall := noLostTimeout_run htimeout (exceptionThread sdk n) (s := ⟨0, mTask, []⟩)
      List.not_mem_nil
    rwa [hrun] at hall
  have hlast := hlost n hrun
  -- the induction is on the number of iterations, the last of which is split off
  induction n generalizing o s with
  | zero =>
    cases hrun
    have hwaits : Waits sdk [] := by
      intro before timeout answer after heq
      simp at heq
    refine ⟨rfl, hwaits, fun l hl => ?_⟩
    cases hl
    exact ⟨rfl, hwaits, rfl⟩
  | succ n ih =>
    rw [exceptionThread_succ, Prog.run_bind] at hrun
    rcases hn : (exceptionThread sdk n).run (tape e) ⟨0, mTask, []⟩ with ⟨o₁, s₁⟩
    rw [hn] at hrun
    obtain ⟨hdelivered, hwaits, hconforms⟩ := ih hn (hlost n hn)
    cases o₁ with
    | done t =>
      cases t with
      | again l => exact (hconforms l rfl).turn hrun hlast
      | exit =>
        cases hrun
        exact ⟨hdelivered, hwaits, fun l hl => by cases hl⟩
    | threw x =>
      cases hrun
      exact ⟨hdelivered, hwaits, fun l hl => by cases hl⟩
    | aborted => exact hdelivered.elim
    | waiting p => exact hdelivered.elim

/-- A thread that has ended was ended by an iteration. -/
theorem run_exceptionThread_exit (sdk : Sdk) (e : Answers) (s₀ : Tape) (n : ℕ) {s : Tape}
    (hrun : (exceptionThread sdk n).run (tape e) s₀ = (.done .exit, s)) :
    ∃ k < n, ∃ l s₁, (exceptionThread sdk k).run (tape e) s₀ = (.done (.again l), s₁) ∧
      (turn sdk l).run (tape e) s₁ = (.done .exit, s) := by
  induction n generalizing s with
  | zero => cases hrun
  | succ n ih =>
    rw [exceptionThread_succ] at hrun
    obtain ⟨t, s₁, hn, hturn⟩ := Prog.run_bind_eq_done _ hrun
    cases t with
    | again l => exact ⟨n, Nat.lt_succ_self n, l, s₁, hn, hturn⟩
    | exit =>
      cases hturn
      obtain ⟨k, hk, hhead⟩ := ih hn
      exact ⟨k, hk.trans (Nat.lt_succ_self n), hhead⟩

/-- **The protocol of the exception loop.** Whatever is received and answered, as long as only a
receive with a timeout can time out, a run of any number of iterations hands over the accepted
messages, once each and in order, makes a receive without a timeout exactly when it should, and
returns only for the stated reasons. A cancelled thread does not return. -/
theorem exceptionThread_protocol (sdk : Sdk) (e : Answers) (htimeout : ∀ time port,
      e.answer time (.sys (.machMsgReceive port none)) ≠ .error machRcvTimedOut) (mTask : Port)
    (n : ℕ) (o : Outcome Op RuntimeError Turn) (s : Tape)
    (hrun : (exceptionThread sdk n).run (tape e) ⟨0, mTask, []⟩ = (o, s)) :
    Delivered sdk s.log o ∧ Waits sdk (receives s.log) ∧
      (o = .done .exit → ∃ k < n, ∃ l s₁ es,
        (exceptionThread sdk k).run (tape e) ⟨0, mTask, []⟩ = (.done (.again l), s₁) ∧
        (turn sdk l).run (tape e) s₁ = (.done .exit, s) ∧ s.log = s₁.log ++ es ∧
        (.testcancel true ∉ es → Leaves l.task es)) := by
  obtain ⟨hdelivered, hwaits, -⟩ := run_exceptionThread_conforms sdk htimeout mTask n hrun
  refine ⟨hdelivered, hwaits, fun hexit => ?_⟩
  subst hexit
  obtain ⟨k, hk, l, s₁, hhead, hturn⟩ := run_exceptionThread_exit sdk e _ n hrun
  obtain ⟨es, m, t, hfetched, ⟨hlog, ht⟩ | ⟨-, -, x, hx⟩⟩ := run_turn e sdk hturn
  · cases ht
    obtain ⟨rfl, hleaves⟩ := hfetched.leaves
    exact ⟨k, hk, l, s₁, es, hhead, hturn, by simpa using hlog, hleaves⟩
  · cases hx

/-- One breakpoint of task `3`, and then a receive that times out. -/
def oneBreakpoint : ℕ → Option ℕ → Except KernReturn ExcMsg
  | _, none => .ok ⟨0, 2405, 3, 4, 6, [1, 0]⟩
  | _, some _ => .error machRcvTimedOut

/-- The thread hands the breakpoint over, and ends when the receive has timed out and the task is
gone. -/
theorem exceptionThread_protocol_oneBreakpoint : ∃ s,
    (exceptionThread .macos 3).run (tape (.idle oneBreakpoint 1)) ⟨0, 3, []⟩ = (.done .exit, s) ∧
    Delivered .macos s.log (.done .exit) ∧ Waits .macos (receives s.log) ∧
    (queuedMessages s.log).length = 1 ∧ ∃ task es, .testcancel true ∉ es ∧ Leaves task es := by
  obtain ⟨hdelivered, hwaits, hexit⟩ := exceptionThread_protocol .macos (.idle oneBreakpoint 1)
    (fun _ _ h => by cases h) 3 3 (.done .exit) _ rfl
  obtain ⟨k, -, l, s₁, es, -, -, hlog, hleaves⟩ := hexit rfl
  have hcancel : .testcancel true ∉ es := by
    intro hmem
    have hnone : ∀ x ∈ _, ¬ (fun | Event.testcancel b => b | _ => false) x = true :=
      List.any_eq_false.mp (hlog ▸ rfl : List.any (s₁.log ++ es) _ = false)
    exact hnone _ (List.mem_append_right s₁.log hmem) rfl
  exact ⟨_, rfl, hdelivered, hwaits, rfl, l.task, es, hcancel, hleaves hcancel⟩

end ExceptionThread

end MachDebug
