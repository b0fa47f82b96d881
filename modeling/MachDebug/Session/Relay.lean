import MachDebug.Program.Relay
import MachDebug.Session.SuspendBalance

/-!
# The debugger as a relay

In a session on a target that lives on, without failures, the debugger is a relay of the target's
exceptions: it holds those that it does not refuse, with the target suspended while it holds any,
and `Resume` releases all of them by their replies. So it replies to the exceptions in the order in
which they were sent.

## Main definitions

* `World.relay`: the exception messages of a world, as a relay
* `Label.act`: what a step of a session does with the messages
* `Relays t w`: the invariant

## Main results

* `Relays.turn`, `Relays.resume`: a turn of the exception thread and `Resume` are steps of the relay
* `Relays.step`: so is every step of an attached session
* `session_relays`: every session runs the relay
-/

namespace MachDebug

open Program

/-- The exception messages of a world: those on the exception port, those queued in the process, and
those that have been replied to. -/
def World.relay (w : World) : Relay ℕ where
  incoming := w.kern.queue.map fun m => m.serial
  held := w.proc.mExceptionMessages.map fun m => m.excMsg.serial
  released := w.kern.replied

/-- Worlds with the same messages. -/
theorem World.relay_of_same {w w' : World} (hq : w.Same w' .queue) (hm : w.Same w' .messages)
    (hr : w.Same w' .replied) : w'.relay = w.relay := by
  rw [World.relay, World.relay, show w'.kern.queue = _ from hq,
    show w'.proc.mExceptionMessages = _ from hm, show w'.kern.replied = _ from hr]

/-- What a turn of the exception thread does with the first message on the port, if it takes it: the
message is held when the server has a routine for it. -/
def ExceptionThread.act (sdk : Sdk) (w : World) : Relay.Act ℕ :=
  match w.kern.queue with
  | [] => .rest
  | msg :: _ =>
    if w.receives then
      if (sdk.routine msg.msghId).isSome then .hold msg.serial else .refuse msg.serial
    else .rest

/-- What a step of a session does with the messages. -/
def Label.act (sdk : Sdk) (w : World) : Label → Relay.Act ℕ
  | .call .resume => .release
  | .call .singleStep => .release
  | .turn => ExceptionThread.act sdk w
  | .event (.send _) => .send w.kern.nextSerial
  | _ => .rest

/-- The invariant of a session on the task `t`. -/
structure Relays (t : Port) (w : World) : Prop extends Balanced t w where
  sent : ∀ n ∈ w.relay.trail, n < w.kern.nextSerial
  own : ∀ m ∈ w.proc.mExceptionMessages, m.state.taskPort = t
  pid : w.proc.mPid ≠ -1

namespace Relays

variable {sdk : Sdk} {t : Port} {w w' : World}

theorem of_same (h : Relays t w) (hf : w.kern.Follows w'.kern)
    (hsame : ∀ x ∈ [Part.suspendCount, .messages, .taskPort, .queue, .replied, .pid],
      w.Same w' x) : Relays t w' ∧ w'.relay = w.relay := by
  have hrelay : w'.relay = w.relay :=
    World.relay_of_same (hsame _ (by decide)) (hsame _ (by decide)) (hsame _ (by decide))
  refine ⟨⟨h.toBalanced.of_same hf (hsame _ (by decide)) (hsame _ (by decide))
    (hsame _ (by decide)), ?_, ?_, ?_⟩, hrelay⟩
  · rw [hrelay, hf.nextSerial]
    exact h.sent
  · rw [show w'.proc.mExceptionMessages = _ from hsame .messages (by decide)]
    exact h.own
  · rw [show w'.proc.mPid = _ from hsame .pid (by decide)]
    exact h.pid

theorem keptBy (t : Port) (r : Relay ℕ) :
    KeptBy [.status, .singleStep, .debug, .wait] fun w => Relays t w ∧ w.relay = r := by
  rintro β o ho w b w' he ⟨h, rfl⟩
  refine h.of_same (exec_follows o he) fun x hx => exec_same o he fun hp => ?_
  have hmem := ho x hp
  revert hx hmem
  cases x <;> decide

/-- **A turn of the exception thread** holds the first message on the line when the server takes it,
and refuses it otherwise. -/
theorem turn {n : BitVec 32} {r : ExceptionThread.Turn} (h : Relays t w)
    (hrun : (ExceptionThread.turn sdk ⟨w.proc.mTask.mTask, n⟩).run world w = (.done r, w')) :
    Relays t w' ∧ w.relay.Step (ExceptionThread.act sdk w) w'.relay := by
  have hbal := h.toBalanced.turn hrun
  have hserial : w'.kern.nextSerial = w.kern.nextSerial := (follows_of_run hrun).nextSerial
  have hsame (x : Part) (hx : x ∉ [Part.queue, .taskPort, .suspendCount, .debug, .singleStep,
      .messages]) : w.Same w' x := (turn_within sdk _).same hrun hx
  have hreplied : w'.kern.replied = w.kern.replied := hsame .replied (by decide)
  have hpid : w'.proc.mPid ≠ -1 := (show w'.proc.mPid = _ from hsame .pid (by decide)) ▸ h.pid
  obtain ⟨k, -, hk, ⟨hidle, hq, rfl⟩ | ⟨msg, hreceives, hq, hrest⟩⟩ := turn_outcome hrun
  · have hrelay : World.relay ⟨w.proc, k⟩ = w.relay := by
      rw [World.relay, World.relay, hq, show k.replied = _ from hreplied]
    have hact : ExceptionThread.act sdk w = .rest := by
      unfold ExceptionThread.act
      cases hqueue : w.kern.queue with
      | nil => rfl
      | cons msg rest => exact if_neg fun hr => by simp [hidle hr] at hqueue
    rw [hact, hrelay]
    refine ⟨⟨hbal, ?_, h.own, hpid⟩, .rest⟩
    rw [hrelay, hserial]
    exact h.sent
  have hline : w.relay.incoming = msg.serial :: k.queue.map fun m => m.serial := by
    rw [World.relay, hq, List.map_cons]
  split at hrest
  · have hprobe : w.kern.probe w.proc.mTask.mTask = true := by
      simp [Kernel.probe, h.task, h.live, h.faultFree _ _ le_rfl]
    have hproc := exceptionMessageReceived_proc hrest
    rw [switched_caught hprobe] at hproc
    have hqueue : w'.kern.queue = k.queue :=
      (exceptionMessageReceived_within _).same hrest (x := .queue) (by decide)
    have hrelay : w'.relay = { w.relay with
        incoming := k.queue.map fun m => m.serial, held := w.relay.held ++ [msg.serial] } := by
      rw [World.relay, hqueue, hreplied, hproc]
      simp [MachProcess.handed, World.relay]
    have hact : ExceptionThread.act sdk w = .hold msg.serial := by
      simp [ExceptionThread.act, hq, hreceives, ‹(sdk.routine msg.msghId).isSome = true›]
    rw [hact, hrelay]
    refine ⟨⟨hbal, fun n hn => ?_, fun m hm => ?_, hpid⟩, .hold hline⟩
    · rw [hserial]
      refine h.sent n ?_
      rw [hrelay] at hn
      simp only [Relay.trail, hline, List.mem_append, List.mem_cons] at hn ⊢
      tauto
    · rw [hproc, MachProcess.handed, List.mem_append, List.mem_singleton] at hm
      rcases hm with hm | rfl
      · exact h.own m hm
      · rw [taskPort_caught hprobe, h.task]
  · subst hrest
    have hrelay : World.relay ⟨w.proc, k⟩ =
        { w.relay with incoming := k.queue.map fun m => m.serial } := by
      rw [World.relay, World.relay, show k.replied = _ from hreplied]
    have hact : ExceptionThread.act sdk w = .refuse msg.serial := by
      simp [ExceptionThread.act, hq, hreceives, ‹¬(sdk.routine msg.msghId).isSome = true›]
    rw [hact, hrelay]
    refine ⟨⟨hbal, fun n hn => ?_, h.own, hpid⟩, .refuse hline⟩
    rw [hserial]
    refine h.sent n ?_
    rw [hrelay] at hn
    simp only [Relay.trail, hline, List.mem_append, List.mem_cons] at hn ⊢
    tauto

/-- **`Resume`** releases what is held. -/
theorem resume {o : Outcome Op RuntimeError Unit} (h : Relays t w)
    (hrun : MachProcess.resume.run world w = (o, w')) (ho : o ≠ .aborted) :
    Relays t w' ∧ w'.relay = w.relay.release := by
  have hbal := Balanced.resume t w o w' hrun ho h.toBalanced
  obtain ⟨k, hreply, hrep⟩ := run_replyEach_tracked h.faultFree h.pid
    fun m (hm : m ∈ w.proc.mExceptionMessages) => (h.own m hm).trans h.task.symm
  -- what is left of the call is the clearing of the list and the end
  rw [run_resume_eq (resume_status hrun ho), Prog.run_bind_done (h := hreply)] at hrun
  have hend : MachProcess.resumeTask.run world ⟨{ w.proc with mExceptionMessages := [] }, k⟩ =
      (o, w') := hrun
  have hsame (x : Part) (hx : x ∉ [Part.suspendCount, .status]) := resumeTask_within.same hend hx
  have hqueue : k.queue = w.kern.queue := (replyEach_within _).same hreply (x := .queue) (by decide)
  have hrelay : w'.relay = w.relay.release := by
    rw [World.relay, show w'.kern.queue = k.queue from hsame .queue (by decide), hqueue,
      show w'.proc.mExceptionMessages = [] from hsame .messages (by decide),
      show w'.kern.replied = k.replied from hsame .replied (by decide), hrep]
    rfl
  refine ⟨⟨hbal, ?_, ?_, ?_⟩, hrelay⟩
  · rw [hrelay, Relay.trail_release, (follows_of_run hend).nextSerial,
      (follows_of_run hreply).nextSerial]
    exact h.sent
  · rw [show w'.proc.mExceptionMessages = [] from hsame .messages (by decide)]
    exact fun m hm => absurd hm List.not_mem_nil
  · rw [show w'.proc.mPid = w.proc.mPid from hsame .pid (by decide)]
    exact h.pid

/-- **`SingleStep`** arms the threads, and then releases what is held as `Resume` does. -/
theorem singleStep {o : Outcome Op RuntimeError Unit} (h : Relays t w)
    (hrun : MachProcess.singleStep.run world w = (o, w')) (ho : o ≠ .aborted) :
    Relays t w' ∧ w'.relay = w.relay.release := by
  have hst : w.proc.mStatus = .stop := by
    by_contra hst
    have hab : MachProcess.singleStep.run world w = (.aborted, w) := by
      simp [MachProcess.singleStep, MachProcess.armAndResume, run_member, MemberOp.exec, hst]
    cases hab.symm.trans hrun
    exact ho rfl
  obtain ⟨k, harm⟩ : ∃ k, MachTask.enableSingleStep.run world
      ⟨{ w.proc with mSingleStep := true }, w.kern⟩ =
        (.done (), ⟨{ w.proc with mSingleStep := true }, k⟩) := by
    obtain ⟨k, hk, -⟩ := run_updateSingleStep (w := ⟨{ w.proc with mSingleStep := true }, w.kern⟩)
      (fun r => r ||| MachTask.ssEnable.setWidth 64) h.faultFree (h.task ▸ h.live)
    exact ⟨k, hk⟩
  have hflag := keptBy t w.relay (.member (.setSingleStep true)) (by simp [Op.part, MemberOp.part])
    w () _ rfl ⟨h, rfl⟩
  obtain ⟨harmed, hrelay⟩ := KeptBy.keeps (keptBy t w.relay) ((updateSingleStep_within _).mono
    (by decide)) _ _ _ harm (by simp) hflag
  -- what is left of the call is `Resume` and the busy wait
  unfold MachProcess.singleStep MachProcess.armAndResume at hrun
  simp only [Prog.bind_eq, member_bind, Prog.bind_op, Prog.bind_assoc] at hrun
  rw [run_assert_status hst, run_member] at hrun
  simp only [MemberOp.exec] at hrun
  rw [Prog.run_bind_done (h := harm), Prog.run_bind] at hrun
  rw [← hrelay]
  have hawait : Within [.status, .singleStep, .debug, .wait] MachProcess.awaitStep :=
    awaitStep_within.mono (by decide)
  rcases hr : MachProcess.resume.run world ⟨{ w.proc with mSingleStep := true }, k⟩ with ⟨r, w₁⟩
  rw [hr] at hrun
  cases r with
  | done a =>
    obtain ⟨h₁, hrelay₁⟩ := harmed.resume hr (by simp)
    exact KeptBy.keeps (keptBy t _) hawait w₁ o w' hrun ho ⟨h₁, hrelay₁⟩
  | threw e =>
    cases hrun
    exact harmed.resume hr (by simp)
  | aborted =>
    cases hrun
    exact absurd rfl ho
  | waiting q =>
    cases hrun
    exact harmed.resume hr (by simp)

/-- Events move no message that is there; one that is sent goes on the line. -/
theorem event (h : Relays t w) (e : Kernel.Event) (he : e ≠ .exit t) :
    Relays t ⟨w.proc, w.kern.event e⟩ ∧
      w.relay.Step (Label.act sdk w (.event e)) (World.relay ⟨w.proc, w.kern.event e⟩) := by
  have hbal := h.toBalanced.event e he
  cases e with
  | send m =>
    have hline : (⟨w.proc, w.kern.event (.send m)⟩ : World).relay =
        { w.relay with incoming := w.relay.incoming ++ [w.kern.nextSerial] } := by
      simp [World.relay, Kernel.event]
    rw [hline]
    refine ⟨⟨hbal, fun n hn => ?_, h.own, h.pid⟩, .send h.sent⟩
    rw [hline, Relay.trail, ← List.append_assoc, List.mem_append, List.mem_singleton] at hn
    rcases hn with hn | rfl
    · exact (h.sent n hn).trans (Nat.lt_succ_self _)
    · exact Nat.lt_succ_self _
  | exit t' => exact ⟨⟨hbal, h.sent, h.own, h.pid⟩, .rest⟩
  | threads t' ths => exact ⟨⟨hbal, h.sent, h.own, h.pid⟩, .rest⟩

/-- **A step of an attached session** is the step of the relay that goes with its label. -/
theorem step {s s' : Session} {l : Label} (h : Relays t s.state) (hctl : s.AtMostStatus)
    (hl : l.inSession) (hexit : l ≠ .event (.exit t)) (hs : Session.Step sdk s l s') :
    Relays t s'.state ∧ s.state.relay.Step (l.act sdk s.state) s'.state.relay := by
  have hI : KeptBy [.status, .singleStep, .debug, .wait]
      fun w => Relays t w ∧ w.relay = s.state.relay := keptBy t s.state.relay
  have hrest {l : Label} (hact : l.act sdk s.state = .rest)
      (hsame : Relays t s'.state ∧ s'.state.relay = s.state.relay) :
      Relays t s'.state ∧ s.state.relay.Step (l.act sdk s.state) s'.state.relay := by
    rw [hact, hsame.2]
    exact ⟨hsame.1, .rest⟩
  have hrelease {l : Label} (hact : l.act sdk s.state = .release)
      (hrel : Relays t s'.state ∧ s'.state.relay = s.state.relay.release) :
      Relays t s'.state ∧ s.state.relay.Step (l.act sdk s.state) s'.state.relay := by
    rw [hact, hrel.2]
    exact ⟨hrel.1, .release⟩
  cases hs with
  | attach _ => exact hl.elim
  | refuse _ => exact hl.elim
  | detach => exact hl.elim
  | @whole w w' c p o ctl hc hp hafter =>
    have ho : o ≠ .aborted := by rintro rfl; cases hafter
    cases c with
    | attach _ _ => cases hc
    | detach => cases hc
    | resume => cases hc; exact hrelease rfl (h.resume hp ho)
    | stop =>
      cases hc
      exact hrest rfl (hI.keeps (stop_within.mono (by decide)) w o w' hp ho ⟨h, rfl⟩)
    | singleStep => cases hc; exact hrelease rfl (h.singleStep hp ho)
  | op hstep =>
    exact hrest rfl ((hctl _ rfl).uses.step_inv (hI.mono (by decide)) hstep ⟨h, rfl⟩).1
  | ret => exact hrest rfl ⟨h, rfl⟩
  | throw => exact hrest rfl ⟨h, rfl⟩
  | turn _ ht => exact h.turn ht
  | event e => exact h.event e fun heq => hexit (by rw [heq])

/-- The start of an attach neither suspends nor moves a message. -/
theorem attachStart {pid : ℤ} {ignored : List ExceptionMask} {r : Bool × DNBError}
    (hk : w.kern.FaultFree) (ht : MachProcess.attachPort w pid = t) (hl : w.kern.live t = true)
    (hzero : (w.kern.task t).suspendCount = 0) (hms : w.proc.mExceptionMessages = [])
    (hlog : w.kern.issued = []) (hsent : ∀ n ∈ w.relay.trail, n < w.kern.nextSerial)
    (hrun : (MachProcess.attachStart sdk pid ignored).run world w = (.done r, w')) :
    Relays t w' ∧ w'.relay = w.relay := by
  have hf := follows_of_run hrun
  obtain ⟨hpid, htask⟩ := MachProcess.attachStart_target sdk pid ignored hrun
  obtain ⟨-, hpos, -⟩ := MachProcess.attachStart_inv sdk pid ignored hrun
  have hsame (x : Part) (hx : x ∉ [Part.pid, .taskPort, .ports, .exceptionPort, .excPortInfo,
      .portTable, .thread]) : w.Same w' x := (attachStart_within sdk pid ignored).same hrun hx
  have hmsgs : w'.proc.mExceptionMessages = [] := Eq.trans (hsame .messages (by decide)) hms
  have hissued : w'.kern.issued = [] := (hsame .suspendCount (by decide)).2.trans hlog
  have hcount : (w'.kern.task t).suspendCount = 0 :=
    ((hsame .suspendCount (by decide)).1 t).trans hzero
  have hrelay : w'.relay = w.relay :=
    World.relay_of_same (hsame _ (by decide)) (hsame _ (by decide)) (hsame _ (by decide))
  refine ⟨⟨⟨hf.faultFree hk, (hf.live t).trans hl, htask.trans ht, by simp [hcount, hmsgs], ?_, ?_⟩,
    ?_, ?_, ?_⟩, hrelay⟩
  · intro l' hl'
    rw [hissued, List.suffix_nil] at hl'
    simp [hl', outstanding]
  · simp [hissued, hcount, outstanding]
  · rw [hrelay, hf.nextSerial]
    exact hsent
  · rw [hmsgs]
    exact fun m hm => absurd hm List.not_mem_nil
  · rw [hpid]
    omega

end Relays

/-- **Every session runs the relay**: in a session on a target that was not suspended and does not
end, without failures, every further step moves the messages as its label says: `Resume` and
`SingleStep` release all that is held, and a turn of the exception thread holds the message that it
takes, or refuses it when the server has no routine for it. So the target is suspended while a
message is held and only then, and the replies go out after those given before, in the order in
which the messages were sent. -/
theorem session_relays (sdk : Sdk) (w : World) (pid : ℤ) (ignored : List ExceptionMask) (t : Port)
    (s : Session) (hk : w.kern.FaultFree) (ht : MachProcess.attachPort w pid = t)
    (hl : w.kern.live t = true) (hzero : (w.kern.task t).suspendCount = 0)
    (hms : w.proc.mExceptionMessages = []) (hlog : w.kern.issued = [])
    (hsent : ∀ n ∈ w.relay.trail, n < w.kern.nextSerial)
    (h : Attached sdk (fun l => l ≠ .event (.exit t)) w pid ignored s) :
    (∀ l s', l.inSession → l ≠ .event (.exit t) → Session.Step sdk s l s' →
      s.state.relay.Step (l.act sdk s.state) s'.state.relay) ∧
    w.relay.Runs s.state.relay ∧
    ((s.state.kern.task t).suspendCount = 0 ↔ s.state.relay.held = []) ∧
    w.kern.replied <+: s.state.kern.replied ∧
    (w.relay.trail.Pairwise (· < ·) → s.state.kern.replied.Pairwise (· < ·)) := by
  obtain ⟨r, w₀, hrun, h⟩ := h
  obtain ⟨hstart, hrelay⟩ := Relays.attachStart hk ht hl hzero hms hlog hsent hrun
  have hinv : Relays t s.state ∧ s.AtMostStatus ∧ w.relay.Runs s.state.relay := by
    refine h.inv (I := fun s => Relays t s.state ∧ s.AtMostStatus ∧ w.relay.Runs s.state.relay)
      (fun s l s' hl hs hinv => ?_) ⟨hstart, ?_, hrelay ▸ .refl⟩
    · obtain ⟨hrelays, hctl, hruns⟩ := hinv
      obtain ⟨hrelays', hstep⟩ := hrelays.step hctl hl.1 hl.2 hs
      exact ⟨hrelays', hs.atMostStatus hl.1 hctl, hruns.tail ⟨_, hstep⟩⟩
    · rintro p ⟨⟩
      exact (attachStarted_within pid r.1 r.2).mono (by decide)
  obtain ⟨hrelays, hctl, hruns⟩ := hinv
  refine ⟨fun l s' hl hexit hs => (hrelays.step hctl hl hexit hs).2, hruns, ?_,
    hruns.released_prefix, fun hsorted => ?_⟩
  · rw [hrelays.count, World.relay, List.map_eq_nil_iff]
    split <;> simp_all
  · have hpair := hruns.pairwise hsorted
    rw [Relay.trail, List.append_assoc, List.pairwise_append] at hpair
    exact hpair.1

/-- The first exception has been replied to, and the second is held until the next `Resume`. -/
theorem session_relays_breakpoints : ∃ s s' : Session,
    Attached .macos (fun l => l ≠ .event (.exit 1)) ⟨{}, .oneProcess fun _ _ => none⟩ 7 [] s ∧
      s.state.relay = ⟨[], [1], [0]⟩ ∧ Relay.Runs ⟨[], [], []⟩ s.state.relay ∧
      (s.state.kern.task 1).suspendCount ≠ 0 ∧ Session.Step .macos s (.call .resume) s' ∧
      s.state.relay.Step .release s'.state.relay := by
  obtain ⟨s, hs, hrelay, s', hstep⟩ : ∃ s : Session,
      Attached .macos (fun l => l ≠ .event (.exit 1)) ⟨{}, .oneProcess fun _ _ => none⟩ 7 [] s ∧
        s.state.relay = ⟨[], [1], [0]⟩ ∧ ∃ s', Session.Step .macos s (.call .resume) s' := by
    refine ⟨_, ⟨_, _, rfl, .head ⟨.event (.send .breakpoint), ⟨trivial, by simp⟩, .event _⟩ <|
      .head ⟨.turn, ⟨trivial, by simp⟩, .turn (n := 0) rfl rfl⟩ <|
      .head ⟨.op, ⟨trivial, by simp⟩, .op (.op rfl)⟩ <|
      .head ⟨.op, ⟨trivial, by simp⟩, .op (.op rfl)⟩ <|
      .head ⟨.op, ⟨trivial, by simp⟩, .op (.op rfl)⟩ <|
      .head ⟨.op, ⟨trivial, by simp⟩, .ret⟩ <|
      .head ⟨.call .resume, ⟨trivial, by simp⟩, .whole rfl rfl rfl⟩ <|
      .head ⟨.event (.send .breakpoint), ⟨trivial, by simp⟩, .event _⟩ <|
      .head ⟨.turn, ⟨trivial, by simp⟩, .turn (n := 0) rfl rfl⟩ <|
      .single ⟨.call .stop, ⟨trivial, by simp⟩, .whole rfl rfl rfl⟩⟩, rfl, _, .whole rfl rfl rfl⟩
  obtain ⟨hsteps, hruns, hheld, -⟩ := session_relays .macos ⟨{}, .oneProcess fun _ _ => none⟩ 7 []
    1 s (fun _ _ _ => rfl) (by decide) (by decide) rfl rfl rfl (by simp [World.relay, Relay.trail,
      Kernel.oneProcess]) hs
  refine ⟨s, s', hs, hrelay, hruns, fun h0 => ?_, hstep,
    hsteps (.call .resume) s' trivial (by simp) hstep⟩
  have hnil := hheld.mp h0
  rw [hrelay] at hnil
  exact absurd hnil (by decide)

end MachDebug
