import MachDebug.Threads.Controller
import MachDebug.Threads.Delivery

/-!
# Stopping and stepping in every interleaving

In every interleaving of the controller's calls with the exception thread and the target side, a
process in the status `STOP` is suspended and a single step that returns has been handed over,
provided the accesses of the two threads to the members are in order.

## Main results

* `stopDiscipline_sound`: both threads keep the discipline
* `stopped_of_stop`: in the status `STOP` the target is suspended
* `singleStep_handed_over`: after a single step the message that ended it is queued, and the target
  is suspended and disarmed
-/

namespace MachDebug

open Program

/-! ## The assertions are justified -/

theorem view_exit (t : Traced) (tk : Port) : (t.event (.exit tk)).view = t.view := by
  have htask (p : Port) : ((t.event (.exit tk)).world.kern.task p).suspendCount =
      (t.world.kern.task p).suspendCount ∧
      ((t.event (.exit tk)).world.kern.task p).threads = (t.world.kern.task p).threads := by
    rcases eq_or_ne p tk with rfl | hne <;> simp [Traced.event, Kernel.event, Kernel.setTask, *]
  ext1 <;> try rfl
  · exact funext fun p => (htask p).1
  · exact funext fun p => (htask p).2

theorem view_threads (t : Traced) (tk : Port) (ths : List Port) :
    (t.event (.threads tk ths)).view =
      { t.view with threads := Function.update t.view.threads tk ths } := by
  have htask (p : Port) : ((t.event (.threads tk ths)).world.kern.task p).suspendCount =
      (t.world.kern.task p).suspendCount ∧
      ((t.event (.threads tk ths)).world.kern.task p).threads =
        Function.update t.view.threads tk ths p := by
    rcases eq_or_ne p tk with rfl | hne <;>
      simp [Traced.event, Kernel.event, Kernel.setTask, Traced.view, *]
  ext1 <;> try rfl
  · exact funext fun p => (htask p).1
  · exact funext fun p => (htask p).2

/-- The target side keeps what both threads rely on. -/
theorem event_keeps (strict : Prop) {t : Traced} {e : Kernel.Event}
    (he : e.Enabled t.world.kern) (hinv : t.view.Inv) :
    (t.event e).view.Inv ∧ t.view.CtlRely strict (t.event e).view ∧
      t.view.ExcRely strict (t.event e).view := by
  cases e with
  | send m => exact ⟨hinv, .refl _ _, .refl _ _⟩
  | exit tk =>
    rw [view_exit]
    exact ⟨hinv, .refl _ _, .refl _ _⟩
  | threads tk ths =>
    rw [view_threads]
    exact hinv.changeThreads strict ths he

/-- **Both threads keep the discipline**, and so does the target side. -/
theorem stopDiscipline_sound (sdk : Sdk) (strict : Prop) :
    (stopDiscipline strict).Sound sdk (stopRule strict) where
  idle_stable := View.Idle.stable
  returned_idle _ _ _ h := h.1
  waiting_stable := View.Waiting.stable
  call c hc t hinv ht := by
    have hplain {p : Code Unit} (h : CtlSafe strict p (fun _ => View.Idle strict) t)
        (hne : c ≠ .singleStep) : (stopDiscipline strict).CtlSafe (stopRule strict)
          (fun _ => (stopDiscipline strict).returned c) p t :=
      Prog.Safe.mono h (fun _ _ hi => ⟨hi, fun he => absurd he hne⟩) fun _ _ => id
    cases c with
    | attach pid ignored =>
      exact hplain (idle_safe (attach_within sdk pid ignored) (by decide) hinv ht) (by simp)
    | resume =>
      refine hplain (Prog.Safe.mono (resume_safe (fun h : False => h.elim) hinv ht
        fun h => h.elim) (fun _ _ h => ?_) fun _ _ => id) (by simp)
      exact ⟨h.2.1.1, fun _ hs => by rw [h.2.1.2] at hs; cases hs⟩
    | stop => exact hplain (idle_safe stop_within (by decide) hinv ht) (by simp)
    | singleStep =>
      exact Prog.Safe.mono (singleStep_safe hinv ht) (fun _ _ h => ⟨h.1, fun _ => h.2⟩)
        fun _ _ => id
    | detach => exact absurd rfl hc
  fetch l t hinv ht := by
    refine Prog.Safe.mono (fetch_safe sdk l hinv ht) (fun r u h => ?_) fun _ _ => id
    unfold Discipline.Ends
    split <;> exact h
  hand m t hinv h := ⟨(hinv.hand strict m h.1).1, (hinv.hand strict m h.1).2, rfl, h.2⟩
  deliver m t hinv ht := deliver_safe hinv ht
  event e t he hinv := event_keeps strict he hinv

/-- The discipline holds of a new object. -/
theorem fresh_holds (strict : Prop) (k : Kernel) :
    (stopDiscipline strict).Holds (stopRule strict) (System.fresh k) where
  inv := ⟨(nomatch ·), Nat.zero_le _, fun h => absurd rfl h⟩
  ctl := ⟨rfl, fun _ => (nomatch ·)⟩
  exc := ⟨rfl, rfl⟩

/-! ## `STOP` means stopped -/

/-- The number of suspensions of the tracked task. -/
def System.suspendCount (s : System) : ℕ :=
  (s.state.world.kern.task s.state.world.proc.mTask.mTask).suspendCount

/-- **In the status `STOP` the target is suspended**, in every run with the accesses in order. -/
theorem stopped_of_stop (sdk : Sdk) (k : Kernel) (s : System)
    (hrun : System.Runs sdk (stopRule False) (System.fresh k) s) (hidle : s.ctl.isIdle = true)
    (hstop : s.state.world.proc.mStatus = .stop) : 1 ≤ s.suspendCount := by
  have hs := (stopDiscipline_sound sdk False).runs hrun (fresh_holds False k)
  obtain ⟨ctl, exc, t⟩ := s
  cases ctl with
  | inside c p => cases hidle
  | idle =>
    have hctl : t.view.Idle False := hs.ctl
    have hinv : t.view.Inv := hs.inv
    exact hinv.one_le (hctl.2 not_false hstop)

theorem stopped_of_stop_attached : ∃ s : System,
    System.Runs .macos (stopRule False) (System.fresh (.oneProcess fun _ _ => none)) s ∧
      s.ctl.isIdle = true ∧ s.state.world.proc.mStatus = .stop ∧ 1 ≤ s.suspendCount := by
  obtain ⟨s, hrun, hs⟩ := System.exists_runs .macos (stopRule False)
    (System.fresh (.oneProcess fun _ _ => none)) (attachMoves [.breakpoint] 13)
    (fun s => s.ctl.isIdle && decide (s.state.world.proc.mStatus = .stop)) (by decide +kernel)
  simp only [Bool.and_eq_true, decide_eq_true_eq] at hs
  exact ⟨s, hrun, hs.1, hs.2, stopped_of_stop _ _ s hrun hs.1 hs.2⟩

/-- `Attach` returns in the status `STOP` before the first message has arrived. -/
theorem attach_returns_unstopped : ¬ ∀ s : System,
    System.Runs .macos callsSucceed (System.fresh (.oneProcess fun _ _ => none)) s →
      s.ctl.isIdle = true → s.state.world.proc.mStatus = .stop → 1 ≤ s.suspendCount := by
  intro h
  obtain ⟨s, hrun, hs⟩ := System.exists_runs .macos callsSucceed
    (System.fresh (.oneProcess fun _ _ => none)) (attachMoves [.breakpoint] 0)
    (fun s => s.ctl.isIdle && decide (s.state.world.proc.mStatus = .stop) &&
      decide (s.suspendCount = 0)) (by decide +kernel)
  simp only [Bool.and_eq_true, decide_eq_true_eq] at hs
  have hpos := h s hrun hs.1.1 hs.1.2
  rw [hs.2] at hpos
  exact absurd hpos (by decide)

/-! ## The hand-over of a single step -/

/-- The message that ended the last single step is queued, and the target is suspended and
disarmed. -/
structure System.HandedOver (s : System) : Prop where
  queued : ∃ m, s.state.trace.ender = some m ∧ m ∈ s.state.world.proc.mExceptionMessages
  suspended : 1 ≤ s.suspendCount
  disarmed : ∀ th ∈ (s.state.world.kern.task s.state.world.proc.mTask.mTask).threads,
    (s.state.world.kern.debug th).mdscrEl1.getLsbD 0 = false

/-- **A single step that returns has been handed over**, in every run with the accesses in order. -/
theorem singleStep_handed_over (sdk : Sdk) (k : Kernel) (s : System)
    (hrun : System.Runs sdk (stopRule True) (System.fresh k) s)
    (hret : s.ctl.stepReturns = true) : s.HandedOver := by
  have hs := (stopDiscipline_sound sdk True).runs hrun (fresh_holds True k)
  obtain ⟨ctl, exc, t⟩ := s
  obtain rfl : ctl = .inside .singleStep (.ret ()) := Controller.eq_of_stepReturns hret
  have hsafe : CtlSafe True (.ret ()) (fun _ v => v.Idle True ∧
    (Call.singleStep = .singleStep → True → v.msgs ≠ [] ∧ v.Ended)) t := hs.ctl
  obtain ⟨-, hstep⟩ := hsafe.ret_post
  -- the ender is queued or still in flight, and it is not in flight once the list is not empty
  obtain ⟨hne, m, hm, hqueued, -, hdis⟩ := hstep rfl trivial
  have hinv : t.view.Inv := hs.inv
  exact ⟨⟨m, hm, hqueued.resolve_right fun h => hne h.2⟩, hinv.one_le hne, hdis⟩

/-- A single step from the first message of `attachMoves`, ended by a second message after `n`
steps of the exception thread. -/
def stepMoves (n : ℕ) : List Move :=
  attachMoves [.breakpoint] 13 ++ .call .singleStep :: (List.replicate 18 .ctl ++
    .event (.send .breakpoint) :: (List.replicate n .exc ++ [.ctl, .ctl]))

theorem singleStep_handed_over_breakpoint : ∃ s : System,
    System.Runs .macos (stopRule True) (System.fresh (.oneProcess fun _ _ => none)) s ∧
      s.ctl.stepReturns = true ∧ s.HandedOver := by
  obtain ⟨s, hrun, hs⟩ := System.exists_runs .macos (stopRule True)
    (System.fresh (.oneProcess fun _ _ => none)) (stepMoves 18)
    (fun s => s.ctl.stepReturns) (by decide +kernel)
  exact ⟨s, hrun, hs, singleStep_handed_over _ _ s hrun hs⟩

/-- The exception thread takes the flag down before its `push_back`, and `SingleStep` returns in
between. -/
theorem singleStep_returns_unqueued : ¬ ∀ s : System,
    System.Runs .macos callsSucceed (System.fresh (.oneProcess fun _ _ => none)) s →
      s.ctl.stepReturns = true → s.HandedOver := by
  intro h
  obtain ⟨s, hrun, hs⟩ := System.exists_runs .macos callsSucceed
    (System.fresh (.oneProcess fun _ _ => none)) (stepMoves 16)
    (fun s => s.ctl.stepReturns && s.state.world.proc.mExceptionMessages.isEmpty)
    (by decide +kernel)
  simp only [Bool.and_eq_true, List.isEmpty_iff] at hs
  obtain ⟨m, -, hm⟩ := (h s hrun hs.1).queued
  rw [hs.2] at hm
  cases hm

end MachDebug
