import MachDebug.Threads.StopRule

/-!
# The controller under interference

The calls of the controller, taken one operation at a time, keep the invariant of the view while the
exception thread and the target interfere. `Resume` clears the list and then owes a suspension,
which it pays before it writes the status. `SingleStep` waits for its flag, and so for a hand-over
that has ended the step.

## Main definitions

* `View.Stopped`, `View.Queued`, `View.Running`: what the controller knows before, during and after
  `Resume`

## Main results

* `idle_safe`: calls that write the status and the tracked task only
* `resume_safe`, `singleStep_safe`: the other two calls
-/

namespace MachDebug

open Program

/-! ## The controller's calls -/

section Controller

variable {strict : Prop} {t : Traced}

theorem View.Idle.stable : CtlStable strict (View.Idle strict) := fun _ _ _ _ hr h =>
  ⟨hr.resuming.trans h.1, fun hn hs => hr.msgs (h.2 hn (hr.status.symm.trans hs))⟩

/-- Outside the replies the controller writes the status and the tracked task in order. -/
theorem keeps_idle {β : Type} {o : Op β}
    (ho : ∀ x ∈ o.part, x ∈ .status :: .taskPort :: Part.hidden) :
    CtlKeeps strict (View.Idle strict) o := by
  cases o with
  | sys o =>
    refine CtlKeeps.hidden ?_
    intro x hx
    rcases List.mem_cons.mp (ho x hx) with rfl | hx'
    · cases o <;> cases hx
    · rcases List.mem_cons.mp hx' with rfl | hx'
      · cases o <;> cases hx
      · exact hx'
  | member o =>
    cases o
    case setStatus s =>
      intro t b t' he hrule hinv hp
      cases he
      refine ⟨hinv.setStatus _ s, hp.1, fun hn hs => ?_⟩
      cases show s = .stop from hs
      exact hrule.2.1 hn
    case setTaskPort p =>
      intro t b t' he hrule hinv hp
      cases he
      obtain ⟨hinv', hexc, -⟩ := hinv.setTask strict p hrule.2.1 hrule.2.2.1 hrule.2.2.2
      exact ⟨⟨hinv', hexc⟩, hp⟩
    case pushMessage m => exact absurd (ho _ rfl) (by decide)
    case clearMessages => exact absurd (ho _ rfl) (by decide)
    case setSingleStep v => exact absurd (ho _ rfl) (by decide)
    all_goals
      refine CtlKeeps.hidden ?_
      intro x hx
      cases hx <;> decide

/-- A call that writes the status and the tracked task only, in order. -/
theorem idle_safe {S : List Part} {p : Code Unit} (hp : Within S p)
    (hS : ∀ x ∈ S, x ∈ .status :: .taskPort :: Part.hidden) (hinv : t.view.Inv)
    (ht : t.view.Idle strict) : CtlSafe strict p (fun _ => View.Idle strict) t :=
  Terms.Safe.uses hp.uses View.Idle.stable (fun _ ho => keeps_idle fun x hx => hS x (ho x hx))
    (fun _ => id) hinv ht

/-- A message is queued; during a step, the flag is up. -/
structure View.Queued (stepping : Prop) (v : View) : Prop where
  status : v.status = .stop
  resuming : v.resuming = false
  msgs : v.msgs ≠ []
  flag : stepping → v.flag = true

/-- The process is stopped; during a step, a message is queued and the flag is up. -/
structure View.Stopped (strict stepping : Prop) (v : View) : Prop where
  status : v.status = .stop
  resuming : v.resuming = false
  msgs : ¬ strict → v.msgs ≠ []
  queued : stepping → v.msgs ≠ []
  flag : stepping → v.flag = true

/-- The step is under way, or it has ended. -/
def View.Steps (stepping : Prop) (v : View) : Prop := stepping → v.flag = true ∨ v.Ended

/-- The target runs again. -/
def View.Running (stepping : Prop) (v : View) : Prop :=
  (v.resuming = false ∧ v.status = .running) ∧ v.Steps stepping

variable {stepping : Prop} (hs : stepping → strict)
include hs

theorem View.Queued.stable : CtlStable strict (View.Queued stepping) := fun _ _ _ _ hr h =>
  ⟨hr.status.trans h.status, hr.resuming.trans h.resuming, hr.msgs h.msgs,
    fun hst => hr.flag (hs hst) h.msgs (h.flag hst)⟩

theorem View.Stopped.stable : CtlStable strict (View.Stopped strict stepping) := fun _ _ _ _ hr h =>
  ⟨hr.status.trans h.status, hr.resuming.trans h.resuming, fun hn => hr.msgs (h.msgs hn),
    fun hst => hr.msgs (h.queued hst), fun hst => hr.flag (hs hst) (h.queued hst) (h.flag hst)⟩

theorem View.Steps.rely {v v' : View} (hr : v.CtlRely strict v') (h : v.Steps stepping) :
    v'.Steps stepping :=
  fun hst => (h hst).elim (hr.wait (hs hst)) fun he => .inr (hr.ended (hs hst) he)

theorem stable_cleared : CtlStable strict fun v => v.resuming = true ∧ v.Steps stepping :=
  fun _ _ _ _ hr h => ⟨hr.resuming.trans h.1, h.2.rely hs hr⟩

theorem stable_resumed : CtlStable strict fun v => v.resuming = false ∧ v.Steps stepping :=
  fun _ _ _ _ hr h => ⟨hr.resuming.trans h.1, h.2.rely hs hr⟩

theorem View.Running.stable : CtlStable strict (View.Running stepping) :=
  fun _ _ _ _ hr h => ⟨⟨hr.resuming.trans h.1.1, hr.status.trans h.1.2⟩, h.2.rely hs hr⟩

/-- The last write of `Resume`. -/
theorem setRunning_safe (hinv : t.view.Inv) (ht : t.view.resuming = false ∧ t.view.Steps stepping) :
    CtlSafe strict (member (.setStatus .running)) (fun _ v => v.Inv ∧ v.Running stepping) t := by
  refine CtlSafe.op (stable_resumed hs) (fun u b u' he _ hu hp => ?_) hinv ht
  cases he
  refine ⟨hu.setStatus _ _, ?_⟩
  exact CtlSafe.ret (View.Running.stable hs) (fun _ h h' => ⟨h, h'⟩)
    (hu.setStatus strict _).1 ⟨⟨hp.1, rfl⟩, hp.2⟩

/-- The end of `Resume` pays the suspension that the cleared list leaves owed. -/
theorem resumeTask_safe (hinv : t.view.Inv) (ht : t.view.resuming = true ∧ t.view.Steps stepping) :
    CtlSafe strict MachProcess.resumeTask (fun _ v => v.Inv ∧ v.Running stepping) t := by
  unfold MachProcess.resumeTask MachTask.resume MachTask.basicInfo
  simp only [Prog.bind_eq, member_bind, sys_bind, Prog.bind_op, Prog.bind_ite, Prog.pure_eq,
    Prog.bind_ret]
  refine CtlSafe.read (stable_cleared hs) (part_all rfl) ?_ hinv ht
  rintro u tk u' he - hu hp hview
  obtain rfl : tk = u.view.task := by cases he; rfl
  -- a suspension is owed, so there is a task, and it stays
  have howed {v : View} (hv : v.resuming = true) : v.owed ≠ 0 := by simp [View.owed, hv]
  have hstay (tk : Port) : CtlStable strict fun v =>
      (v.resuming = true ∧ v.Steps stepping) ∧ v.task = tk := fun v v' _ _ hr h =>
    ⟨⟨hr.resuming.trans h.1.1, h.1.2.rely hs hr⟩, (hr.task (howed h.1.1)).1.trans h.2⟩
  rw [if_neg (hu.task (howed hp.1))]
  refine CtlSafe.read (hstay u.view.task) (part_all rfl) ?_ (hview ▸ hu)
    (by rw [hview]; exact ⟨hp, rfl⟩)
  rintro x ⟨kr, c⟩ x' he hrule hx hpx hview
  obtain rfl : kr = 0 := hrule.1
  obtain ⟨-, hc⟩ := taskInfo_ok (world_sys_proc (traced_exec he).1).2
  have hpos : c > 0 := by
    have hle := hx.owed
    have hne := howed hpx.1.1
    rw [hpx.2] at hle
    rw [hc]
    exact lt_of_lt_of_le (Nat.pos_of_ne_zero hne) hle
  rw [if_pos rfl, if_pos (show (0, c).2 > 0 from hpos)]
  refine CtlSafe.op (hstay _) (fun y kr y' he hrule hy hpy => ?_) (hview ▸ hx) (hview ▸ hpx)
  obtain rfl : kr = 0 := hrule.1
  have hview' := view_taskResume he
  rw [← hpy.2] at hview'
  obtain ⟨hinv', hexc⟩ := hy.resumed strict hpy.1.1
  rw [if_neg (by simp), hview']
  exact ⟨⟨hinv', hexc⟩, setRunning_safe hs (hview' ▸ hinv') (by rw [hview']; exact ⟨rfl, hpy.1.2⟩)⟩

/-- Where nothing was cleared and no step is under way, the end of `Resume` resumes what the
debugger has not suspended, if anything. -/
theorem resumeTask_free_safe (hstrict : strict) (hnone : ¬ stepping) (hinv : t.view.Inv)
    (ht : t.view.resuming = false) :
    CtlSafe strict MachProcess.resumeTask (fun _ v => v.Inv ∧ v.Running stepping) t := by
  have hstable : CtlStable strict fun v => v.resuming = false :=
    fun _ _ _ _ hr h => hr.resuming.trans h
  have hsteps (v : View) : v.Steps stepping := fun hst => absurd hst hnone
  unfold MachProcess.resumeTask MachTask.resume MachTask.basicInfo
  simp only [Prog.bind_eq, member_bind, sys_bind, Prog.bind_op, Prog.bind_ite, Prog.pure_eq,
    Prog.bind_ret]
  refine CtlSafe.read hstable (part_all rfl) ?_ hinv ht
  rintro u tk u' - - hu hp hview
  split
  · rw [if_pos (by decide)]
    exact CtlSafe.throw hstable (fun v h => ⟨h, fun hn => absurd hstrict hn⟩) (hview ▸ hu)
      (hview ▸ hp)
  refine CtlSafe.read hstable (part_all rfl) ?_ (hview ▸ hu) (hview ▸ hp)
  rintro x ⟨kr, c⟩ x' - hrule hx hpx hview
  obtain rfl : kr = 0 := hrule.1
  rw [if_pos rfl]
  split
  · refine CtlSafe.op hstable (fun y kr y' he hrule hy hpy => ?_) (hview ▸ hx) (hview ▸ hpx)
    obtain rfl : kr = 0 := hrule.1
    have hview' := view_taskResume he
    obtain ⟨hm, hsusp⟩ := (hrule.2 hstrict).resolve_left (by simp [hpy])
    obtain ⟨hinv', hexc⟩ := hy.resumedFree strict tk hm hsusp
    rw [if_neg (by simp), hview']
    exact ⟨⟨hinv', hexc⟩, setRunning_safe hs (hview' ▸ hinv') ⟨by rw [hview'], hsteps _⟩⟩
  · rw [if_neg (by simp)]
    exact setRunning_safe hs (hview ▸ hx) ⟨by rw [hview]; exact hpx, hsteps _⟩

/-- `ReplyToAllExceptions` clears a list that is not empty, and the rest of `Resume` follows. -/
theorem replies_safe (hinv : t.view.Inv) (ht : t.view.Stopped strict stepping) :
    CtlSafe strict (MachProcess.replyToAllExceptions.bind fun _ => MachProcess.resumeTask)
      (fun _ v => v.Inv ∧ v.Running stepping) t := by
  unfold MachProcess.replyToAllExceptions
  simp only [Prog.bind_eq, member_bind, Prog.bind_op, Prog.bind_assoc]
  refine CtlSafe.read (View.Stopped.stable hs) (part_all rfl) ?_ hinv ht
  rintro u st u' he - hu hp hview
  obtain rfl : st = .stop := by cases he; exact hp.status
  simp only [decide_true, Prog.assert_true, Prog.bind_ret]
  refine CtlSafe.read (View.Stopped.stable hs) (part_all rfl) ?_ (hview ▸ hu)
    (hview ▸ hp)
  rintro x e x' he - hx hpx hview
  obtain rfl : e = x.view.msgs.isEmpty := by cases he; rfl
  cases hm : x.view.msgs with
  | nil =>
    -- only the rules for single steps leave a stopped process without a message
    have hstrict : strict := by
      by_contra hn
      exact hpx.msgs hn hm
    have hnone : ¬ stepping := fun hst => hpx.queued hst hm
    simp only [List.isEmpty_nil, Bool.not_true, Bool.false_eq_true, if_false, Prog.pure_eq,
      Prog.bind_ret]
    exact resumeTask_free_safe hs hstrict hnone (hview ▸ hx) (by rw [hview]; exact hpx.resuming)
  | cons m ms =>
    have hqueued : x.view.Queued stepping :=
      ⟨hpx.status, hpx.resuming, by simp [hm], hpx.flag⟩
    simp only [List.isEmpty_cons, Bool.not_false, if_true, Prog.bind_op]
    refine CtlSafe.read (View.Queued.stable hs) (part_all rfl) ?_
      (hview ▸ hx) (hview ▸ hqueued)
    rintro y ms y' - - hy hpy hview
    simp only [Prog.bind_assoc, member_bind]
    -- the replies are not part of the view
    refine CtlSafe.bind_uses (replyEach_within ms).uses (View.Queued.stable hs)
      (fun o ho => CtlKeeps.hidden fun x hx => ?_) (fun v hv => ⟨hv.resuming, fun _ _ => hv.msgs⟩)
      (fun _ z hz hpz => ?_) (hview ▸ hy) (hview ▸ hpy)
    · rw [List.mem_singleton.mp (ho x hx)]
      decide
    refine CtlSafe.op (View.Queued.stable hs) (fun z b z' he hrule hz hpz => ?_) hz hpz
    cases he
    obtain ⟨hinv', hexc⟩ := hz.clear strict hpz.msgs hrule.2 hpz.resuming
    exact ⟨⟨hinv', hexc⟩, resumeTask_safe hs hinv' ⟨rfl, fun hst => .inl (hpz.flag hst)⟩⟩

/-- `Resume` is safe where, during a step, a message is queued and the flag is up. -/
theorem resume_safe (hinv : t.view.Inv) (ht : t.view.Idle strict)
    (hstep : stepping → t.view.msgs ≠ [] ∧ t.view.flag = true) :
    CtlSafe strict MachProcess.resume (fun _ v => v.Inv ∧ v.Running stepping) t := by
  have hstable : CtlStable strict fun v =>
      v.Idle strict ∧ (stepping → v.msgs ≠ [] ∧ v.flag = true) := fun v v' hv hv' hr h =>
    ⟨View.Idle.stable v v' hv hv' hr h.1, fun hst => ⟨hr.msgs (h.2 hst).1,
      hr.flag (hs hst) (h.2 hst).1 (h.2 hst).2⟩⟩
  unfold MachProcess.resume
  simp only [Prog.bind_eq, member_bind]
  refine CtlSafe.read hstable (part_all rfl) ?_ hinv ⟨ht, hstep⟩
  rintro u st u' he - hu hp hview
  obtain rfl : st = u.view.status := by cases he; rfl
  -- the assertion fails unless the process is stopped
  by_cases hst : u.view.status = .stop
  · simp only [hst, decide_true, Prog.assert_true, Prog.bind_ret]
    refine replies_safe hs (hview ▸ hu) ?_
    rw [hview]
    exact ⟨hst, hp.1.1, fun hn => hp.1.2 hn hst, fun h => (hp.2 h).1, fun h => (hp.2 h).2⟩
  · simp only [hst, decide_false, Prog.assert_false, Prog.bind_abort]
    trivial

omit hs

/-- Arming a thread while messages are queued. -/
theorem keeps_arm {β : Type} {o : Op β} (ho : ∀ x ∈ o.part, x ∈ [Part.debug]) :
    CtlKeeps strict (View.Queued stepping) o := by
  cases o with
  | member o =>
    refine CtlKeeps.hidden ?_
    intro x hx
    cases List.mem_singleton.mp (ho x hx)
    cases o <;> cases hx
  | sys o =>
    cases o
    case threadSetState th d =>
      intro t b t' he hrule hinv hp
      obtain rfl : b = 0 := hrule.1
      rw [view_threadSetState he]
      exact ⟨hinv.arm _ th d fun _ => hp.msgs, hp.status, hp.resuming, hp.msgs, hp.flag⟩
    all_goals
      refine CtlKeeps.hidden ?_
      intro x hx
      cases List.mem_singleton.mp (ho x hx)
      cases hx

/-- The busy wait of `SingleStep` ends when the step has ended, and the status is written with the
message queued. -/
theorem awaitStep_safe (hinv : t.view.Inv) (ht : t.view.Running strict) :
    CtlSafe strict MachProcess.awaitStep
      (fun _ v => v.Idle strict ∧ (strict → v.msgs ≠ [] ∧ v.Ended)) t := by
  refine CtlSafe.spin (View.Running.stable fun h : strict => h)
    (fun u b u' he _ hu hp => ?_) hinv ht
  obtain rfl : b = u.view.flag := by cases he; rfl
  have hview := view_controller he (part_all rfl)
  refine ⟨by rw [hview]; exact ⟨hu, .refl _ _⟩, ?_⟩
  cases hflag : u.view.flag with
  | true =>
    simp only [if_true]
    rw [hview]
    exact hp
  | false =>
    simp only [Bool.false_eq_true, if_false]
    -- the flag was taken down by a hand-over that has ended the step
    have hended : strict → u.view.Ended := fun hs => (hp.2 hs).resolve_left (by simp [hflag])
    refine CtlSafe.op (o := .member (.setStatus .stop)) (k := .ret)
      (Q := fun _ v => v.Idle strict ∧ (strict → v.msgs ≠ [] ∧ v.Ended))
      (P := fun v => v.resuming = false ∧ (strict → v.Ended))
      (fun _ _ _ _ hr h => ⟨hr.resuming.trans h.1, fun hs => hr.ended hs (h.2 hs)⟩)
      (fun x b x' he hrule hx hp => ?_) (hview ▸ hu) (by rw [hview]; exact ⟨hp.1.1, hended⟩)
    have hqueued : x.view.msgs ≠ [] := by
      by_cases hstrict : strict
      · exact (hp.2 hstrict).queued (hrule.2.2 hstrict)
      · exact hrule.2.1 hstrict
    cases he
    refine ⟨hx.setStatus _ _, ?_⟩
    refine CtlSafe.ret (P := fun v => v.resuming = false ∧ v.msgs ≠ [] ∧ (strict → v.Ended))
      (fun _ _ _ _ hr h => ⟨hr.resuming.trans h.1, hr.msgs h.2.1, fun hs => hr.ended hs (h.2.2 hs)⟩)
      (fun v _ h => ⟨⟨h.1, fun _ _ => h.2.1⟩, fun hs => ⟨h.2.1, h.2.2 hs⟩⟩)
      (hx.setStatus strict _).1 ⟨hp.1, hqueued, hp.2⟩

/-- `SingleStep` is safe, and its step has ended when it returns. -/
theorem singleStep_safe (hinv : t.view.Inv) (ht : t.view.Idle strict) :
    CtlSafe strict MachProcess.singleStep
      (fun _ v => v.Idle strict ∧ (strict → v.msgs ≠ [] ∧ v.Ended)) t := by
  have hstable : CtlStable strict fun v => v.Idle strict ∧ v.status = .stop :=
    fun v v' hv hv' hr h => ⟨View.Idle.stable v v' hv hv' hr h.1, hr.status.trans h.2⟩
  unfold MachProcess.singleStep MachProcess.armAndResume MachTask.enableSingleStep
  simp only [Prog.bind_eq, member_bind, Prog.bind_op, Prog.bind_assoc]
  refine CtlSafe.read View.Idle.stable (part_all rfl) ?_ hinv ht
  rintro u st u' he - hu hp hview
  obtain rfl : st = u.view.status := by cases he; rfl
  by_cases hst : u.view.status = .stop
  · simp only [hst, decide_true, Prog.assert_true, Prog.bind_ret]
    refine CtlSafe.op hstable (fun x b x' he hrule hx hpx => ?_) (hview ▸ hu)
      (by rw [hview]; exact ⟨hp, hst⟩)
    have hqueued : x.view.msgs ≠ [] := by
      by_cases hstrict : strict
      · exact hrule.2 hstrict
      · exact hpx.1.2 hstrict hpx.2
    cases he
    refine ⟨hx.setFlag _ _, ?_⟩
    refine CtlSafe.bind_uses (updateSingleStep_within _).uses
      (View.Queued.stable fun h : strict => h) (fun o ho => keeps_arm ho)
      (fun v hv => ⟨hv.resuming, fun _ _ => hv.msgs⟩) (fun _ y hy hpy => ?_)
      (hx.setFlag strict _).1 ⟨hpx.2, hpx.1.1, hqueued, fun _ => rfl⟩
    -- the step is under way when the target runs again
    have hresume := resume_safe (fun h : strict => h) hy
      ⟨hpy.resuming, fun _ _ => hpy.msgs⟩ fun h => ⟨hpy.msgs, hpy.flag h⟩
    exact Prog.Safe.bind (hresume.mono (fun _ _ h => awaitStep_safe h.1 h.2) fun _ _ => id)
  · simp only [hst, decide_false, Prog.assert_false, Prog.bind_abort]
    trivial

end Controller

end MachDebug
