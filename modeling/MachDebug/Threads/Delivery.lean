import MachDebug.Threads.StopRule

/-!
# The exception thread under interference

The two halves of an iteration of the exception thread, taken one operation at a time, keep the
invariant of the view while the controller and the target interfere. A fetch changes the tracked
task at most. A hand-over suspends the task when the list is empty, disarms its threads when a step
is under way, and queues the message.

## Main definitions

* `View.Delivering m v`: the hand-over of `m` is past its test, and the task is held
* `View.Disarming strict ths v`: the threads in `ths` are yet to be disarmed

## Main results

* `fetch_safe`: the fetch
* `deliver_safe`: the hand-over
-/

namespace MachDebug

open Program

variable {strict : Prop} {t : Traced}

/-! ### Fetching -/

/-- The operations of a fetch. -/
def Op.Fetches {β : Type} (o : Op β) : Prop :=
  (∀ x ∈ o.part, x ∈ [Part.queue, .taskPort]) ∧ o.isTest = false

theorem isValid_fetches (t : Port) : (MachTask.isValid t).Uses Op.Fetches := by
  unfold MachTask.isValid MachTask.basicInfo
  split
  · exact ⟨⟨part_all rfl, rfl⟩, fun _ => trivial⟩
  · trivial

theorem catchExceptionRaise_fetches (sdk : Sdk) (msg : ExcMsg) (t : Port) :
    (Message.catchExceptionRaise sdk msg t).Uses Op.Fetches := by
  have hraise (g : Data) : (catchMachExceptionRaise msg g).Uses Op.Fetches := by
    unfold catchMachExceptionRaise
    simp only
    split
    · trivial
    · refine (isValid_fetches _).bind ?_
      intro valid
      split
      · split <;> trivial
      · trivial
  refine Prog.Uses.bind ?_ fun _ => trivial
  unfold machExcServer
  split
  · exact (hraise _).bind fun _ => trivial
  all_goals trivial

theorem fetch_fetches (sdk : Sdk) (l : ExceptionThread.Locals) :
    (ExceptionThread.fetch sdk l).Uses Op.Fetches := by
  have hread {β : Type} (o : MemberOp β) (ho : o.part = none) (ht : (Op.member o).isTest = false) :
      (member o).Uses Op.Fetches := ⟨⟨by simp [Op.part, ho], ht⟩, fun _ => trivial⟩
  have hreceived (msg : ExcMsg) : (ExceptionThread.fetchReceived sdk l msg).Uses Op.Fetches := by
    refine (catchExceptionRaise_fetches sdk msg l.task).bind ?_
    intro r
    simp only
    split
    · split
      · exact ⟨⟨part_all rfl, rfl⟩, fun _ => trivial⟩
      · trivial
    · trivial
  have hvalid (l : ExceptionThread.Locals) : (MachTask.isValid l.task >>= fun valid =>
      if valid = true then return .again l else return .exit : Code ExceptionThread.Turn).Uses
        Op.Fetches :=
    (isValid_fetches _).bind fun _ => by split <;> trivial
  have hnot (kr : KernReturn) : (ExceptionThread.notReceived l kr).Uses Op.Fetches := by
    unfold ExceptionThread.notReceived
    split
    · refine (hread .exceptionPort rfl rfl).bind ?_
      intro p
      split
      · trivial
      · exact hvalid l
    · split
      · split
        · exact hvalid _
        · trivial
      · trivial
  unfold ExceptionThread.fetch
  refine (hread .exceptionPort rfl rfl).bind ?_
  intro p
  split
  · trivial
  refine Prog.Uses.bind ⟨⟨part_all rfl, rfl⟩, fun _ => trivial⟩ ?_
  intro c
  split
  · trivial
  refine (hread .exceptionPort rfl rfl).bind ?_
  intro p
  refine Prog.Uses.bind ⟨⟨part_all rfl, rfl⟩, fun _ => trivial⟩ ?_
  intro r
  cases r with
  | ok msg => exact hreceived msg
  | error kr => exact (hnot kr).bind fun _ => trivial

theorem View.Waiting.stable : ExcStable strict View.Waiting :=
  fun _ _ _ _ hr h => ⟨hr.inFlight.trans h.1, hr.tested.trans h.2⟩

/-- A fetch changes the tracked task in order, and nothing else that the view shows. -/
theorem fetch_safe (sdk : Sdk) (l : ExceptionThread.Locals) (hinv : t.view.Inv)
    (ht : t.view.Waiting) :
    ExcSafe strict (ExceptionThread.fetch sdk l) (fun _ => View.Waiting) t := by
  refine Terms.Safe.uses (T := (stopDiscipline strict).excTerms) (E := fun _ => True)
    (fetch_fetches sdk l) View.Waiting.stable ?_ (fun _ _ => trivial) hinv ht
  intro β o ho u b u' he hrule hu hw
  by_cases hpart : o.part = some .taskPort
  -- the exec: the tracked task changes while nothing is owed
  · have hset : ∃ p, u'.view = { u.view with task := p } ∧ u.view.msgs = [] ∧
        u.view.resuming = false := by
      cases o with
      | sys o => cases o <;> cases hpart
      | member o =>
        cases o
        case setTaskPort p =>
          cases he
          exact ⟨p, rfl, hrule.2.1, hrule.2.2.2⟩
        all_goals cases hpart
    obtain ⟨p, hview, hm, hr⟩ := hset
    obtain ⟨hinv', -, hctl⟩ := View.Inv.setTask strict hu p hm hw.2 hr
    have hgoal : (u'.view.Inv ∧ u.view.CtlRely strict u'.view) ∧ u'.view.Waiting := by
      rw [hview]
      exact ⟨⟨hinv', hctl⟩, hw⟩
    exact hgoal
  · have hhidden : ∀ x ∈ o.part, x ∈ Part.hidden := fun x hx => by
      rcases List.mem_cons.mp (ho.1 x hx) with rfl | hx'
      · decide
      · exact absurd (List.mem_singleton.mp hx' ▸ hx) hpart
    exact Terms.Keeps.of_view (T := (stopDiscipline strict).excTerms) (View.CtlRely.refl strict)
      (fun _ _ _ he => view_exception he hhidden ho.2) u b u' he hrule hu hw

/-! ### Handing over -/

/-- The hand-over is past its test, and the task is held for this message or for earlier ones. -/
structure View.Delivering (m : Message) (v : View) : Prop where
  inFlight : v.inFlight = some m
  tested : v.tested = true
  held : v.msgs ≠ [] ∨ v.suspended = true

/-- The threads in `ths` are yet to be disarmed. -/
def View.Disarming (strict : Prop) (ths : List Port) (v : View) : Prop :=
  strict → v.suspended = true ∧
    ∀ th ∈ v.threads v.task, th ∈ ths ∨ (v.debug th).mdscrEl1.getLsbD 0 = false

variable {m : Message}

theorem View.Delivering.stable : ExcStable strict (View.Delivering m) := fun _ _ _ _ hr h =>
  ⟨hr.inFlight.trans h.inFlight, hr.tested.trans h.tested,
    h.held.imp (hr.queued h.tested) fun hs => hr.suspended.trans hs⟩

theorem View.Disarming.rely {ths : List Port} {v v' : View} (hr : v.ExcRely strict v')
    (h : v.Disarming strict ths) : v'.Disarming strict ths := by
  intro hs
  obtain ⟨hsusp, hths⟩ := h hs
  obtain ⟨hd, hth⟩ := hr.armed hs hsusp
  refine ⟨hr.suspended.trans hsusp, ?_⟩
  rw [hd, hth]
  exact hths

theorem disarming_stable (ths : List Port) :
    ExcStable strict fun v => v.Delivering m ∧ v.Disarming strict ths :=
  fun v v' hv hv' hr h => ⟨h.1.stable v v' hv hv' hr, h.2.rely hr⟩

/-- The mask of `DisableSingleStep` takes the lowest bit out. -/
theorem disarmed_bit (r : BitVec 64) :
    (r &&& (~~~MachTask.ssEnable).setWidth 64).getLsbD 0 = false := by
  simp [MachTask.ssEnable]

/-- The loop of `DisableSingleStep` disarms one thread after the other. -/
theorem updateThreads_safe (ths : List Port) (hinv : t.view.Inv)
    (ht : t.view.Delivering m ∧ t.view.Disarming strict ths) :
    ExcSafe strict
      (MachTask.updateThreads (fun r => r &&& (~~~MachTask.ssEnable).setWidth 64) ths)
      (fun _ v => v.Inv ∧ v.Delivering m ∧ v.Disarming strict []) t := by
  induction ths generalizing t with
  | nil => exact ExcSafe.ret (disarming_stable (m := m) []) (fun _ h h' => ⟨h, h'⟩) hinv ht
  | cons th ths ih =>
    unfold MachTask.updateThreads
    simp only [Prog.bind_eq, sys_bind]
    refine ExcSafe.read (disarming_stable (m := m) (th :: ths)) (part_all rfl) rfl
      ?_ hinv ht
    rintro u ⟨kr, dbg⟩ u' - hrule hu hp hview
    obtain rfl : kr = 0 := hrule.1
    simp only [ne_eq, not_true_eq_false, if_false]
    refine ExcSafe.op (disarming_stable (m := m) (th :: ths)) (fun x kr x' he hrule hx hpx => ?_)
      (hview ▸ hu) (hview ▸ hp)
    obtain rfl : kr = 0 := hrule.1
    have hview' := view_threadSetState he
    obtain ⟨hinv', hctl⟩ := hx.disarm strict th
      { dbg with mdscrEl1 := dbg.mdscrEl1 &&& (~~~MachTask.ssEnable).setWidth 64 }
      (disarmed_bit _)
    simp only [not_true_eq_false, if_false]
    refine ⟨by rw [hview']; exact ⟨hinv', hctl⟩, ih (hview' ▸ hinv') ?_⟩
    rw [hview']
    refine ⟨⟨hpx.1.inFlight, hpx.1.tested, hpx.1.held⟩, fun hs => ⟨(hpx.2 hs).1, fun y hy => ?_⟩⟩
    rcases eq_or_ne y th with rfl | hne
    · right
      simpa using disarmed_bit _
    · simpa [hne] using (hpx.2 hs).2 y hy

/-- `DisableSingleStep` disarms every thread of a task that stays suspended. -/
theorem disableSingleStep_safe (hinv : t.view.Inv)
    (ht : t.view.Delivering m ∧ (strict → t.view.suspended = true)) :
    ExcSafe strict MachTask.disableSingleStep
      (fun _ v => v.Inv ∧ v.Delivering m ∧ v.Disarming strict []) t := by
  have hstable (tk : Port) : ExcStable strict fun v =>
      (v.Delivering m ∧ (strict → v.suspended = true)) ∧ v.task = tk := fun v v' hv hv' hr h =>
    ⟨⟨h.1.1.stable v v' hv hv' hr, fun hs => hr.suspended.trans (h.1.2 hs)⟩,
      (hr.task h.1.1.tested).trans h.2⟩
  unfold MachTask.disableSingleStep MachTask.updateSingleStep
  simp only [Prog.bind_eq, member_bind, sys_bind]
  refine ExcSafe.read (hstable t.view.task) (part_all rfl) rfl ?_ hinv ⟨ht, rfl⟩
  rintro u tk u' he - hu hp hview
  obtain rfl : tk = u.view.task := by cases he; rfl
  refine ExcSafe.op (hstable u.view.task) (fun x r x' he hrule hx hpx => ?_) (hview ▸ hu)
    (by rw [hview]; exact ⟨hp.1, rfl⟩)
  obtain ⟨kr, ths⟩ := r
  obtain rfl : kr = 0 := hrule.1
  have hview' := view_exception he (part_all rfl) rfl
  -- the task stays suspended, so its threads stay as well
  have hths : ths = x.view.threads x.view.task := by
    rw [hpx.2]
    exact taskThreads_ok (world_sys_proc (traced_exec he).1).2
  simp only [ne_eq, not_true_eq_false, if_false]
  refine ⟨by rw [hview']; exact ⟨hx, .refl _ _⟩, updateThreads_safe ths (hview' ▸ hx) ?_⟩
  rw [hview']
  exact ⟨hpx.1.1, fun hs => ⟨hpx.1.2 hs, fun th hth => .inl (hths ▸ hth)⟩⟩

/-- The `push_back` ends the hand-over. -/
theorem pushMessage_safe (hinv : t.view.Inv) (ht : t.view.Delivering m) :
    ExcSafe strict (member (.pushMessage m)) (fun _ => View.Waiting) t := by
  refine ExcSafe.op View.Delivering.stable (fun u b u' he _ hu hp => ?_) hinv ht
  cases he
  have hpush := hu.push strict hp.inFlight hp.held
  exact ⟨hpush, ExcSafe.ret View.Waiting.stable (fun _ _ => id) hpush.1 ⟨rfl, rfl⟩⟩

/-- The part of the hand-over after the suspension. -/
theorem disarmAndQueue_safe (hinv : t.view.Inv) (ht : t.view.Delivering m) :
    ExcSafe strict (MachProcess.disarmAndQueue m) (fun _ => View.Waiting) t := by
  unfold MachProcess.disarmAndQueue
  simp only [Prog.bind_eq, member_bind]
  refine ExcSafe.op View.Delivering.stable (fun u b u' he hrule hu hp => ?_) hinv ht
  have hview := view_exception he (part_all rfl) rfl
  refine ⟨by rw [hview]; exact ⟨hu, .refl _ _⟩, ?_⟩
  cases b with
  | false => exact pushMessage_safe (hview ▸ hu) (hview ▸ hp)
  | true =>
    simp only [if_true]
    -- during a step the list is empty here, so that this hand-over holds the task
    have hsusp (hs : strict) : u.view.suspended = true := hp.held.resolve_left
      fun hne => hne (hrule.2 hs)
    refine Prog.Safe.bind ((disableSingleStep_safe (m := m) (hview ▸ hu)
      (by rw [hview]; exact ⟨hp, hsusp⟩)).mono (fun _ x h => ?_) fun _ _ => id)
    refine ExcSafe.op (o := .member (.setSingleStep false))
      (k := fun _ => member (.pushMessage m)) (Q := fun _ => View.Waiting)
      (disarming_stable (m := m) []) (fun y b y' he _ hy hpy => ?_) h.1 h.2
    cases he
    have hend := hy.endStep strict hpy.1.inFlight fun hs =>
      ⟨(hpy.2 hs).1, fun th hth => ((hpy.2 hs).2 th hth).resolve_left (by simp)⟩
    exact ⟨hend, pushMessage_safe hend.1 ⟨hpy.1.inFlight, hpy.1.tested, hpy.1.held⟩⟩

/-- A hand-over suspends the task if the list is empty, and queues its message. -/
theorem deliver_safe (hinv : t.view.Inv)
    (ht : t.view.inFlight = some m ∧ t.view.tested = false) :
    ExcSafe strict (MachProcess.exceptionMessageReceived m)
      (fun _ => View.Waiting) t := by
  unfold MachProcess.exceptionMessageReceived MachTask.suspend
  simp only [Prog.bind_eq, member_bind, sys_bind, Prog.bind_op]
  refine ExcSafe.op (P := fun v => v.inFlight = some m ∧ v.tested = false)
    (fun _ _ _ _ hr h => ⟨hr.inFlight.trans h.1, hr.tested.trans h.2⟩)
    (fun u b u' he _ hu hp => ?_) hinv ht
  obtain rfl : b = u.view.msgs.isEmpty := by cases he; rfl
  have hview : u'.view = { u.view with tested := true } := by cases he; rfl
  have htest := hu.test strict
  rw [← hview] at htest
  refine ⟨htest, ?_⟩
  cases hm : u.view.msgs with
  | cons x xs =>
    refine disarmAndQueue_safe htest.1 ?_
    rw [hview]
    exact ⟨hp.1, rfl, .inl (by simp [hm])⟩
  | nil =>
    -- no hand-over before this one holds the task
    have hnot : u.view.suspended = false := by
      by_contra hne
      have := (hu.queued (Bool.eq_true_of_not_eq_false hne)).1
      rw [hp.2] at this
      cases this
    -- the list stays empty and the task stays until the suspension is paid
    have hstable (tk : Port) : ExcStable strict fun v => (v.inFlight = some m ∧ v.tested = true) ∧
        v.msgs = [] ∧ v.suspended = false ∧ v.task = tk := fun _ _ _ _ hr h =>
      ⟨⟨hr.inFlight.trans h.1.1, hr.tested.trans h.1.2⟩, hr.empty h.2.1,
        hr.suspended.trans h.2.2.1, (hr.task h.1.2).trans h.2.2.2⟩
    simp only [List.isEmpty_nil, if_true]
    refine ExcSafe.read (hstable u.view.task) (part_all rfl) rfl ?_ htest.1
      (by rw [hview]; exact ⟨⟨hp.1, rfl⟩, hm, hnot, rfl⟩)
    rintro x tk x' he - hx hpx hview
    obtain rfl : tk = x.view.task := by cases he; rfl
    refine ExcSafe.op (hstable x.view.task) (fun y kr y' he hrule hy hpy => ?_) (hview ▸ hx)
      (by rw [hview]; exact ⟨hpx.1, hpx.2.1, hpx.2.2.1, rfl⟩)
    obtain rfl : kr = 0 := hrule.1
    obtain ⟨htk, hview'⟩ := view_taskSuspend he
    rw [← hpy.2.2.2] at htk hview'
    have hsusp := hy.suspend strict hpy.1.2 hpy.2.1 hpy.2.2.1 htk
    refine ⟨by rw [hview']; exact hsusp, disarmAndQueue_safe (hview' ▸ hsusp.1) ?_⟩
    rw [hview']
    exact ⟨hpy.1.1, hpy.1.2, .inr rfl⟩

end MachDebug
