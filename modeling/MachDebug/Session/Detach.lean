import MachDebug.Session.Serial

/-!
# Detaching under interference

`Detach` is taken one operation at a time. In between the exception thread may still deliver
messages, until it has been joined, and the target side may send some. As long as none is waiting
and none is sent, nothing in between matters to `Detach`.

## Main definitions

* `Around w w'`: what can happen between two operations of `Detach`
* `Returns sdk p w w'`: the program has returned, with interference between its operations

## Main results

* `turn_around`, `event_around`: the exception thread and the target side interfere as said
* `safe_bind`: a segment of `Detach` that writes nothing a stable assertion is about
* `detach_tracks`: after `Detach` a task is still tracked
-/

namespace MachDebug

open Program

/-! ## The calls that assign exception ports -/

/-- A kernel call that does not assign exception ports is not counted as one. -/
theorem sys_setCalls {β : Type} {o : SysOp β} (ho : o.part ≠ some .portTable) {k k' : Kernel}
    {b : β} (h : o.exec k = some (b, k')) :
    k'.calls .taskSetExceptionPorts = k.calls .taskSetExceptionPorts := by
  cases o
  case taskSetExceptionPorts t m a => exact absurd rfl ho
  case machMsgReceive p timeout =>
    simp only [SysOp.exec] at h
    split at h
    -- a receive that would wait forever returns only when it fails
    · obtain ⟨e, -, he⟩ := Option.map_eq_some_iff.mp h
      cases he
      exact k.tally_calls_of_ne _ (by decide)
    · exact Kernel.issue_calls (by decide) (fun _ => rfl) (Option.some.inj h)
    · exact Kernel.issue_calls (by decide) (fun _ => rfl) (Option.some.inj h)
  case pthreadTestcancel => cases h; rfl
  case usleep n => cases h; rfl
  case taskGetExceptionPorts t m =>
    refine Kernel.issue_calls (by decide) (fun k => ?_) (Option.some.inj h)
    split
    · split <;> rfl
    · rfl
  all_goals
    refine Kernel.issue_calls (by decide) (fun k => ?_) (Option.some.inj h)
    first
      | rfl
      | (split <;> rfl)

/-- An operation that does not assign exception ports is not counted as one. -/
theorem exec_setCalls {β : Type} {o : Op β} (ho : o.part ≠ some .portTable) {w w' : World} {b : β}
    (h : world.exec o w = some (b, w')) :
    w'.kern.calls .taskSetExceptionPorts = w.kern.calls .taskSetExceptionPorts := by
  cases o with
  | member o => rw [(world_member_kern h).1]
  | sys o => exact sys_setCalls ho (world_sys_proc h).2

theorem Within.run_setCalls {α : Type} {S : List Part} {p : Code α} (hp : Within S p)
    (hS : .portTable ∉ S) (w : World) :
    (p.run world w).2.kern.calls .taskSetExceptionPorts = w.kern.calls .taskSetExceptionPorts :=
  hp.uses.run_inv
    (I := fun w' => w'.kern.calls .taskSetExceptionPorts = w.kern.calls .taskSetExceptionPorts)
    (fun _ ho _ _ _ he hs => (exec_setCalls (fun h => hS (ho _ h)) he).trans hs) rfl

/-! ## Interference -/

/-- What can happen between two operations of `Detach`. -/
structure Around (w w' : World) : Prop where
  thread : w'.kern.excThread = w.kern.excThread
  ended : w.kern.excThread = false → w'.proc = w.proc
  sent : w.kern.nextSerial ≤ w'.kern.nextSerial
  table : w.Same w' .portTable
  replied : w.Same w' .replied
  faults : w'.kern.faults = w.kern.faults
  setCalls : w'.kern.calls .taskSetExceptionPorts = w.kern.calls .taskSetExceptionPorts
  support : w'.kern.excPorts = w.kern.excPorts
  live : ∀ t, w'.kern.live t = true → w.kern.live t = true
  quiet : w'.kern.nextSerial = w.kern.nextSerial → w.kern.queue = [] →
    w'.kern.queue = [] ∧ w'.proc = w.proc ∧ w.Same w' .suspendCount

namespace Around

theorem refl (w : World) : Around w w :=
  ⟨rfl, fun _ => rfl, le_rfl, .refl w _, .refl w _, rfl, rfl, rfl, fun _ h => h,
    fun _ h => ⟨h, rfl, .refl w _⟩⟩

theorem trans {w w' w'' : World} (h : Around w w') (h' : Around w' w'') : Around w w'' where
  thread := h'.thread.trans h.thread
  ended he := (h'.ended (h.thread.trans he)).trans (h.ended he)
  sent := h.sent.trans h'.sent
  table := h.table.trans h'.table
  replied := h.replied.trans h'.replied
  faults := h'.faults.trans h.faults
  setCalls := h'.setCalls.trans h.setCalls
  support := h'.support.trans h.support
  live t ht := h.live t (h'.live t ht)
  quiet hn hq := by
    have hmid := h.sent
    have hmid' := h'.sent
    obtain ⟨hq', hp, hs⟩ := h.quiet (by omega) hq
    obtain ⟨hq'', hp', hs'⟩ := h'.quiet (by omega) hq'
    exact ⟨hq'', hp'.trans hp, hs.trans hs'⟩

end Around

/-- A turn of the exception thread between two operations. -/
theorem turn_around {sdk : Sdk} {w w' : World} {n : BitVec 32} {r : ExceptionThread.Turn}
    (hth : w.kern.excThread = true)
    (h : (ExceptionThread.turn sdk ⟨w.proc.mTask.mTask, n⟩).run world w = (.done r, w')) :
    Around w w' := by
  have hwithin := turn_within sdk ⟨w.proc.mTask.mTask, n⟩
  have hsame (x : Part)
      (hx : x ∉ [Part.queue, .taskPort, .suspendCount, .debug, .singleStep, .messages]) :
      w.Same w' x := by
    simpa only [h] using hwithin.run_same hx w
  have hfol : w.kern.Follows w'.kern := by
    simpa only [h] using run_follows (ExceptionThread.turn sdk ⟨w.proc.mTask.mTask, n⟩) w
  refine ⟨(hsame .thread (by decide)).1, fun he => ?_, hfol.nextSerial.ge, hsame _ (by decide),
    hsame _ (by decide), hfol.faults, ?_, hfol.excPorts, fun t ht => (hfol.live t).symm.trans ht,
    fun _ hq => ?_⟩
  · rw [hth] at he
    cases he
  · simpa only [h] using hwithin.run_setCalls (by decide) w
  · obtain ⟨k, -, hk, ⟨rfl, hsuf⟩ | ⟨msg, hmsg, -⟩⟩ := turn_cases h
    · rw [hq, List.suffix_nil] at hsuf
      exact ⟨hsuf, rfl, hk _ (by decide)⟩
    · rw [hq] at hmsg
      cases hmsg

/-- An event between two operations. -/
theorem event_around (e : Kernel.Event) (w : World) : Around w ⟨w.proc, w.kern.event e⟩ := by
  cases e with
  | send m =>
    refine ⟨rfl, fun _ => rfl, Nat.le_succ _, fun _ => rfl, rfl, rfl, rfl, rfl, fun _ h => h,
      fun hn _ => ?_⟩
    exact absurd hn (Nat.succ_ne_self _)
  | exit t =>
    refine ⟨rfl, fun _ => rfl, le_rfl, fun t' => ?_, rfl, rfl, rfl, rfl, fun t' ht => ?_,
      fun _ hq => ⟨hq, rfl, fun t' => ?_, rfl⟩⟩
    · rcases eq_or_ne t' t with rfl | hne <;> simp [Kernel.event, Kernel.setTask, *]
    · rcases eq_or_ne t' t with rfl | hne
      · simp [Kernel.live, Kernel.event, Kernel.setTask] at ht
      · simpa [Kernel.live, Kernel.event, Kernel.setTask, hne] using ht
    · rcases eq_or_ne t' t with rfl | hne <;> simp [Kernel.event, Kernel.setTask, *]
  | threads t ths =>
    refine ⟨rfl, fun _ => rfl, le_rfl, fun t' => ?_, rfl, rfl, rfl, rfl, fun t' ht => ?_,
      fun _ hq => ⟨hq, rfl, fun t' => ?_, rfl⟩⟩
    · rcases eq_or_ne t' t with rfl | hne <;> simp [Kernel.event, Kernel.setTask, *]
    · rcases eq_or_ne t' t with rfl | hne <;>
        simpa [Kernel.live, Kernel.event, Kernel.setTask, *] using ht
    · rcases eq_or_ne t' t with rfl | hne <;> simp [Kernel.event, Kernel.setTask, *]

/-- The contract of `Detach`: every operation is permitted, and the interference is `Around`. -/
def aroundContract : Contract Op World where
  rely := Around
  guar _ _ := True
  permit _ _ _ := True
  rely_refl := .refl
  rely_trans _ _ _ := .trans

/-- The program has returned, with interference between its operations. -/
def Returns (sdk : Sdk) (p : Code Unit) (w w' : World) : Prop :=
  Session.Runs sdk Label.during ⟨.inside p, w⟩ ⟨.inside (.ret ()), w'⟩

/-- A program that is safe under the interference has met its postcondition when it returns. -/
theorem Returns.post {sdk : Sdk} {p : Code Unit} {w w' : World} {Q : Unit → World → Prop}
    {E : RuntimeError → World → Prop} (h : Returns sdk p w w')
    (hs : p.Safe world aroundContract Q E w) : Q () w' :=
  Session.Runs.safe (fun _ _ _ => trivial) (fun _ _ _ _ hth ht => turn_around hth ht) event_around
    hs h

/-- A segment of a program whose operations keep a stable assertion. -/
theorem safe_bind {α β : Type} {S : List Part} {A : World → Prop} {p : Code α} {f : α → Code β}
    {Q : β → World → Prop} {w : World} (hp : Within S p) (hstable : Prog.Stable aroundContract A)
    (hA : KeptBy S A)
    (hf : ∀ a t, A t → (f a).Safe world aroundContract Q (fun _ _ => True) t) (hw : A w) :
    (p >>= f).Safe world aroundContract Q (fun _ _ => True) w := by
  refine Prog.Safe.bind ?_
  refine (hp.uses.safe hstable (fun o ho t b t' ht he _ => ⟨trivial, hA o ho t b t' he ht⟩) hw).mono
    hf fun _ _ _ => trivial

/-! ## The task stays tracked -/

theorem stable_true : Prog.Stable aroundContract fun _ => True := fun _ _ _ _ => trivial

/-- After the exception thread has been joined, nobody else writes the members. -/
theorem stable_ended (p : MachProcess → Prop) :
    Prog.Stable aroundContract fun w => w.kern.excThread = false ∧ p w.proc :=
  fun _ _ h hr => ⟨hr.thread.trans h.1, by rw [hr.ended h.1]; exact h.2⟩


/-- The end of `Detach` resumes a tracked task, or throws. -/
theorem releaseTask_tracks {w : World} (hth : w.kern.excThread = false) :
    MachProcess.releaseTask.Safe world aroundContract
      (fun _ w' => w'.proc.mTask.mTask ≠ 0) (fun _ _ => True) w := by
  have huses := releaseTask_within.uses
  unfold MachProcess.releaseTask MachTask.resume at huses ⊢
  simp only [Prog.bind_eq, member_bind, Prog.bind_op] at huses ⊢
  refine Prog.Safe.op (stable_ended fun _ => True) (fun t b t' ht he _ => ⟨trivial, ?_⟩)
    ⟨hth, trivial⟩
  obtain ⟨rfl, rfl⟩ := Prod.mk.inj (Option.some.inj he)
  have hrest := huses.2 t.proc.mTask.mTask
  simp only [MemberOp.exec]
  by_cases hz : t.proc.mTask.mTask = 0
  · simp only [hz, if_true, Prog.pure_eq, Prog.bind_ret]
    rw [if_pos (by decide)]
    exact fun _ _ => trivial
  -- from here on the members do not change
  · refine (hrest.safe (stable_ended fun p => p.mTask.mTask ≠ 0)
      (fun o ho s c s' hs he _ => ⟨trivial, ?_⟩) ⟨ht.1, hz⟩).mono (fun _ _ h => h.2)
      fun _ _ _ => trivial
    have hth' := exec_same o he (x := .thread) fun hp => absurd (ho _ hp) (by decide)
    have htask := exec_same o he (x := .taskPort) fun hp => absurd (ho _ hp) (by decide)
    exact ⟨hth'.1.trans hs.1, by rw [show s'.proc.mTask.mTask = _ from htask]; exact hs.2⟩

/-- Joining the exception thread, and everything after it. -/
theorem join_tracks {w : World} :
    (MachTask.joinExceptionThread >>= fun kr => MachProcess.detachPtrace kr >>=
      fun _ => MachProcess.releaseTask).Safe world aroundContract
      (fun _ w' => w'.proc.mTask.mTask ≠ 0) (fun _ _ => True) w := by
  have htrue {S : List Part} : KeptBy S fun _ => True := fun _ _ _ _ _ _ _ => trivial
  have hkept : KeptBy [.status] fun w => w.kern.excThread = false ∧ True := by
    intro β o ho s b s' he h
    have hth := exec_same o he (x := .thread) fun hp => absurd (ho _ hp) (by decide)
    exact ⟨hth.1.trans h.1, trivial⟩
  unfold MachTask.joinExceptionThread
  simp only [Prog.bind_eq, Prog.bind_assoc]
  refine safe_bind (S := []) (.member rfl) stable_true htrue (fun p _ _ => ?_) trivial
  refine safe_bind (S := [.exceptionPort]) (.member rfl) stable_true htrue
    (fun _ _ _ => ?_) trivial
  refine safe_bind (S := [.thread]) (.sys rfl) stable_true htrue (fun e _ _ => ?_) trivial
  refine safe_bind (S := []) (by simp) stable_true htrue (fun _ _ _ => ?_) trivial
  refine Prog.Safe.op stable_true (fun t e t' _ he _ => ⟨trivial, ?_⟩) trivial
  cases hf : t.kern.faults .pthreadJoin (t.kern.calls .pthreadJoin) with
  | some c =>
    have hec : e = c.1 := by
      simp [SysOp.exec, Kernel.issue, hf] at he
      exact he.1.symm
    have hne : (DNBError.setError e .posix).success = false := by
      simpa [DNBError.success, DNBError.setError, hec] using c.2
    simp only [Prog.bind_ret, hne, Prog.assert_false, Prog.bind_abort]
    trivial
  | none =>
    have hend : t'.kern.excThread = false := by
      simp [SysOp.exec, Kernel.issue, hf] at he
      rw [← he.2]
    simp only [Prog.bind_ret]
    refine safe_bind (S := []) (by simp) (stable_ended fun _ => True) (hkept.mono (by simp))
      (fun _ _ h => ?_) ⟨hend, trivial⟩
    refine safe_bind (S := []) (.sys rfl) (stable_ended fun _ => True)
      (hkept.mono (by simp)) (fun kr _ h => ?_) h
    exact safe_bind (detachPtrace_within kr) (stable_ended fun _ => True) hkept
      (fun _ _ h => releaseTask_tracks h.1) h

/-- **After `Detach`** has returned, a task is still tracked. -/
theorem detach_tracks {sdk : Sdk} {w w' : World} (h : Returns sdk MachProcess.detach w w') :
    w'.proc.mTask.mTask ≠ 0 := by
  have htrue {S : List Part} : KeptBy S fun _ => True := fun _ _ _ _ _ _ _ => trivial
  have hrest (w : World) : (MachTask.shutDownExcecptionThread >>= fun kr =>
      MachProcess.detachPtrace kr >>= fun _ => MachProcess.releaseTask).Safe world aroundContract
      (fun _ w' => w'.proc.mTask.mTask ≠ 0) (fun _ _ => True) w := by
    unfold MachTask.shutDownExcecptionThread
    simp only [Prog.bind_eq, Prog.bind_assoc]
    refine safe_bind (S := []) (.member rfl) stable_true htrue (fun info _ _ => ?_) trivial
    refine safe_bind (S := []) (.member rfl) stable_true htrue (fun t _ _ => ?_) trivial
    refine safe_bind (restore_within info t) stable_true htrue (fun _ _ _ => ?_) trivial
    exact safe_bind (S := [.excPortInfo]) (.member rfl) stable_true htrue
      (fun _ _ _ => join_tracks) trivial
  refine h.post (Q := fun _ w' => w'.proc.mTask.mTask ≠ 0) (E := fun _ _ => True) ?_
  unfold MachProcess.detach
  refine safe_bind (S := []) (.member rfl) stable_true htrue (fun st _ _ => ?_) trivial
  refine safe_bind (S := []) (by simp) stable_true htrue (fun _ _ _ => ?_) trivial
  split
  · exact safe_bind stop_within stable_true htrue (fun _ _ _ => hrest _) trivial
  · exact hrest _

end MachDebug
