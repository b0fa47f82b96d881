import MachDebug.Session.Serial

/-!
# Suspend balance

In a session on a target that nobody else suspends, the target's suspend count follows the list of
queued messages: it is `1` while messages are queued and `0` otherwise. So the debugger never
suspends twice in a row, and never resumes what it has not suspended.

## Main definitions

* `outstanding t l`: the suspensions of `t` in a log of calls that have not been taken back
* `Balanced t w`: the invariant

## Main results

* `Balanced.turn`, `Balanced.resume`: a turn of the exception thread and `Resume` keep the balance
* `suspend_balance`: the balance holds after each step of a session
-/

namespace MachDebug

open Program

/-- The suspensions of a task in a log, latest call first, that have not been taken back. -/
def outstanding (t : Port) : List SuspendCall → ℤ
  | [] => 0
  | .suspend t' :: l => outstanding t l + if t' = t then 1 else 0
  | .resume t' :: l => outstanding t l - if t' = t then 1 else 0

/-- The log never nests two suspensions, and never takes back one that is not there. -/
def OneAtATime (t : Port) (l : List SuspendCall) : Prop :=
  ∀ l', l' <:+ l → outstanding t l' = 0 ∨ outstanding t l' = 1

theorem OneAtATime.cons {t : Port} {c : SuspendCall} {l : List SuspendCall} (h : OneAtATime t l)
    (hc : outstanding t (c :: l) = 0 ∨ outstanding t (c :: l) = 1) : OneAtATime t (c :: l) := by
  intro l' hl'
  rcases List.suffix_cons_iff.mp hl' with rfl | hl'
  · exact hc
  · exact h l' hl'

/-- The invariant of a session on the task `t`, without failures. -/
structure Balanced (t : Port) (w : World) : Prop where
  faultFree : w.kern.FaultFree
  live : w.kern.live t = true
  task : w.proc.mTask.mTask = t
  count : (w.kern.task t).suspendCount = if w.proc.mExceptionMessages = [] then 0 else 1
  log : OneAtATime t w.kern.issued
  balance : outstanding t w.kern.issued = (w.kern.task t).suspendCount

namespace Balanced

variable {t : Port} {w w' : World}

/-- The balance depends on the suspensions, the queued messages and the tracked task only. -/
theorem of_same (h : Balanced t w) (hf : w.kern.Follows w'.kern)
    (hs : w.Same w' .suspendCount) (hm : w.Same w' .messages) (ht : w.Same w' .taskPort) :
    Balanced t w' where
  faultFree := hf.faultFree h.faultFree
  live := (hf.live t).trans h.live
  task := Eq.trans ht h.task
  count := by rw [hs.1 t, h.count, show w'.proc.mExceptionMessages = _ from hm]
  log := by rw [hs.2]; exact h.log
  balance := by rw [hs.2, hs.1 t]; exact h.balance

theorem keptBy (t : Port) : KeptBy [.status, .singleStep, .debug, .wait] (Balanced t) := by
  intro β o ho w b w' he h
  have hsame (x : Part) (hx : x ∉ [Part.status, .singleStep, .debug, .wait]) : w.Same w' x :=
    exec_same o he fun hp => hx (ho x hp)
  exact h.of_same (exec_follows o he) (hsame _ (by decide)) (hsame _ (by decide))
    (hsame _ (by decide))

/-- Handing a message to the process keeps the balance: only the first one suspends. -/
theorem handed (h : Balanced t w) (m : Message) {k : Kernel} (hf : w.kern.Follows k)
    (hs : ∀ t', (k.task t').suspendCount =
      ((w.kern.suspendedFirst t w.proc.mExceptionMessages).task t').suspendCount)
    (hi : k.issued = (w.kern.suspendedFirst t w.proc.mExceptionMessages).issued) :
    Balanced t ⟨w.proc.handed m, k⟩ := by
  have hcount := h.count
  have hbal := h.balance
  have hone : (k.task t).suspendCount = 1 ∧ OneAtATime t k.issued ∧ outstanding t k.issued = 1 := by
    rw [hs t, hi]
    unfold Kernel.suspendedFirst
    by_cases hms : w.proc.mExceptionMessages = []
    · simp only [hms, if_true] at hcount
      have hout : outstanding t (.suspend t :: w.kern.issued) = 1 := by
        simp [outstanding, hbal, hcount]
      simp only [hms, List.isEmpty_nil, if_true]
      exact ⟨by simp [Kernel.suspendTask, Kernel.setTask, hcount], h.log.cons (.inr hout), hout⟩
    · simp only [hms, if_false] at hcount
      simp only [List.isEmpty_iff, hms, if_false]
      exact ⟨hcount, h.log, by simp [hbal, hcount]⟩
  exact ⟨hf.faultFree h.faultFree, (hf.live t).trans h.live, h.task,
    by simp [MachProcess.handed, hone.1], hone.2.1, by simp [hone.1, hone.2.2]⟩

/-- A turn of the exception thread keeps the balance. -/
theorem turn {sdk : Sdk} {n : BitVec 32} {r : ExceptionThread.Turn} (h : Balanced t w)
    (hrun : (ExceptionThread.turn sdk ⟨w.proc.mTask.mTask, n⟩).run world w = (.done r, w')) :
    Balanced t w' := by
  obtain ⟨k, hk, hsame, ⟨rfl, -⟩ | ⟨msg, -, hrec⟩⟩ := turn_cases hrun
  · exact h.of_same hk (hsame _ (by decide)) (hsame _ (by decide)) (hsame _ (by decide))
  -- the target lives, so that its message does not move the tracked task
  · have hprobe : w.kern.probe w.proc.mTask.mTask = true := by
      simp [Kernel.probe, h.task, h.live, h.faultFree _ _ le_rfl]
    have h₁ : Balanced t ⟨w.proc, k⟩ :=
      h.of_same hk (hsame _ (by decide)) (hsame _ (by decide)) (hsame _ (by decide))
    rw [switched_caught hprobe] at hrec
    obtain ⟨k', hrun', hs, hi⟩ := run_exceptionMessageReceived
      (caught sdk w.kern w.proc.mTask.mTask msg).2 (w := ⟨w.proc, k⟩) h₁.faultFree
      (by rw [h₁.task]; exact h₁.live)
    have hf : k.Follows k' := by
      simpa only [hrun'] using run_follows (MachProcess.exceptionMessageReceived
        (caught sdk w.kern w.proc.mTask.mTask msg).2) ⟨w.proc, k⟩
    obtain ⟨-, rfl⟩ := Prod.mk.inj (hrec.symm.trans hrun')
    rw [h₁.task] at hs hi
    exact h₁.handed _ hf hs hi

/-- Clearing the messages and taking back their suspension keeps the balance. -/
theorem resumed (h : Balanced t w) (st : ProcessStatus) :
    Balanced t ⟨{ w.proc with mExceptionMessages := [], mStatus := st }, w.kern.resumed t⟩ := by
  have hcount := h.count
  have hbal := h.balance
  have hf : w.kern.Follows (w.kern.resumed t) := by
    simpa only [run_taskResume h.faultFree (h.task ▸ h.live), h.task] using
      run_follows MachTask.resume w
  have hzero : ((w.kern.resumed t).task t).suspendCount = 0 ∧
      OneAtATime t (w.kern.resumed t).issued ∧ outstanding t (w.kern.resumed t).issued = 0 := by
    unfold Kernel.resumed
    by_cases hms : w.proc.mExceptionMessages = []
    · simp only [hms, if_true] at hcount
      rw [hcount] at hbal
      simp [hcount, h.log, hbal]
    · simp only [hms, if_false] at hcount
      have hout : outstanding t (.resume t :: w.kern.issued) = 0 := by
        simp [outstanding, hbal, hcount]
      simp only [hcount, Nat.one_pos, if_true]
      exact ⟨by simp [Kernel.resumeTask, Kernel.setTask, hcount], h.log.cons (.inl hout), hout⟩
  exact ⟨hf.faultFree h.faultFree, (hf.live t).trans h.live, h.task, by simp [hzero.1],
    hzero.2.1, by simp [hzero.1, hzero.2.2]⟩

/-- `Resume` keeps the balance: it clears the messages and takes back their suspension. -/
theorem resume (t : Port) : Keeps (Balanced t) MachProcess.resume := by
  intro w o w' hrun ho h
  have hst : w.proc.mStatus = .stop := resume_status hrun ho
  obtain ⟨k, hk, hcases⟩ := run_resume hst
  have h₁ : Balanced t ⟨w.proc, k⟩ :=
    h.of_same hk.follows (hk.same _ (by decide)) (hk.same _ (by decide)) (hk.same _ (by decide))
  rcases hcases with hr | hr
  · cases hr.symm.trans hrun
    exact absurd rfl ho
  · have htask : w.proc.mTask.mTask = t := h₁.task
    have hres := run_resumeTask (w := ⟨{ w.proc with mExceptionMessages := [] }, k⟩) h₁.faultFree
      (htask.symm ▸ h₁.live)
    obtain ⟨-, rfl⟩ := Prod.mk.inj ((hr.symm.trans hrun).symm.trans hres)
    simp only [htask]
    exact h₁.resumed .running

/-- Events keep the balance, unless the target ends. -/
theorem event (h : Balanced t w) (e : Kernel.Event) (he : e ≠ .exit t) :
    Balanced t ⟨w.proc, w.kern.event e⟩ := by
  have hff : (w.kern.event e).FaultFree := by cases e <;> exact h.faultFree
  cases e with
  | send m => exact ⟨hff, h.live, h.task, h.count, h.log, h.balance⟩
  | exit t' =>
    have hne : t ≠ t' := fun heq => he (by rw [heq])
    have htask : (w.kern.event (.exit t')).task t = w.kern.task t := by
      simp [Kernel.event, Kernel.setTask, hne]
    refine ⟨hff, ?_, h.task, ?_, h.log, ?_⟩
    · simpa only [Kernel.live, htask] using h.live
    · simpa only [htask] using h.count
    · rw [htask]
      exact h.balance
  | threads t' ths =>
    have htask : ((w.kern.event (.threads t' ths)).task t).alive = (w.kern.task t).alive ∧
        ((w.kern.event (.threads t' ths)).task t).suspendCount = (w.kern.task t).suspendCount := by
      rcases eq_or_ne t t' with rfl | hne <;> simp [Kernel.event, Kernel.setTask, *]
    refine ⟨hff, ?_, h.task, ?_, h.log, ?_⟩
    · simpa only [Kernel.live, htask.1] using h.live
    · simpa only [htask.2] using h.count
    · rw [htask.2]
      exact h.balance

end Balanced

/-- **Suspend balance**: in a session on a target that was not suspended and does not end, the
suspend count is `1` while messages are queued and `0` while none is, after each step; the
debugger never nests suspensions and never resumes what it has not suspended. -/
theorem suspend_balance (sdk : Sdk) (w : World) (pid : ℤ) (ignored : List ExceptionMask) (t : Port)
    (s : Session) (hk : w.kern.FaultFree) (ht : MachProcess.attachPort w pid = t)
    (hl : w.kern.live t = true) (hzero : (w.kern.task t).suspendCount = 0)
    (hms : w.proc.mExceptionMessages = []) (hlog : w.kern.issued = [])
    (h : Attached sdk (fun l => l ≠ .event (.exit t)) w pid ignored s) :
    (s.state.kern.task t).suspendCount =
        (if s.state.proc.mExceptionMessages = [] then 0 else 1) ∧
      OneAtATime t s.state.kern.issued := by
  have hbal : Balanced t s.state := by
    refine h.inv (fun r w₀ hrun => ?_) (Balanced.keptBy t) (Balanced.resume t)
      (fun w n r w' hrun hw => hw.turn hrun) fun e he w hw => hw.event e fun heq => he (by rw [heq])
    have hsame (x : Part) (hx : x ∉ [Part.pid, .taskPort, .ports, .exceptionPort, .excPortInfo,
        .portTable, .thread]) : w.Same w₀ x := by
      simpa only [hrun] using (attachStart_within sdk pid ignored).run_same hx w
    have hf : w.kern.Follows w₀.kern := by
      simpa only [hrun] using run_follows (MachProcess.attachStart sdk pid ignored) w
    have hcount : (w₀.kern.task t).suspendCount = 0 :=
      ((hsame .suspendCount (by decide)).1 t).trans hzero
    have hissued : w₀.kern.issued = [] := (hsame .suspendCount (by decide)).2.trans hlog
    have hmsgs : w₀.proc.mExceptionMessages = [] := Eq.trans (hsame .messages (by decide)) hms
    refine ⟨hf.faultFree hk, (hf.live t).trans hl,
      (MachProcess.attachStart_target sdk pid ignored hrun).2.trans ht, by simp [hcount, hmsgs],
      ?_, ?_⟩
    · intro l' hl'
      rw [hissued, List.suffix_nil] at hl'
      simp [hl', outstanding]
    · simp [hissued, hcount, outstanding]
  exact ⟨hbal.count, hbal.log⟩

/-- After the first exception the target is suspended once. -/
theorem suspend_balance_breakpoint : ∃ s : Session,
    Attached .macos (fun l => l ≠ .event (.exit 1)) ⟨{}, .oneProcess fun _ _ => none⟩ 7 [] s ∧
      s.state.proc.mExceptionMessages ≠ [] ∧ (s.state.kern.task 1).suspendCount = 1 ∧
      OneAtATime 1 s.state.kern.issued := by
  obtain ⟨s, hs, hms⟩ : ∃ s : Session,
      Attached .macos (fun l => l ≠ .event (.exit 1)) ⟨{}, .oneProcess fun _ _ => none⟩ 7 [] s ∧
        s.state.proc.mExceptionMessages ≠ [] := by
    refine ⟨_, ⟨_, _, rfl, Relation.ReflTransGen.tail (Relation.ReflTransGen.single
      ⟨.event (.send .breakpoint), ⟨trivial, by simp⟩, .event _⟩)
      ⟨.turn, ⟨trivial, by simp⟩, .turn (n := 0) rfl rfl⟩⟩, ?_⟩
    exact List.cons_ne_nil _ _
  have hbal := suspend_balance .macos ⟨{}, .oneProcess fun _ _ => none⟩ 7 [] 1 s (fun _ _ _ => rfl)
    (by decide) (by decide) rfl rfl rfl hs
  exact ⟨s, hs, hms, by simpa [hms] using hbal.1, hbal.2⟩

end MachDebug
