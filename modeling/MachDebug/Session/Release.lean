import MachDebug.Session.Account
import MachDebug.Session.Detach

/-!
# What a detach releases

`Detach` restores the saved exception ports until a call fails, ends the exception thread, and
takes one suspension back; it replies to nothing. So the target is released completely exactly when
there is nothing left to reply to, the calls that fail are not needed, and one suspension is what
the debugger holds.

## Main definitions

* `settable F n entries`: the entries assigned before the first failing call
* `Released k₀ pid w`: the target is as it was before the attach, and every message was replied to
* `Releasable k₀ pid w`: the condition on the state in which `Detach` is called

## Main results

* `restoreEntries_safe`, `releaseTask_safe`: the two parts of `Detach` that change the target
* `detach_calm`: what `Detach` does when no message is pending
* `detach_released_iff`: when `Detach` releases the target completely
-/

namespace MachDebug

open Program

/-! ## Calm -/

/-- Unless a message has been sent since the serial `n`, none is waiting and `A` holds. -/
def Calm (n : ℕ) (A : World → Prop) (w : World) : Prop :=
  n ≤ w.kern.nextSerial ∧ (w.kern.nextSerial = n → w.kern.queue = [] ∧ A w)

/-- The interference leaves `A` alone as long as it does not write the members and the suspend
counts. -/
def Undisturbed (A : World → Prop) : Prop :=
  ∀ w w', Around w w' → w'.proc = w.proc → w.Same w' .suspendCount → A w → A w'

namespace Calm

variable {n : ℕ} {A B : World → Prop} {w : World}

theorem stable (hA : Undisturbed A) : Prog.Stable aroundContract (Calm n A) := by
  intro w w' h hr
  refine ⟨h.1.trans hr.sent, fun hn => ?_⟩
  have hn₀ : w.kern.nextSerial = n := le_antisymm (hn ▸ hr.sent) h.1
  obtain ⟨hq, ha⟩ := h.2 hn₀
  obtain ⟨hq', hp, hs⟩ := hr.quiet (hn.trans hn₀.symm) hq
  exact ⟨hq', hA w w' hr hp hs ha⟩

theorem keptBy {S : List Part} (hA : KeptBy S A) (hq : .queue ∉ S) : KeptBy S (Calm n A) := by
  intro β o ho w b w' he h
  have hf := exec_follows o he
  refine ⟨hf.nextSerial ▸ h.1, fun hn => ?_⟩
  obtain ⟨hqueue, ha⟩ := h.2 (hf.nextSerial ▸ hn)
  have hsame := exec_same o he (x := .queue) fun hp => hq (ho _ hp)
  exact ⟨Eq.trans hsame hqueue, hA o ho w b w' he ha⟩

theorem mono (h : Calm n A w) (hAB : A w → B w) : Calm n B w :=
  ⟨h.1, fun hn => ⟨(h.2 hn).1, hAB (h.2 hn).2⟩⟩

theorem safe_ret {α : Type} (hA : Undisturbed A) (a : α) (hw : Calm n A w) :
    (Prog.ret a : Code α).Safe world aroundContract (fun _ => Calm n A) (fun _ _ => True) w :=
  fun t ht => stable hA w t hw ht

/-- Once a message has been sent, nothing is left to be shown. -/
theorem safe_of_sent {α : Type} (p : Code α) (h : n < w.kern.nextSerial) :
    p.Safe world aroundContract (fun _ => Calm n A) (fun _ _ => True) w := by
  have hstable : Prog.Stable aroundContract fun w => n < w.kern.nextSerial :=
    fun _ _ h hr => lt_of_lt_of_le h hr.sent
  refine ((Prog.uses_true p).safe hstable (fun o _ t b t' ht he _ => ⟨trivial, ?_⟩) h).mono
    (fun _ t ht => ⟨le_of_lt ht, fun hn => absurd hn (ne_of_gt ht)⟩) fun _ _ _ => trivial
  rw [(exec_follows o he).nextSerial]
  exact ht

/-- An operation, while it is calm; otherwise nothing is left to be shown. -/
theorem safe_op {α β : Type} {o : Op β} {k : β → Code α} (hA : Undisturbed A)
    (h : ∀ t b t', t.kern.nextSerial = n → t.kern.queue = [] → A t →
      world.exec o t = some (b, t') →
      (k b).Safe world aroundContract (fun _ => Calm n B) (fun _ _ => True) t')
    (hw : Calm n A w) :
    (Prog.op o k).Safe world aroundContract (fun _ => Calm n B) (fun _ _ => True) w := by
  refine Prog.Safe.op (stable hA) (fun t b t' ht he _ => ⟨trivial, ?_⟩) hw
  by_cases hn : t.kern.nextSerial = n
  · exact h t b t' hn (ht.2 hn).1 (ht.2 hn).2 he
  · refine safe_of_sent _ ?_
    rw [(exec_follows o he).nextSerial]
    exact lt_of_le_of_ne ht.1 (Ne.symm hn)

end Calm

/-! ## Restoring the exception ports -/

/-- The entries that are assigned before the first failing call, when the next call is the
`n`-th. -/
def settable (F : ℕ → Option {e : KernReturn // e ≠ 0#32}) : ℕ → List PortEntry → List PortEntry
  | _, [] => []
  | n, x :: xs => if (F n).isNone then x :: settable F (n + 1) xs else []

section Restore

variable (w₁ : World) (t : Port)

/-- `Detach` so far has not changed the tracked task and the suspend counts, and the exception ports
of the task are `T`, if it still lives. -/
structure Settled (T : PortTable) (w : World) : Prop where
  task : w.proc.mTask.mTask = t
  count : w₁.Same w .suspendCount
  table : w.kern.live t = true → (w.kern.task t).excPorts = T

/-- The state of the loop of `Restore`, when the next call that assigns ports is the `d`-th. -/
structure Restoring (T : PortTable) (d : ℕ) (w : World) : Prop extends Settled w₁ t T w where
  faults : w.kern.faults = w₁.kern.faults
  support : w.kern.excPorts = w₁.kern.excPorts
  setCalls : w.kern.calls .taskSetExceptionPorts = d

variable {w₁ t}

theorem Settled.undisturbed (T : PortTable) : Undisturbed (Settled w₁ t T) := by
  intro w w' hr hp hs h
  refine ⟨by rw [hp]; exact h.task, h.count.trans hs, fun hl => ?_⟩
  rw [hr.table t]
  exact h.table (hr.live t hl)

theorem Restoring.undisturbed (T : PortTable) (d : ℕ) : Undisturbed (Restoring w₁ t T d) := by
  intro w w' hr hp hs h
  exact ⟨Settled.undisturbed T w w' hr hp hs h.toSettled, hr.faults.trans h.faults,
    hr.support.trans h.support, hr.setCalls.trans h.setCalls⟩

theorem Settled.keptBy (T : PortTable) :
    KeptBy [.status, .excPortInfo, .exceptionPort, .thread] (Settled w₁ t T) := by
  intro β o ho w b w' he h
  have hsame (x : Part) (hx : x ∉ [Part.status, .excPortInfo, .exceptionPort, .thread]) :
      w.Same w' x := exec_same o he fun hp => hx (ho x hp)
  refine ⟨Eq.trans (hsame .taskPort (by decide)) h.task,
    h.count.trans (hsame .suspendCount (by decide)), fun hl => ?_⟩
  rw [hsame .portTable (by decide) t]
  exact h.table (((exec_follows o he).live t).symm.trans hl)

theorem Restoring.keptBy (T : PortTable) (d : ℕ) :
    KeptBy [.status, .excPortInfo, .exceptionPort, .thread] (Restoring w₁ t T d) := by
  intro β o ho w b w' he h
  have hf := exec_follows o he
  refine ⟨Settled.keptBy T o ho w b w' he h.toSettled, hf.faults.trans h.faults,
    hf.excPorts.trans h.support, Eq.trans (exec_setCalls (fun hp => ?_) he) h.setCalls⟩
  exact absurd (ho _ hp) (by decide)

/-- The ways a call that assigns exception ports can go, for a mask that the kernel accepts. -/
theorem setExceptionPorts_cases {k k' : Kernel} {m : ExceptionMask} {a : ExcAction}
    {kr : KernReturn} (hm : m &&& k.excPorts.valid = m)
    (h : (SysOp.taskSetExceptionPorts t m a).exec k = some (kr, k')) :
    (kr ≠ 0#32 ∧ k' = k.tally .taskSetExceptionPorts ∧
      ((k.faults .taskSetExceptionPorts (k.calls .taskSetExceptionPorts)).isNone = false ∨
        k.live t = false)) ∨
    (kr = 0#32 ∧ k' = (k.tally .taskSetExceptionPorts).assignPorts t m a ∧
      (k.faults .taskSetExceptionPorts (k.calls .taskSetExceptionPorts)).isNone = true) := by
  cases hf : k.faults .taskSetExceptionPorts (k.calls .taskSetExceptionPorts) with
  | some e =>
    simp only [SysOp.exec, Kernel.issue, hf, id_eq, Option.some.injEq, Prod.mk.injEq] at h
    obtain ⟨rfl, rfl⟩ := h
    exact .inl ⟨e.2, rfl, .inl rfl⟩
  | none =>
    cases hl : k.live t with
    | false =>
      simp only [SysOp.exec, Kernel.issue, hf, Kernel.tally_live, hl, Bool.false_eq_true, if_false,
        Option.some.injEq, Prod.mk.injEq] at h
      obtain ⟨rfl, rfl⟩ := h
      exact .inl ⟨by decide, rfl, .inr rfl⟩
    | true =>
      simp only [SysOp.exec, Kernel.issue, hf, Kernel.tally_live, hl, Kernel.tally_excPorts, hm,
        if_true, Option.some.injEq, Prod.mk.injEq] at h
      obtain ⟨rfl, rfl⟩ := h
      exact .inr ⟨rfl, rfl, rfl⟩

/-- The loop of `Restore` assigns the entries before the first failing call. -/
theorem restoreEntries_safe {n : ℕ} (entries : List PortEntry)
    (hvalid : ∀ x ∈ entries, x.mask &&& w₁.kern.excPorts.valid = x.mask) {T : PortTable} {d : ℕ}
    {w : World} (h : Calm n (Restoring w₁ t T d) w) :
    (PortInfo.restoreEntries t entries).Safe world aroundContract
      (fun _ => Calm n (Settled w₁ t
        (T.assignAll (settable (w₁.kern.faults .taskSetExceptionPorts) d entries))))
      (fun _ _ => True) w := by
  -- the induction is on the entries: a call that succeeds leaves the loop with the rest
  induction entries generalizing w T d with
  | nil =>
    exact Calm.safe_ret (Settled.undisturbed T) 0 (h.mono fun hr => hr.toSettled)
  | cons x xs ih =>
    unfold PortInfo.restoreEntries
    simp only [Prog.bind_eq, sys_bind]
    refine Calm.safe_op (Restoring.undisturbed T d) (fun u kr u' hn hq hr he => ?_) h
    obtain ⟨hproc, hex⟩ := world_sys_proc he
    have hf := sys_follows _ hex
    have hn' : n ≤ u'.kern.nextSerial := by rw [hf.nextSerial, hn]
    have hq' : u'.kern.queue = [] :=
      Eq.trans (exec_same _ he (x := .queue) (by simp [Op.part, SysOp.part])) hq
    have hcount : w₁.Same u' .suspendCount :=
      hr.count.trans (exec_same _ he (by simp [Op.part, SysOp.part]))
    have htask : u'.proc.mTask.mTask = t := by rw [hproc]; exact hr.task
    have hxv : x.mask &&& u.kern.excPorts.valid = x.mask := by
      rw [hr.support]
      exact hvalid x List.mem_cons_self
    -- the call is the `d`-th of its kind, so its fault is known from the start
    have hfd : (u.kern.faults .taskSetExceptionPorts (u.kern.calls .taskSetExceptionPorts)) =
        w₁.kern.faults .taskSetExceptionPorts d := by rw [hr.faults, hr.setCalls]
    rcases setExceptionPorts_cases hxv hex with ⟨hkr, hk', hwhy⟩ | ⟨rfl, hk', hok⟩
    · have hdone : Settled w₁ t (T.assignAll
          (settable (w₁.kern.faults .taskSetExceptionPorts) d (x :: xs))) u' := by
        refine ⟨htask, hcount, fun hl => ?_⟩
        have hl₀ : u.kern.live t = true := (hf.live t).symm.trans hl
        have hfault : (w₁.kern.faults .taskSetExceptionPorts d).isNone = false := by
          rw [← hfd]
          exact hwhy.resolve_right (by simp [hl₀])
        rw [settable, hfault, hk']
        exact hr.table hl₀
      rw [if_pos (show kr ≠ 0 from hkr)]
      exact Calm.safe_ret (Settled.undisturbed _) kr ⟨hn', fun _ => ⟨hq', hdone⟩⟩
    · have hnext : Restoring w₁ t (T.assign x.mask x.action) (d + 1) u' := by
        refine ⟨⟨htask, hcount, fun hl => ?_⟩, hf.faults.trans hr.faults,
          hf.excPorts.trans hr.support, ?_⟩
        · rw [hk', Kernel.assignPorts, Kernel.setTask, ← hr.table ((hf.live t).symm.trans hl)]
          simp
        · rw [hk']
          simp [Kernel.assignPorts, Kernel.setTask, hr.setCalls]
      rw [hfd] at hok
      rw [if_neg (by simp)]
      simp only [settable, hok, if_true, PortTable.assignAll_cons]
      exact ih (fun y hy => hvalid y (List.mem_cons_of_mem x hy)) ⟨hn', fun _ => ⟨hq', hnext⟩⟩

/-- What the end of `Detach` finds: the tracked task is alive and has the suspend count `c`. -/
structure Found (T : PortTable) (c : ℕ) (w : World) : Prop where
  task : w.proc.mTask.mTask = t
  table : (w.kern.task t).excPorts = T
  count : (w.kern.task t).suspendCount = c

theorem Found.undisturbed (T : PortTable) (c : ℕ) : Undisturbed (Found (t := t) T c) := by
  intro w w' hr hp hs h
  exact ⟨by rw [hp]; exact h.task, (hr.table t).trans h.table, (hs.1 t).trans h.count⟩

/-- The end of `Detach` takes one suspension back, if there is one. -/
theorem releaseTask_safe {n : ℕ} {T : PortTable} {w : World} (h : Calm n (Settled w₁ t T) w) :
    MachProcess.releaseTask.Safe world aroundContract
      (fun _ => Calm n (Found (t := t) T ((w₁.kern.task t).suspendCount - 1)))
      (fun _ _ => True) w := by
  -- a failed call makes `Detach` throw, about which nothing is said
  have hthrow (kr : KernReturn) (hkr : kr ≠ 0) (u : World) :
      (if kr ≠ 0 then Prog.throw (.error "" (.ofKern kr)) else return () : Code Unit).Safe world
        aroundContract (fun _ => Calm n (Found (t := t) T ((w₁.kern.task t).suspendCount - 1)))
        (fun _ _ => True) u := by
    rw [if_pos hkr]
    exact fun _ _ => trivial
  unfold MachProcess.releaseTask MachTask.resume MachTask.basicInfo
  simp only [Prog.bind_eq, member_bind, sys_bind, Prog.bind_op, Prog.bind_ite, Prog.pure_eq,
    Prog.bind_ret]
  refine Calm.safe_op (Settled.undisturbed T) (fun u b u' hn hq hs he => ?_) h
  obtain ⟨rfl, rfl⟩ := Prod.mk.inj (Option.some.inj he)
  simp only [MemberOp.exec, hs.task]
  by_cases ht : t = 0
  · rw [if_pos ht]
    exact hthrow _ (by decide) _
  rw [if_neg ht]
  refine Calm.safe_op (Settled.undisturbed T) (fun u r u' hn hq hs he => ?_)
    ⟨hn.ge, fun _ => ⟨hq, hs⟩⟩
  obtain ⟨kr, c⟩ := r
  by_cases hkr : kr = 0
  · subst hkr
    obtain ⟨hproc, hex⟩ := world_sys_proc he
    obtain ⟨hl, rfl⟩ := taskInfo_ok hex
    have hf := sys_follows _ hex
    -- the task lives, so what is known of its ports applies
    have hfound : Found (t := t) T (w₁.kern.task t).suspendCount u' := by
      refine ⟨by rw [hproc]; exact hs.task, ?_, ?_⟩
      · rw [sys_same _ hex (x := .portTable) (by simp [SysOp.part]) t]
        exact hs.table hl
      · rw [(sys_same _ hex (x := .suspendCount) (by simp [SysOp.part])).1 t]
        exact hs.count.1 t
    have hcalm : Calm n (Found (t := t) T (w₁.kern.task t).suspendCount) u' := by
      refine ⟨by rw [hf.nextSerial, hn], fun _ => ⟨?_, hfound⟩⟩
      exact Eq.trans (exec_same _ he (x := .queue) (by simp [Op.part, SysOp.part])) hq
    rw [if_pos rfl]
    by_cases hc : (u.kern.task t).suspendCount > 0
    · rw [if_pos hc]
      refine Calm.safe_op (Found.undisturbed T _) (fun v kr v' hn hq hfd he => ?_) hcalm
      obtain ⟨hproc, hex⟩ := world_sys_proc he
      by_cases hkr : kr = 0
      · subst hkr
        rw [if_neg (by simp)]
        have hdone : Found (t := t) T ((w₁.kern.task t).suspendCount - 1) v' := by
          rw [← hfd.count]
          refine ⟨by rw [hproc]; exact hfd.task, ?_, ?_⟩
          · rw [sys_same _ hex (x := .portTable) (by simp [SysOp.part]) t]
            exact hfd.table
          · rw [taskResume_ok hex]
            simp [Kernel.resumeTask, Kernel.setTask]
        refine Calm.safe_ret (Found.undisturbed T _) () ⟨?_, fun _ => ⟨?_, hdone⟩⟩
        · rw [(sys_follows _ hex).nextSerial, hn]
        · exact Eq.trans (exec_same _ he (x := .queue) (by simp [Op.part, SysOp.part])) hq
      · exact hthrow kr hkr _
    · rw [if_neg hc, if_neg (by simp)]
      have hzero : (w₁.kern.task t).suspendCount = 0 := by
        rw [← hs.count.1 t]
        exact Nat.le_zero.mp (not_lt.mp hc)
      rw [hzero] at hcalm ⊢
      exact Calm.safe_ret (Found.undisturbed T _) () hcalm
  · rw [if_neg hkr]
    exact hthrow kr hkr _

end Restore

/-! ## The whole of `Detach` -/

/-- The exception ports of the tracked task after the loop of `Restore`, started in the world
`w`. -/
def restoredTable (w : World) : PortTable :=
  (w.kern.task w.proc.mTask.mTask).excPorts.assignAll
    (settable (w.kern.faults .taskSetExceptionPorts) (w.kern.calls .taskSetExceptionPorts)
      w.proc.mTask.mExcPortInfo.entries)

/-- What `Detach` does to the target while no message is waiting and none is sent. -/
theorem detach_calm {sdk : Sdk} {w₁ w : World} (h : Returns sdk MachProcess.detach w₁ w)
    (hq : w₁.kern.queue = [])
    (hvalid : ∀ x ∈ w₁.proc.mTask.mExcPortInfo.entries,
      x.mask &&& w₁.kern.excPorts.valid = x.mask)
    (hn : w.kern.nextSerial = w₁.kern.nextSerial) :
    Found (t := w₁.proc.mTask.mTask) (restoredTable w₁)
      ((w₁.kern.task w₁.proc.mTask.mTask).suspendCount - 1) w := by
  set n := w₁.kern.nextSerial
  set t := w₁.proc.mTask.mTask with ht
  set entries := w₁.proc.mTask.mExcPortInfo.entries with hentries
  set d := w₁.kern.calls .taskSetExceptionPorts with hd
  set A : World → Prop := fun u => Restoring w₁ t (w₁.kern.task t).excPorts d u ∧
    u.proc.mTask.mExcPortInfo.entries = entries with hA
  have hAst : Undisturbed A := fun u u' hr hp hs ha =>
    ⟨Restoring.undisturbed _ _ u u' hr hp hs ha.1, by rw [hp]; exact ha.2⟩
  have hAkept : KeptBy [.status] A := by
    intro β o ho u b u' he ha
    have hinfo := exec_same o he (x := .excPortInfo) fun hp => absurd (ho _ hp) (by decide)
    refine ⟨KeptBy.mono (Restoring.keptBy _ _) (by decide) o ho u b u' he ha.1, ?_⟩
    rw [show u'.proc.mTask.mExcPortInfo = _ from hinfo]
    exact ha.2
  have hstart : Calm n A w₁ :=
    ⟨le_rfl, fun _ => ⟨hq, ⟨⟨rfl, .refl _ _, fun _ => rfl⟩, rfl, rfl, rfl⟩, rfl⟩⟩
  have hend (kr : KernReturn) (u : World) (hu : Calm n (Settled w₁ t (restoredTable w₁)) u) :
      (MachProcess.detachPtrace kr >>= fun _ => MachProcess.releaseTask).Safe world aroundContract
        (fun _ => Calm n (Found (t := t) (restoredTable w₁) ((w₁.kern.task t).suspendCount - 1)))
        (fun _ _ => True) u :=
    safe_bind (detachPtrace_within kr) (Calm.stable (Settled.undisturbed _))
      (Calm.keptBy (KeptBy.mono (Settled.keptBy _) (by decide)) (by decide))
      (fun _ _ hu => releaseTask_safe hu) hu
  have hshut (u : World) (hu : Calm n A u) : (MachTask.shutDownExcecptionThread >>= fun kr =>
      MachProcess.detachPtrace kr >>= fun _ => MachProcess.releaseTask).Safe world aroundContract
        (fun _ => Calm n (Found (t := t) (restoredTable w₁) ((w₁.kern.task t).suspendCount - 1)))
        (fun _ _ => True) u := by
    unfold MachTask.shutDownExcecptionThread PortInfo.restore
    simp only [Prog.bind_eq, Prog.bind_assoc, member_bind, Prog.pure_eq, Prog.bind_ret]
    refine Calm.safe_op hAst (fun v info v' hvn hvq hv he => ?_) hu
    obtain ⟨rfl, rfl⟩ := Prod.mk.inj (Option.some.inj he)
    have hinfo : (MemberOp.excPortInfo.exec v.proc).1.entries = entries := hv.2
    refine Calm.safe_op hAst (fun x p x' hxn hxq hx he => ?_) ⟨hvn.ge, fun _ => ⟨hvq, hv⟩⟩
    obtain ⟨rfl, rfl⟩ := Prod.mk.inj (Option.some.inj he)
    rw [hinfo, show (MemberOp.taskPort.exec x.proc).1 = t from hx.1.task]
    simp only [Prog.bind_assoc, Prog.bind_op]
    have hloop := restoreEntries_safe (n := n) entries hvalid (w := x)
      ⟨hxn.ge, fun _ => ⟨hxq, hx.1⟩⟩
    refine Prog.Safe.bind (hloop.mono (fun _ y hy => ?_) fun _ _ _ => trivial)
    have hkept {S : List Part}
        (hS : ∀ x ∈ S, x ∈ [Part.status, .excPortInfo, .exceptionPort, .thread])
        (hqS : .queue ∉ S) : KeptBy S (Calm n (Settled w₁ t (restoredTable w₁))) :=
      Calm.keptBy (KeptBy.mono (Settled.keptBy _) hS) hqS
    refine safe_bind (S := [.excPortInfo]) (p := member _) (.member rfl)
      (Calm.stable (Settled.undisturbed _)) (hkept (by decide) (by decide)) (fun _ z hz => ?_) hy
    exact safe_bind joinExceptionThread_within (Calm.stable (Settled.undisturbed _))
      (hkept (by decide) (by decide)) (fun kr _ h => hend kr _ h) hz
  have hpost := h.post (Q := fun _ =>
    Calm n (Found (t := t) (restoredTable w₁) ((w₁.kern.task t).suspendCount - 1)))
    (E := fun _ _ => True) (by
      unfold MachProcess.detach
      refine safe_bind (S := []) (.member rfl) (Calm.stable hAst)
        (Calm.keptBy (hAkept.mono (by simp)) (by simp)) (fun st u hu => ?_) hstart
      refine safe_bind (S := []) (by simp) (Calm.stable hAst)
        (Calm.keptBy (hAkept.mono (by simp)) (by simp)) (fun _ u hu => ?_) hu
      split
      · exact safe_bind stop_within (Calm.stable hAst) (Calm.keptBy hAkept (by decide))
          (fun _ u hu => hshut u hu) hu
      · exact hshut u hu)
  exact (hpost.2 hn).2

/-- `Detach` replies to nothing. -/
theorem detach_replied {sdk : Sdk} {w₁ w : World} (h : Returns sdk MachProcess.detach w₁ w) :
    w.kern.replied = w₁.kern.replied ∧ w₁.kern.nextSerial ≤ w.kern.nextSerial := by
  have hstable : Prog.Stable aroundContract fun u =>
      w₁.Same u .replied ∧ w₁.kern.nextSerial ≤ u.kern.nextSerial :=
    fun _ _ hu hr => ⟨hu.1.trans hr.replied, hu.2.trans hr.sent⟩
  refine h.post (Q := fun _ u => w₁.Same u .replied ∧ w₁.kern.nextSerial ≤ u.kern.nextSerial)
    (detach_within.uses.safe hstable (fun o ho u b u' hu he _ => ⟨trivial, ?_, ?_⟩)
      ⟨.refl _ _, le_rfl⟩)
  · exact hu.1.trans (exec_same o he fun hp => absurd (ho _ hp) (by decide))
  · rw [(exec_follows o he).nextSerial]
    exact hu.2

/-- While no message is waiting and none is sent, `Detach` leaves the queued messages alone. -/
theorem detach_messages {sdk : Sdk} {w₁ w : World} (h : Returns sdk MachProcess.detach w₁ w)
    (hq : w₁.kern.queue = []) (hn : w.kern.nextSerial = w₁.kern.nextSerial) :
    w.proc.mExceptionMessages = w₁.proc.mExceptionMessages := by
  have hstable : Prog.Stable aroundContract
      (Calm w₁.kern.nextSerial fun u => w₁.Same u .messages) :=
    Calm.stable fun u u' _ hp _ hu => by
      rw [World.Same, hp]
      exact hu
  have hpost := h.post (Q := fun _ => Calm w₁.kern.nextSerial fun u => w₁.Same u .messages)
    (detach_within.uses.safe hstable
      (fun o ho u b u' hu he _ => ⟨trivial, Calm.keptBy (S := [.portTable, .excPortInfo,
        .exceptionPort, .thread, .suspendCount, .status]) ?_ (by decide) o ho u b u' he hu⟩)
      ⟨le_rfl, fun _ => ⟨hq, .refl _ _⟩⟩)
  · exact (hpost.2 hn).2
  · intro β o ho u b u' he hu
    exact hu.trans (exec_same o he fun hp => absurd (ho _ hp) (by decide))

/-- The target is released: every message of the session has been replied to, and the tracked task
has the exception ports and the suspend count that the target had before the attach. -/
structure Released (k₀ : Kernel) (pid : ℤ) (w : World) : Prop where
  replied : ∀ n, k₀.nextSerial ≤ n → n < w.kern.nextSerial → n ∈ w.kern.replied
  messages : w.proc.mExceptionMessages = []
  table : (w.kern.task w.proc.mTask.mTask).excPorts = (k₀.task (k₀.portFor pid)).excPorts
  count : (w.kern.task w.proc.mTask.mTask).suspendCount =
    (k₀.task (k₀.portFor pid)).suspendCount

/-- The states in which `Detach` can release the target: every message sent so far has been replied
to, the entries that can be assigned cover the exception types that differ, and the debugger holds
one suspension, or none on a target that was not suspended before. -/
structure Releasable (k₀ : Kernel) (pid : ℤ) (w : World) : Prop where
  replied : ∀ n, k₀.nextSerial ≤ n → n < w.kern.nextSerial → n ∈ w.kern.replied
  table : ∀ e, (∃ x ∈ settable (w.kern.faults .taskSetExceptionPorts)
      (w.kern.calls .taskSetExceptionPorts) w.proc.mTask.mExcPortInfo.entries,
      x.mask.getLsbD e = true) ∨
    (w.kern.task w.proc.mTask.mTask).excPorts e = (k₀.task (k₀.portFor pid)).excPorts e
  count : (w.kern.task w.proc.mTask.mTask).suspendCount =
      (k₀.task (k₀.portFor pid)).suspendCount + 1 ∨
    (w.kern.task w.proc.mTask.mTask).suspendCount = 0 ∧
      (k₀.task (k₀.portFor pid)).suspendCount = 0

theorem settable_sublist (F : ℕ → Option {e : KernReturn // e ≠ 0#32}) (n : ℕ)
    (entries : List PortEntry) : (settable F n entries).Sublist entries := by
  induction entries generalizing n with
  | nil => exact List.Sublist.refl _
  | cons x xs ih =>
    rw [settable]
    split
    · exact (ih (n + 1)).cons_cons x
    · exact List.nil_sublist _

/-- The loop of `Restore` brings a recorded table back exactly when the entries that it assigns
cover the types that differ. -/
theorem restoredTable_eq_iff {K : ExcPortSupport} {T : PortTable} {w : World}
    (h : Records K T w.proc.mTask.mExcPortInfo.entries) :
    restoredTable w = T ↔ ∀ e, (∃ x ∈ settable (w.kern.faults .taskSetExceptionPorts)
      (w.kern.calls .taskSetExceptionPorts) w.proc.mTask.mExcPortInfo.entries,
      x.mask.getLsbD e = true) ∨ (w.kern.task w.proc.mTask.mTask).excPorts e = T e := by
  have hagree : ∀ x ∈ settable (w.kern.faults .taskSetExceptionPorts)
      (w.kern.calls .taskSetExceptionPorts) w.proc.mTask.mExcPortInfo.entries, _ :=
    fun x hx => (h x ((settable_sublist _ _ _).subset hx)).2
  have happly := PortTable.assignAll_apply hagree (w.kern.task w.proc.mTask.mTask).excPorts
  rw [funext_iff]
  refine forall_congr' ?_
  intro e
  rw [restoredTable, happly e]
  split
  · simp_all
  · simp_all

/-- **When `Detach` releases the target**: in a session on a new object, a `Detach` that returns has
released the target completely exactly when it was releasable before, and the target sent nothing
while `Detach` ran. -/
theorem detach_released_iff (sdk : Sdk) (allow : Label → Prop) (k₀ : Kernel) (pid : ℤ)
    (ignored : List ExceptionMask) (w₁ w : World) (hqueue : k₀.queue = [])
    (hreplied : ∀ n ∈ k₀.replied, n < k₀.nextSerial)
    (hsession : Attached sdk allow ⟨{}, k₀⟩ pid ignored ⟨.idle, w₁⟩)
    (hdetach : Returns sdk MachProcess.detach w₁ w) :
    Released k₀ pid w ↔ Releasable k₀ pid w₁ ∧ w.kern.nextSerial = w₁.kern.nextSerial := by
  have hacc := hsession.accounted hqueue hreplied
  obtain ⟨hrep, hmono⟩ := detach_replied hdetach
  have hsent (h : ∀ n, k₀.nextSerial ≤ n → n < w.kern.nextSerial → n ∈ w.kern.replied) :
      w.kern.nextSerial = w₁.kern.nextSerial := by
    refine le_antisymm (le_of_not_gt fun hlt => ?_) hmono
    have hmem := h _ hacc.started hlt
    rw [hrep] at hmem
    exact (hacc.replied _ hmem).false
  have hpending (h : ∀ n, k₀.nextSerial ≤ n → n < w₁.kern.nextSerial → n ∈ w₁.kern.replied) :
      w₁.proc.mExceptionMessages = [] ∧ w₁.kern.queue = [] := by
    have hnil : pending w₁ = [] := by
      refine List.eq_nil_iff_forall_not_mem.mpr ?_
      intro n hn
      obtain ⟨hge, hlt, hnot⟩ := hacc.unreplied n hn
      exact hnot (h n hge hlt)
    simpa [pending] using hnil
  have hrest (hq : w₁.kern.queue = []) (hn : w.kern.nextSerial = w₁.kern.nextSerial) :=
    detach_calm hdetach hq (fun x hx => hacc.support ▸ (hacc.records x hx).1) hn
  constructor
  · intro h
    have hn := hsent h.replied
    have hall : ∀ n, k₀.nextSerial ≤ n → n < w₁.kern.nextSerial → n ∈ w₁.kern.replied :=
      hrep ▸ hn ▸ h.replied
    have hfound := hrest (hpending hall).2 hn
    have htable := h.table
    have hcount := h.count
    rw [hfound.task, hfound.table] at htable
    rw [hfound.task, hfound.count] at hcount
    exact ⟨⟨hall, (restoredTable_eq_iff hacc.records).mp htable, by omega⟩, hn⟩
  · rintro ⟨h, hn⟩
    obtain ⟨hms, hq⟩ := hpending h.replied
    have hfound := hrest hq hn
    refine ⟨hrep ▸ hn ▸ h.replied, (detach_messages hdetach hq hn).trans hms, ?_, ?_⟩
    · rw [hfound.task, hfound.table]
      exact (restoredTable_eq_iff hacc.records).mpr h.table
    · rw [hfound.task, hfound.count]
      have hcount := h.count
      omega

/-- A session whose one message has been held, and replied to by a `Resume`, is released. -/
theorem detach_released_resumed : ∃ w₁ w,
    Attached .macos (fun _ => True) ⟨{}, .oneProcess fun _ _ => none⟩ 7 [] ⟨.idle, w₁⟩ ∧
    Returns .macos MachProcess.detach w₁ w ∧ w.kern.replied = [0] ∧
    Released (.oneProcess fun _ _ => none) 7 w := by
  obtain ⟨w₁, hsession, w, hdetach, hserial', hserial, hrep, hset, htable, hcount⟩ : ∃ w₁,
      Attached .macos (fun _ => True) ⟨{}, .oneProcess fun _ _ => none⟩ 7 [] ⟨.idle, w₁⟩ ∧
      ∃ w, MachProcess.detach.run world w₁ = (.done (), w) ∧
        w.kern.nextSerial = 1 ∧ w₁.kern.nextSerial = 1 ∧ w₁.kern.replied = [0] ∧
        settable (w₁.kern.faults .taskSetExceptionPorts) (w₁.kern.calls .taskSetExceptionPorts)
          w₁.proc.mTask.mExcPortInfo.entries =
            ExcPortSupport.singletons.group (fun _ => ⟨0, 0, 0⟩) prevExcMaskAll ∧
        (w₁.kern.task w₁.proc.mTask.mTask).excPorts =
          PortTable.assign (fun _ => ⟨0, 0, 0⟩) prevExcMaskAll (MachTask.exceptionAction 101) ∧
        (w₁.kern.task w₁.proc.mTask.mTask).suspendCount = 0 := by
    refine ⟨_, ⟨_, _, rfl, .head ⟨.event (.send .breakpoint), ⟨trivial, trivial⟩, .event _⟩ <|
      .head ⟨.turn, ⟨trivial, trivial⟩, .turn (n := 0) rfl rfl⟩ <|
      .trans ((Session.Runs.of_run rfl).mono fun l hl => ⟨by cases l <;> trivial, trivial⟩) <|
      .head ⟨.op, ⟨trivial, trivial⟩, .ret⟩ <|
      .single ⟨.call .resume, ⟨trivial, trivial⟩, .whole rfl rfl rfl⟩⟩, ?_⟩
    exact ⟨_, rfl, rfl, rfl, rfl, rfl, rfl, rfl⟩
  have hreturns : Returns .macos MachProcess.detach w₁ w := Session.Runs.of_run hdetach
  refine ⟨w₁, w, hsession, hreturns, (detach_replied hreturns).1.trans hrep, ?_⟩
  refine (detach_released_iff .macos _ _ 7 [] w₁ w rfl (by simp [Kernel.oneProcess]) hsession
    hreturns).mpr ⟨⟨?_, fun e => ?_, .inr ⟨hcount, rfl⟩⟩, hserial'.trans hserial.symm⟩
  · intro n _ hn
    rw [hserial] at hn
    rw [hrep]
    exact List.mem_singleton.mpr (by omega)
  · rw [hset, htable, PortTable.assign_apply]
    by_cases he : prevExcMaskAll.getLsbD e = true
    · exact .inl ((ExcPortSupport.singletons.cover _ _ (by decide) e).mp he)
    · rw [if_neg he]
      exact .inr rfl

/-- A message that is queued when the debugger detaches is never replied to. -/
theorem detach_queued_not_released : ∃ w₁ w,
    Attached .macos (fun _ => True) ⟨{}, .oneProcess fun _ _ => none⟩ 7 [] ⟨.idle, w₁⟩ ∧
    Returns .macos MachProcess.detach w₁ w ∧ ¬ Released (.oneProcess fun _ _ => none) 7 w := by
  obtain ⟨w₁, hsession, w, hdetach, hqueued⟩ : ∃ w₁,
      Attached .macos (fun _ => True) ⟨{}, .oneProcess fun _ _ => none⟩ 7 [] ⟨.idle, w₁⟩ ∧
      ∃ w, MachProcess.detach.run world w₁ = (.done (), w) ∧ w.proc.mExceptionMessages ≠ [] := by
    refine ⟨_, ⟨_, _, rfl, .head ⟨.event (.send .breakpoint), ⟨trivial, trivial⟩, .event _⟩ <|
      .head ⟨.turn, ⟨trivial, trivial⟩, .turn (n := 0) rfl rfl⟩ <|
      .tail ((Session.Runs.of_run rfl).mono fun l hl => ⟨by cases l <;> trivial, trivial⟩)
        ⟨.op, ⟨trivial, trivial⟩, .ret⟩⟩, ?_⟩
    exact ⟨_, rfl, List.cons_ne_nil _ _⟩
  exact ⟨w₁, w, hsession, Session.Runs.of_run hdetach, fun h => hqueued h.messages⟩

end MachDebug
