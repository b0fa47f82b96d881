import MachDebug.Session.AttachFailure

/-!
# The exception-port round trip

Without injected failures, `StartExceptionThread` redirects the exception types of the saved mask
that are not ignored to the debugger's port, and `ShutDownExcecptionThread` assigns every saved
entry back. The saved entries cover the whole saved mask, whatever was ignored, so the target's
exception ports are then what they were at the start.

## Main definitions

* `savedMask sdk K`: the mask that `Save` settles on
* `assignedTask k t entries`: the tasks after entries have been assigned to `t`

## Main results

* `run_start`, `run_shutDown`: the two halves
* `exceptionPorts_roundTrip`: the round trip
-/

namespace MachDebug

open Program

/-! ## Masks -/

/-- The types left after the ignored masks have been taken out. -/
theorem removeIgnored_getLsbD (mask : ExceptionMask) (ignored : List ExceptionMask) (e : ℕ) :
    (MachTask.removeIgnored mask ignored).getLsbD e = true ↔
      mask.getLsbD e = true ∧ ∀ i ∈ ignored, i.getLsbD e = false := by
  induction ignored generalizing mask with
  | nil => simp [MachTask.removeIgnored]
  | cons i is ih =>
    have hcons : MachTask.removeIgnored mask (i :: is) =
        MachTask.removeIgnored (mask &&& ~~~i) is := rfl
    rw [hcons, ih]
    by_cases hm : mask.getLsbD e = true
    · have hlt : e < 32 := BitVec.lt_of_getLsbD hm
      simp [hm, hlt]
    · simp [hm]

/-- The mask that `Save` settles on: all exceptions if the kernel knows them, or the older mask. -/
def savedMask (sdk : Sdk) (K : ExcPortSupport) : ExceptionMask :=
  if sdk.excMaskAll &&& K.valid = sdk.excMaskAll then sdk.excMaskAll else prevExcMaskAll

theorem prevExcMaskAll_ne_zero : prevExcMaskAll ≠ 0 := by decide

theorem savedMask_valid (sdk : Sdk) {K : ExcPortSupport}
    (hprev : prevExcMaskAll &&& K.valid = prevExcMaskAll) :
    savedMask sdk K &&& K.valid = savedMask sdk K := by
  unfold savedMask
  split
  · assumption
  · exact hprev

theorem Sdk.excMaskAll_ne_zero (sdk : Sdk) : sdk.excMaskAll ≠ 0 := by
  intro h
  have hprev := sdk.prev_le
  rw [h] at hprev
  exact prevExcMaskAll_ne_zero (by simpa using hprev.symm)

theorem savedMask_ne_zero (sdk : Sdk) (K : ExcPortSupport) : savedMask sdk K ≠ 0 := by
  unfold savedMask
  split
  · exact sdk.excMaskAll_ne_zero
  · exact prevExcMaskAll_ne_zero

/-! ## The parts of the round trip -/

section Parts

variable {w : World}

/-- `Save` returns the entries of the mask it settles on. -/
theorem run_save (sdk : Sdk) {t : Port} (hk : w.kern.FaultFree) (hl : w.kern.live t = true)
    (hprev : prevExcMaskAll &&& w.kern.excPorts.valid = prevExcMaskAll) :
    ∃ k, (PortInfo.save sdk t).run world w =
      (.done (0, ⟨savedMask sdk w.kern.excPorts,
        w.kern.excPorts.group (w.kern.task t).excPorts (savedMask sdk w.kern.excPorts)⟩),
        ⟨w.proc, k⟩) ∧ k.task = w.kern.task := by
  unfold PortInfo.save
  simp only [Prog.bind_eq, sys_bind]
  by_cases hall : sdk.excMaskAll &&& w.kern.excPorts.valid = sdk.excMaskAll
  · refine ⟨w.kern.tally .taskGetExceptionPorts, ?_, rfl⟩
    rw [run_sys (b := (0, w.kern.excPorts.group (w.kern.task t).excPorts sdk.excMaskAll))
      (k := w.kern.tally .taskGetExceptionPorts)]
    · simp [savedMask, hall, kernInvalidArgument]
    · simp [SysOp.exec, hk.issue_eq, hl, hall]
  · have hne : sdk.excMaskAll ≠ prevExcMaskAll := fun he => hall (he ▸ hprev)
    have hk' := hk.tally .taskGetExceptionPorts
    refine ⟨(w.kern.tally .taskGetExceptionPorts).tally .taskGetExceptionPorts, ?_, rfl⟩
    rw [run_sys (b := (kernInvalidArgument, [])) (k := w.kern.tally .taskGetExceptionPorts)]
    · simp only [hne, ne_eq, not_false_eq_true, and_self, if_true]
      rw [run_sys (b := (0, w.kern.excPorts.group (w.kern.task t).excPorts prevExcMaskAll))
        (k := (w.kern.tally .taskGetExceptionPorts).tally .taskGetExceptionPorts)]
      · simp [savedMask, hall]
      · simp [SysOp.exec, hk'.issue_eq, hl, hprev]
    · simp [SysOp.exec, hk.issue_eq, hl, hall]

/-- The tasks after entries have been assigned to one of them. -/
def assignedTask (k : Kernel) (t : Port) (entries : List PortEntry) : Port → Task :=
  Function.update k.task t
    { k.task t with excPorts := (k.task t).excPorts.assignAll entries }

/-- The loop of `Restore` assigns every entry. -/
theorem run_restoreEntries {t : Port} (entries : List PortEntry) (hk : w.kern.FaultFree)
    (hl : w.kern.live t = true)
    (hvalid : ∀ x ∈ entries, x.mask &&& w.kern.excPorts.valid = x.mask) :
    ∃ k, (PortInfo.restoreEntries t entries).run world w = (.done 0, ⟨w.proc, k⟩) ∧
      k.task = assignedTask w.kern t entries := by
  induction entries generalizing w with
  | nil => exact ⟨w.kern, rfl, by simp [assignedTask]⟩
  | cons x xs ih =>
    have hx := hvalid x List.mem_cons_self
    obtain ⟨k₁, hex, htask₁⟩ : ∃ k₁, (SysOp.taskSetExceptionPorts t x.mask x.action).exec w.kern =
        some (0, k₁) ∧ k₁.task = assignedTask w.kern t [x] :=
      ⟨(w.kern.tally .taskSetExceptionPorts).assignPorts t x.mask x.action, by
        simp only [SysOp.exec, hk.issue_eq, Kernel.tally_live, hl, Kernel.tally_excPorts, hx,
          if_true], rfl⟩
    have hfol := sys_follows _ hex
    obtain ⟨k, hrun, htask⟩ := ih (w := ⟨w.proc, k₁⟩) (hfol.faultFree hk)
      ((hfol.live t).trans hl) fun y hy => by
        rw [hfol.excPorts]; exact hvalid y (List.mem_cons_of_mem x hy)
    refine ⟨k, ?_, ?_⟩
    · unfold PortInfo.restoreEntries
      simp only [Prog.bind_eq, sys_bind]
      rw [run_sys hex]
      exact hrun
    · rw [htask]
      simp [assignedTask, htask₁]

/-- `StartExceptionThread` for a valid task redirects the saved mask without the ignored types. -/
theorem run_redirect (sdk : Sdk) (ignored : List ExceptionMask) {t : Port} (hk : w.kern.FaultFree)
    (hl : w.kern.live t = true) (ht : w.proc.mTask.mTask = t)
    (hprev : prevExcMaskAll &&& w.kern.excPorts.valid = prevExcMaskAll) {m : ExceptionMask}
    (hm : m = savedMask sdk w.kern.excPorts) :
    ∃ k, ((MachTask.savePorts sdk).bind fun s => MachTask.redirect ignored t s.1 s.2).run world w =
        (.done (true, .ofKern 0),
        ⟨{ w.proc with mTask.mExcPortInfo := ⟨MachTask.removeIgnored m ignored,
            w.kern.excPorts.group (w.kern.task t).excPorts m⟩ }, k⟩) ∧
      k.task = assignedTask w.kern t
        [⟨MachTask.removeIgnored m ignored,
          MachTask.exceptionAction w.proc.mTask.mExceptionPort⟩] := by
  have hex₁ : (SysOp.machPortInsertRight w.proc.mTask.mExceptionPort).exec w.kern =
      some (0, w.kern.tally .machPortInsertRight) := by simp [SysOp.exec, hk.issue_eq]
  have hfol₁ := sys_follows _ hex₁
  obtain ⟨k₂, hsave, htask₂⟩ := run_save (w := ⟨w.proc, w.kern.tally .machPortInsertRight⟩) sdk
    (hfol₁.faultFree hk) ((hfol₁.live t).trans hl) hprev
  have hfol₂ : w.kern.Follows k₂ := by
    refine hfol₁.trans ?_
    simpa only [hsave] using
      run_follows (PortInfo.save sdk t) ⟨w.proc, w.kern.tally .machPortInsertRight⟩
  have hk₂ := hfol₂.faultFree hk
  -- the kernel accepts what is left of the mask without the ignored types
  have hmv : MachTask.removeIgnored m ignored &&& k₂.excPorts.valid =
      MachTask.removeIgnored m ignored := by
    refine and_valid_of_subset ?_
    intro e he
    rw [hfol₂.excPorts]
    exact subset_of_and_valid (hm ▸ savedMask_valid sdk hprev)
      ((removeIgnored_getLsbD m ignored e).mp he).1
  obtain ⟨k₃, hex₃, htask₃⟩ : ∃ k₃,
      (SysOp.taskSetExceptionPorts t (MachTask.removeIgnored m ignored)
        (MachTask.exceptionAction w.proc.mTask.mExceptionPort)).exec k₂ = some (0, k₃) ∧
      k₃.task = assignedTask k₂ t
        [⟨MachTask.removeIgnored m ignored,
          MachTask.exceptionAction w.proc.mTask.mExceptionPort⟩] :=
    ⟨(k₂.tally .taskSetExceptionPorts).assignPorts t (MachTask.removeIgnored m ignored)
      (MachTask.exceptionAction w.proc.mTask.mExceptionPort), by
        simp only [SysOp.exec, hk₂.issue_eq, Kernel.tally_live, hfol₂.live, hl,
          Kernel.tally_excPorts, hmv, if_true], rfl⟩
  have hk₃ := (sys_follows _ hex₃).faultFree hk₂
  have hex₄ : SysOp.pthreadCreate.exec k₃ =
      some (0, { k₃.tally .pthreadCreate with excThread := true, cancelled := false }) := by
    simp [SysOp.exec, hk₃.issue_eq]
  refine ⟨{ k₃.tally .pthreadCreate with excThread := true, cancelled := false }, ?_, ?_⟩
  · unfold MachTask.savePorts MachTask.redirect
    simp only [Prog.bind_eq, Prog.bind_assoc, member_bind, sys_bind, Prog.bind_op, run_member,
      MemberOp.exec]
    rw [run_sys hex₁]
    simp only [DNBError.success_ofKern, decide_true, Prog.assert_true, Prog.bind_ret, run_member,
      MemberOp.exec, ht]
    rw [Prog.run_bind_done (h := hsave)]
    simp only [Kernel.tally_excPorts, Kernel.tally_task, ← hm, Prog.pure_eq, Prog.bind_ret,
      run_member, MemberOp.exec]
    rw [if_neg (hm ▸ savedMask_ne_zero sdk _), run_member]
    simp only [MemberOp.exec, run_member]
    rw [run_sys (w := ⟨_, k₂⟩) hex₃]
    simp only [decide_true, Prog.assert_true, Prog.bind_ret]
    rw [run_sys (w := ⟨_, k₃⟩) hex₄]
    simp [ht]
  · simp only [Kernel.tally_task, htask₃, assignedTask, htask₂]

/-- `ShutDownExcecptionThread` assigns every saved entry back. -/
theorem run_shutDown {t : Port} (hk : w.kern.FaultFree) (hl : w.kern.live t = true)
    (ht : w.proc.mTask.mTask = t)
    (hvalid : ∀ x ∈ w.proc.mTask.mExcPortInfo.entries, x.mask &&& w.kern.excPorts.valid = x.mask) :
    ∃ p k, MachTask.shutDownExcecptionThread.run world w = (.done 0, ⟨p, k⟩) ∧
      k.task = assignedTask w.kern t w.proc.mTask.mExcPortInfo.entries := by
  obtain ⟨k₁, hrest, htask⟩ := run_restoreEntries _ hk hl hvalid
  have hk₁ : k₁.FaultFree := by
    refine Kernel.Follows.faultFree ?_ hk
    simpa only [hrest] using
      run_follows (PortInfo.restoreEntries t w.proc.mTask.mExcPortInfo.entries) w
  obtain ⟨k₂, hex₂, htask₂⟩ : ∃ k₂, SysOp.pthreadCancel.exec k₁ = some (0, k₂) ∧
      k₂.task = k₁.task :=
    ⟨{ k₁.tally .pthreadCancel with cancelled := true }, by simp [SysOp.exec, hk₁.issue_eq], rfl⟩
  have hk₂ := (sys_follows _ hex₂).faultFree hk₁
  obtain ⟨k₃, hex₃, htask₃⟩ : ∃ k₃, SysOp.pthreadJoin.exec k₂ = some (0, k₃) ∧
      k₃.task = k₂.task :=
    ⟨{ k₂.tally .pthreadJoin with excThread := false }, by simp [SysOp.exec, hk₂.issue_eq], rfl⟩
  have hk₃ := (sys_follows _ hex₃).faultFree hk₂
  have hex₄ : (SysOp.machPortDeallocate w.proc.mTask.mExceptionPort).exec k₃ =
      some (0, k₃.tally .machPortDeallocate) := by simp [SysOp.exec, hk₃.issue_eq]
  refine ⟨{ w.proc with
    mTask.mExcPortInfo := { w.proc.mTask.mExcPortInfo with entries := [] }
    mTask.mExceptionPort := 0 }, k₃.tally .machPortDeallocate, ?_, by simp [htask₃, htask₂, htask]⟩
  unfold MachTask.shutDownExcecptionThread PortInfo.restore MachTask.joinExceptionThread
  simp only [Prog.bind_eq, member_bind, sys_bind, run_member, MemberOp.exec, ht, Prog.bind_assoc]
  rw [Prog.run_bind_done (h := hrest)]
  simp only [Prog.pure_eq, Prog.bind_ret, run_member, MemberOp.exec]
  rw [run_sys (w := ⟨_, k₁⟩) hex₂]
  simp only [DNBError.success, DNBError.setError, decide_true, Prog.assert_true, Prog.bind_ret]
  rw [run_sys (w := ⟨_, k₂⟩) hex₃]
  simp only [decide_true, Prog.assert_true, Prog.bind_ret, sys, Prog.call]
  rw [run_sys (w := ⟨_, k₃⟩) hex₄]
  simp [ht]

/-- `StartExceptionThread` for a valid task allocates the debugger's port and redirects to it. -/
theorem run_start (sdk : Sdk) (ignored : List ExceptionMask) {t : Port} (hk : w.kern.FaultFree)
    (ht : MachProcess.attachPort w w.proc.mPid = t) (hl : w.kern.live t = true)
    (hprev : prevExcMaskAll &&& w.kern.excPorts.valid = prevExcMaskAll) {m : ExceptionMask}
    (hm : m = savedMask sdk w.kern.excPorts) :
    ∃ p k, (MachTask.startExceptionThread sdk ignored {}).run world w =
        (.done (true, .ofKern 0), ⟨p, k⟩) ∧
      p.mTask.mTask = t ∧
      p.mTask.mExcPortInfo.entries = w.kern.excPorts.group (w.kern.task t).excPorts m ∧
      k.task = assignedTask w.kern t
        [⟨MachTask.removeIgnored m ignored, MachTask.exceptionAction p.mTask.mExceptionPort⟩] := by
  obtain ⟨k₁, hk₁, -, hrun⟩ := MachProcess.run_startExceptionThread sdk ignored w ht
  have hff₁ := hk₁.follows.faultFree hk
  obtain ⟨hexc₁, htask₁⟩ : k₁.excPorts = w.kern.excPorts ∧ k₁.task = w.kern.task := by
    obtain ⟨calls, -, rfl⟩ := hk₁
    exact ⟨rfl, rfl⟩
  have hprobe : w.kern.probe t = true := by simp [Kernel.probe, hk _ _ le_rfl, hl]
  obtain ⟨port, k₂, hex₂, htask₂⟩ : ∃ port k₂,
      SysOp.machPortAllocate.exec k₁ = some ((0, port), k₂) ∧ k₂.task = k₁.task :=
    ⟨k₁.lastPort + 1, { k₁.tally .machPortAllocate with lastPort := k₁.lastPort + 1 }, by
      simp only [SysOp.exec, hff₁.issue_eq, Kernel.tally_lastPort], rfl⟩
  rw [htask₁] at htask₂
  have hfol₂ := sys_follows _ hex₂
  obtain ⟨k₃, hred, htask₃⟩ := run_redirect
    (w := ⟨{ w.proc with mTask.mTask := t, mTask.mExceptionPort := port }, k₂⟩) sdk ignored
    (hfol₂.faultFree hff₁) (by simpa only [Kernel.live, htask₂] using hl) rfl
    (by rw [hfol₂.excPorts, hexc₁]; exact hprev) (hm.trans (by rw [hfol₂.excPorts, hexc₁]))
  have hstart : (MachTask.startExceptionThread sdk ignored {}).run world w =
      ((MachTask.savePorts sdk).bind fun s => MachTask.redirect ignored t s.1 s.2).run world
        ⟨{ w.proc with mTask.mTask := t, mTask.mExceptionPort := port }, k₂⟩ := by
    rw [hrun, hprobe]
    simp only [if_true, MachTask.listen, Prog.bind_eq, sys_bind]
    rw [run_sys hex₂]
    simp only [member_bind, run_member, MemberOp.exec, DNBError.success_ofKern, decide_true,
      Prog.assert_true, Prog.bind_ret]
  refine ⟨_, k₃, hstart.trans hred, rfl, by simp only [hfol₂.excPorts, hexc₁, htask₂], ?_⟩
  rw [htask₃]
  simp only [assignedTask, htask₂]

end Parts

/-- The table of a task after entries have been assigned to it. -/
theorem assignedTask_excPorts (k : Kernel) (t : Port) (entries : List PortEntry) :
    (assignedTask k t entries t).excPorts = (k.task t).excPorts.assignAll entries := by
  simp [assignedTask]

theorem assignedTask_of_ne (k : Kernel) {t t' : Port} (h : t' ≠ t) (entries : List PortEntry) :
    assignedTask k t entries t' = k.task t' := by
  simp [assignedTask, h]

/-- **The exception-port round trip**: after `StartExceptionThread` the target's exceptions of the
saved mask that are not ignored go to the debugger's port, and after a following
`ShutDownExcecptionThread` every exception port is what it was. -/
theorem exceptionPorts_roundTrip (sdk : Sdk) (ignored : List ExceptionMask) (w : World) (t : Port)
    (hk : w.kern.FaultFree) (ht : MachProcess.attachPort w w.proc.mPid = t)
    (hl : w.kern.live t = true)
    (hprev : prevExcMaskAll &&& w.kern.excPorts.valid = prevExcMaskAll) :
    ∃ err w₁ w₂,
      (MachTask.startExceptionThread sdk ignored {}).run world w = (.done (true, err), w₁) ∧
      (∀ e, (w₁.kern.task t).excPorts e =
        if (savedMask sdk w.kern.excPorts).getLsbD e = true ∧
            ∀ i ∈ ignored, i.getLsbD e = false then
          MachTask.exceptionAction w₁.proc.mTask.mExceptionPort
        else (w.kern.task t).excPorts e) ∧
      (∀ t' ≠ t, (w₁.kern.task t').excPorts = (w.kern.task t').excPorts) ∧
      MachTask.shutDownExcecptionThread.run world w₁ = (.done 0, w₂) ∧
      ∀ t', (w₂.kern.task t').excPorts = (w.kern.task t').excPorts := by
  obtain ⟨p, k₁, hstart, htask, hentries, hk₁⟩ := run_start sdk ignored hk ht hl hprev rfl
  have hfol : w.kern.Follows k₁ := by
    simpa only [hstart] using run_follows (MachTask.startExceptionThread sdk ignored {}) w
  have hmv := savedMask_valid sdk hprev
  -- the kernel accepts the masks of the saved entries again
  have hvalid : ∀ x ∈ p.mTask.mExcPortInfo.entries, x.mask &&& k₁.excPorts.valid = x.mask := by
    intro x hx
    rw [hfol.excPorts]
    exact w.kern.excPorts.group_mask_valid hmv (hentries ▸ hx)
  obtain ⟨p₂, k₂, hshut, hk₂⟩ := run_shutDown (w := ⟨p, k₁⟩) (hfol.faultFree hk)
    ((hfol.live t).trans hl) htask hvalid
  refine ⟨_, _, _, hstart, fun e => ?_, fun t' h => ?_, hshut, fun t' => ?_⟩
  · rw [hk₁, assignedTask_excPorts]
    simp only [PortTable.assignAll_cons, PortTable.assignAll_nil, PortTable.assign_apply,
      removeIgnored_getLsbD]
  · rw [hk₁, assignedTask_of_ne _ h]
  · rw [hk₂]
    rcases eq_or_ne t' t with rfl | h
    · funext e
      -- a type outside the saved mask was never redirected
      rw [assignedTask_excPorts, hentries, ExcPortSupport.assignAll_group _ hmv, hk₁,
        assignedTask_excPorts]
      simp only [PortTable.assignAll_cons, PortTable.assignAll_nil, PortTable.assign_apply,
        removeIgnored_getLsbD]
      split <;> simp_all
    · rw [assignedTask_of_ne _ h, hk₁, assignedTask_of_ne _ h]

/-- The round trip of a running process with breakpoint exceptions ignored, twice. -/
theorem exceptionPorts_roundTrip_oneProcess : ∃ w₁ w₂ err,
    (MachTask.startExceptionThread .macos [BitVec.twoPow 32 6, BitVec.twoPow 32 6] {}).run world
        ⟨{ mPid := 7 }, .oneProcess fun _ _ => none⟩ = (.done (true, err), w₁) ∧
      MachTask.shutDownExcecptionThread.run world w₁ = (.done 0, w₂) ∧
      (w₂.kern.task 1).excPorts = fun _ => ⟨0, 0, 0⟩ := by
  obtain ⟨err, w₁, w₂, hstart, -, -, hshut, htable⟩ := exceptionPorts_roundTrip .macos
    [BitVec.twoPow 32 6, BitVec.twoPow 32 6] ⟨{ mPid := 7 }, .oneProcess fun _ _ => none⟩ 1
    (fun _ _ _ => rfl) (by decide) (by decide) (by decide)
  exact ⟨w₁, w₂, err, hstart, hshut, htable 1⟩

end MachDebug
