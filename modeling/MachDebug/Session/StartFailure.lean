import MachDebug.Session.ExceptionPorts

/-!
# What a failed start reports

`StartExceptionThread` returns `false` in three places. When the task is not valid the caller's
error has not been touched: the retries for the task port wrote theirs to a local of the same name.
When the exception ports could not be saved, a text is set on an error whose code is that of the
last call that succeeded, and `DNBError` decides by the code. Only a failed `pthread_create` reaches
the caller as a failure.

## Main definitions

* `Kernel.portsAnswer k t m n`: the answer of a call of `task_get_exception_ports`
* `Kernel.savesPorts k sdk t`: `Save` will find the exception ports of `t`
* `DNBError.Reports`: the error is a failure, and its text is not the one for success

## Main results

* `run_save_mask`: when `Save` has found the exception ports
* `listen_false`: a failed start for a valid task
* `start_failure_reported_iff`: when a failed start is reported as a failure
-/

namespace MachDebug

open Program

/-! ## Saving the exception ports -/

/-- The answer of the `n`-th call of `task_get_exception_ports`. -/
def Kernel.portsAnswer (k : Kernel) (t : Port) (m : ExceptionMask) (n : ℕ) : KernReturn :=
  match k.faults .taskGetExceptionPorts n with
  | some e => e.1
  | none =>
    if k.live t then if m &&& k.excPorts.valid = m then 0 else kernInvalidArgument
    else machSendInvalidDest

/-- `Save` will find the exception ports of a task, under the first mask or the second. -/
def Kernel.savesPorts (k : Kernel) (sdk : Sdk) (t : Port) : Bool :=
  let n := k.calls .taskGetExceptionPorts
  if k.portsAnswer t sdk.excMaskAll n = kernInvalidArgument ∧ sdk.excMaskAll ≠ prevExcMaskAll then
    k.portsAnswer t prevExcMaskAll (n + 1) = 0
  else k.portsAnswer t sdk.excMaskAll n = 0

/-- One call of `task_get_exception_ports`. -/
theorem exec_taskGetExceptionPorts (k : Kernel) (t : Port) (m : ExceptionMask) : ∃ entries,
    (SysOp.taskGetExceptionPorts t m).exec k =
      some ((k.portsAnswer t m (k.calls .taskGetExceptionPorts), entries),
        k.tally .taskGetExceptionPorts) := by
  unfold Kernel.portsAnswer
  cases hf : k.faults .taskGetExceptionPorts (k.calls .taskGetExceptionPorts) with
  | some e => exact ⟨[], by simp [SysOp.exec, Kernel.issue, hf]⟩
  | none =>
    by_cases hl : k.live t = true
    · by_cases hm : m &&& k.excPorts.valid = m
      · exact ⟨k.excPorts.group (k.task t).excPorts m,
          by simp [SysOp.exec, Kernel.issue, hf, hl, hm]⟩
      · exact ⟨[], by simp [SysOp.exec, Kernel.issue, hf, hl, hm]⟩
    · exact ⟨[], by simp [SysOp.exec, Kernel.issue, hf, hl]⟩

/-- The mask at the end of `Save` is `0` exactly when its last call has failed. -/
theorem mask_eq_zero_iff (kr : KernReturn) {m : ExceptionMask} (hm : m ≠ 0)
    (entries : List PortEntry) :
    (if kr ≠ 0 then (⟨0, []⟩ : PortInfo) else ⟨m, entries⟩).mask = 0 ↔ decide (kr = 0) = false := by
  by_cases hkr : kr = 0
  · rw [if_neg (not_not_intro hkr)]
    simp only [hkr, hm, decide_true, Bool.true_eq_false]
  · rw [if_pos hkr]
    simp only [hkr, decide_false]

/-- `Save` leaves a mask exactly when it has found the exception ports. -/
theorem run_save_mask (sdk : Sdk) (t : Port) (w : World) : ∃ r k,
    (PortInfo.save sdk t).run world w = (.done r, ⟨w.proc, k⟩) ∧
      (r.2.mask = 0 ↔ w.kern.savesPorts sdk t = false) := by
  obtain ⟨entries, hex⟩ := exec_taskGetExceptionPorts w.kern t sdk.excMaskAll
  unfold PortInfo.save Kernel.savesPorts
  simp only [Prog.bind_eq, sys_bind]
  rw [run_sys hex]
  by_cases hback : w.kern.portsAnswer t sdk.excMaskAll (w.kern.calls .taskGetExceptionPorts) =
      kernInvalidArgument ∧ sdk.excMaskAll ≠ prevExcMaskAll
  -- the kernel does not know one of the types: the older mask decides
  · obtain ⟨entries', hex'⟩ := exec_taskGetExceptionPorts (w.kern.tally .taskGetExceptionPorts) t
      prevExcMaskAll
    rw [if_pos hback, run_sys hex', if_pos hback]
    refine ⟨_, _, rfl, ?_⟩
    have hanswer : (w.kern.tally .taskGetExceptionPorts).portsAnswer t prevExcMaskAll
        ((w.kern.tally .taskGetExceptionPorts).calls .taskGetExceptionPorts) =
        w.kern.portsAnswer t prevExcMaskAll (w.kern.calls .taskGetExceptionPorts + 1) := by
      rw [Kernel.tally_calls_self]
      rfl
    rw [hanswer]
    exact mask_eq_zero_iff _ prevExcMaskAll_ne_zero _
  · rw [if_neg hback, if_neg hback]
    exact ⟨_, _, rfl, mask_eq_zero_iff _ sdk.excMaskAll_ne_zero _⟩

/-! ## The failure exits -/

section Exits

variable {sdk : Sdk} {ignored : List ExceptionMask} {t : Port} {w w' : World} {err : DNBError}

/-- The answers of `task_get_exception_ports` depend on what no other call changes. -/
theorem Kernel.Follows.savesPorts {k k' : Kernel} (h : k.Follows k')
    (hcalls : k'.calls .taskGetExceptionPorts = k.calls .taskGetExceptionPorts) (sdk : Sdk)
    (t : Port) : k'.savesPorts sdk t = k.savesPorts sdk t := by
  have hanswer (m : ExceptionMask) (n : ℕ) : k'.portsAnswer t m n = k.portsAnswer t m n := by
    simp only [Kernel.portsAnswer, h.faults, h.live, h.excPorts]
  simp only [Kernel.savesPorts, hanswer, hcalls]

/-- An assertion that was passed holds. -/
theorem run_assert_inv {c : Bool} {u : Unit}
    (h : (Prog.assert c : Code Unit).run world w = (.done u, w')) : c = true ∧ w' = w := by
  cases c with
  | true =>
    cases h
    exact ⟨rfl, rfl⟩
  | false => cases h

/-- The part that saves the exception ports gives an error without a code. -/
theorem savePorts_inv {info : PortInfo}
    (h : (MachTask.savePorts sdk).run world w = (.done (err, info), w')) :
    err = .ofKern 0 ∧ (info.mask = 0 ↔ w.kern.savesPorts sdk w.proc.mTask.mTask = false) := by
  unfold MachTask.savePorts at h
  simp only [Prog.bind_eq, member_bind, run_member, MemberOp.exec] at h
  obtain ⟨kr, w₁, hins, h⟩ := Prog.run_bind_eq_done world h
  obtain ⟨hproc, hex⟩ := run_sys_inv hins
  have hcalls : w₁.kern.calls .taskGetExceptionPorts = w.kern.calls .taskGetExceptionPorts :=
    Kernel.issue_calls (by decide) (fun _ => rfl) (Option.some.inj hex)
  obtain ⟨p₁, k₁⟩ := w₁
  obtain rfl : p₁ = w.proc := hproc
  obtain ⟨r, k, hsave, hmask⟩ := run_save_mask sdk w.proc.mTask.mTask ⟨w.proc, k₁⟩
  rw [(follows_of_run hins).savesPorts hcalls] at hmask
  -- the assertion leaves the code of a successful call
  obtain ⟨u, w₂, hassert, h⟩ := Prog.run_bind_eq_done world h
  obtain ⟨hkr, rfl⟩ := run_assert_inv hassert
  rw [run_member] at h
  simp only [MemberOp.exec] at h
  rw [Prog.run_bind_done (h := hsave)] at h
  cases h
  refine ⟨?_, hmask⟩
  rw [DNBError.success_ofKern, decide_eq_true_eq] at hkr
  rw [hkr]

/-- The part that redirects the exceptions fails with a text alone, or with the code of
`pthread_create`. -/
theorem redirect_false {err' : DNBError} {info : PortInfo}
    (h : (MachTask.redirect ignored t err info).run world w = (.done (false, err'), w')) :
    (info.mask = 0 ∧ err' = err.setErrorString "failed to get exception port info") ∨
    (info.mask ≠ 0 ∧ ∃ e : KernReturn, e ≠ 0 ∧ err' = .ofKern e) := by
  unfold MachTask.redirect at h
  simp only [Prog.bind_eq, member_bind, run_member, MemberOp.exec] at h
  by_cases hm : info.mask = 0
  -- no ports were saved: a text is set, and the code stays that of a success
  · rw [if_pos hm] at h
    cases h
    exact .inl ⟨hm, rfl⟩
  · rw [if_neg hm, run_member, run_member] at h
    obtain ⟨kr, w₁, -, h⟩ := Prog.run_bind_eq_done world h
    obtain ⟨u, w₂, -, h⟩ := Prog.run_bind_eq_done world h
    obtain ⟨kr', w₃, -, h⟩ := Prog.run_bind_eq_done world h
    simp only [Prog.pure_eq, Prog.run_ret, Prod.mk.injEq, Outcome.done.injEq,
      DNBError.success_ofKern, decide_eq_false_iff_not] at h
    exact .inr ⟨hm, kr', h.1.1, h.1.2.symm⟩

/-- **A failed start for a valid task**: an error without a code when the exception ports could not
be saved, and the code of `pthread_create` otherwise. -/
theorem listen_false (ht : w.proc.mTask.mTask = t)
    (h : (MachTask.listen sdk ignored t).run world w = (.done (false, err), w')) :
    (w.kern.savesPorts sdk t = false ∧ err.success = true) ∨
    (w.kern.savesPorts sdk t = true ∧ ∃ e : KernReturn, e ≠ 0 ∧ err = .ofKern e) := by
  unfold MachTask.listen at h
  obtain ⟨⟨kr, port⟩, w₁, halloc, h⟩ := Prog.run_bind_eq_done world h
  obtain ⟨hproc, hex⟩ := run_sys_inv halloc
  have hcalls : w₁.kern.calls .taskGetExceptionPorts = w.kern.calls .taskGetExceptionPorts :=
    Kernel.issue_calls (by decide) (fun _ => rfl) (Option.some.inj hex)
  simp only [Prog.bind_eq, member_bind, run_member, MemberOp.exec] at h
  obtain ⟨u, w₂, hassert, h⟩ := Prog.run_bind_eq_done world h
  obtain ⟨⟨err₁, info⟩, w₃, hsave, hredirect⟩ := Prog.run_bind_eq_done world h
  obtain ⟨rfl, hmask⟩ := savePorts_inv hsave
  obtain ⟨-, rfl⟩ := run_assert_inv hassert
  simp only [hproc, ht, (follows_of_run halloc).savesPorts hcalls] at hmask
  rcases redirect_false hredirect with ⟨hm, rfl⟩ | ⟨hm, e, he, rfl⟩
  · exact .inl ⟨hmask.mp hm, rfl⟩
  · have hs : w.kern.savesPorts sdk t = true := by
      rwa [ne_eq, hmask, Bool.not_eq_false] at hm
    exact .inr ⟨hs, e, he, rfl⟩

end Exits

/-! ## What the caller reads -/

/-- The error is a failure, and its text is not the one for success. -/
def DNBError.Reports (texts : ErrorTexts) (d : DNBError) : Prop :=
  d.fail = true ∧ d.asString texts ≠ "success"

/-- An error without a code reports nothing, whatever its text. -/
theorem DNBError.not_reports_of_success {texts : ErrorTexts} {d : DNBError}
    (h : d.success = true) : ¬ d.Reports texts := by
  rintro ⟨hfail, -⟩
  simp only [DNBError.success, DNBError.fail, decide_eq_true_eq] at h hfail
  exact hfail h

/-- The code of a failed call reports it. -/
theorem DNBError.reports_ofKern {texts : ErrorTexts}
    (htexts : ∀ e, e ≠ 0 → texts.machErrorString e ≠ "success") {e : KernReturn} (he : e ≠ 0) :
    (DNBError.ofKern e).Reports texts := by
  constructor
  · rw [DNBError.fail_ofKern]
    exact decide_eq_true he
  · have hsuccess : (DNBError.ofKern e).success = false := by
      rw [DNBError.success_ofKern]
      exact decide_eq_false he
    have htext : (DNBError.ofKern e).asString texts =
        if texts.machErrorString e = "" then "unknown" else texts.machErrorString e := by
      simp only [DNBError.asString, hsuccess, Bool.false_eq_true, if_false]
      rfl
    rw [htext]
    split
    · decide
    · exact htexts e he

/-- **A failed start** is reported as a failure if and only if the task was valid and its exception
ports could be saved, so that `pthread_create` was what failed. -/
theorem start_failure_reported_iff (sdk : Sdk) (ignored : List ExceptionMask) (texts : ErrorTexts)
    (htexts : ∀ e, e ≠ 0 → texts.machErrorString e ≠ "success") {w w' : World} {err : DNBError}
    (h : (MachTask.startExceptionThread sdk ignored {}).run world w = (.done (false, err), w')) :
    err.Reports texts ↔ w.kern.probe (MachProcess.attachPort w w.proc.mPid) = true ∧
      w.kern.savesPorts sdk (MachProcess.attachPort w w.proc.mPid) = true := by
  obtain ⟨k, hk, hcalls, hrun⟩ := MachProcess.run_startExceptionThread sdk ignored w rfl
  generalize MachProcess.attachPort w w.proc.mPid = t at hrun ⊢
  have hsaves : k.savesPorts sdk t = w.kern.savesPorts sdk t :=
    hk.follows.savesPorts (hcalls _ (by decide) (by decide)) sdk t
  rw [hrun] at h
  cases hp : w.kern.probe t with
  | false =>
    -- the caller's error is as it was passed in
    rw [hp] at h
    cases h
    simpa using DNBError.not_reports_of_success rfl
  | true =>
    rw [hp, if_pos rfl] at h
    rw [← hsaves]
    rcases listen_false (by rfl) h with ⟨hs, herr⟩ | ⟨hs, e, he, rfl⟩
    · simpa [hs] using DNBError.not_reports_of_success herr
    · simpa [hs] using DNBError.reports_ofKern htexts he

/-- The texts of the system for the codes `0` and `35` (`EAGAIN`). -/
def ErrorTexts.macos : ErrorTexts where
  machErrorString e :=
    if e = 0 then "(os/kern) successful"
    else if e = 35 then "(os/kern) invalid security"
    else "unknown error code"
  strerror e := if e = 35 then "Resource temporarily unavailable" else "Unknown error"

/-- No further thread can be created. -/
def noThreadLeft : KCall → ℕ → Option {e : KernReturn // e ≠ 0#32}
  | .pthreadCreate, _ => some ⟨35#32, by decide⟩
  | _, _ => none

/-- A `pthread_create` that fails is reported. -/
theorem start_failure_reported_thread : ∃ err w',
    (MachTask.startExceptionThread .macos [] {}).run world
      ⟨{ mPid := 7 }, .oneProcess noThreadLeft⟩ = (.done (false, err), w') ∧
    err.Reports .macos := by
  refine ⟨_, _, Prod.ext (by rfl) rfl, ?_⟩
  refine (start_failure_reported_iff .macos [] .macos ?_ (w := ⟨{ mPid := 7 }, .oneProcess
    noThreadLeft⟩) (Prod.ext (by rfl) rfl)).mpr ⟨by decide, by decide⟩
  intro e he
  simp only [ErrorTexts.macos, he, if_false]
  split <;> decide

/-- A start for a process whose task port is not given out is reported as a success. -/
theorem start_failure_unreported : ∃ err w',
    (MachTask.startExceptionThread .macos [] {}).run world
      ⟨{ mPid := 8 }, .oneProcess fun _ _ => none⟩ = (.done (false, err), w') ∧
    err.asString .macos = "success" ∧ ¬ err.Reports .macos := by
  refine ⟨_, _, Prod.ext (by rfl) rfl, rfl, fun h => ?_⟩
  exact absurd h.1 (by decide)

end MachDebug
