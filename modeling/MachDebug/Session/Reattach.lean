import MachDebug.Session.Detach

/-!
# Attaching again

`Detach` resets the status and the exception port, and nothing else of what a session changes: the
tracked task, the queued messages and the single-step flag stay. `Attach` asks for the task port
only while none is known. So a second attach on the same object gives the session that a new object
would get exactly when the earlier session left nothing of its own behind.

## Main definitions

* `SameSession w w'`: the same session state on the debugger's side

## Main results

* `run_attach_members`: what an attach makes of the members
* `reattach_fresh_iff`: when attaching again equals attaching a new object
-/

namespace MachDebug

open Program

namespace MachProcess

/-- The session state on the debugger's side: the tracked task, the process, the queued messages
and the single-step flag. -/
def SameSession (w w' : World) : Prop :=
  w.proc.mTask.mTask = w'.proc.mTask.mTask ∧ w.proc.mPid = w'.proc.mPid ∧
    w.proc.mExceptionMessages = w'.proc.mExceptionMessages ∧
    w.proc.mSingleStep = w'.proc.mSingleStep

/-- The members after an attach to a process that exists, whatever its outcome. -/
theorem run_attach_members (sdk : Sdk) (pid : ℤ) (ignored : List ExceptionMask) {w : World}
    (hst : w.proc.mStatus = .detach) (hpid : 0 < pid)
    (hf : w.kern.faults .getpgid (w.kern.calls .getpgid) = none) :
    ((attach sdk pid ignored).run world w).2.proc.mTask.mTask = attachPort w pid ∧
      ((attach sdk pid ignored).run world w).2.proc.mPid = pid ∧
      ((attach sdk pid ignored).run world w).2.proc.mExceptionMessages =
        w.proc.mExceptionMessages ∧
      ((attach sdk pid ignored).run world w).2.proc.mSingleStep = w.proc.mSingleStep := by
  have hwithin := attach_within sdk pid ignored
  obtain ⟨hpid', htask⟩ := run_attachStart_target_members sdk pid ignored hst hpid hf
  -- the rest of `Attach` writes neither the task port nor the process id
  have hafter : ((attach sdk pid ignored).run world w).2.proc.mTask.mTask =
        ((attachStart sdk pid ignored).run world w).2.proc.mTask.mTask ∧
      ((attach sdk pid ignored).run world w).2.proc.mPid =
        ((attachStart sdk pid ignored).run world w).2.proc.mPid := by
    rw [attach, Prog.bind_eq, Prog.run_bind]
    obtain ⟨out, w'⟩ := (attachStart sdk pid ignored).run world w
    cases out with
    | done r =>
      exact ⟨(attachStarted_within pid r.1 r.2).run_same (x := .taskPort) (by decide) w',
        (attachStarted_within pid r.1 r.2).run_same (x := .pid) (by decide) w'⟩
    | threw e => exact ⟨rfl, rfl⟩
    | aborted => exact ⟨rfl, rfl⟩
    | waiting q => exact ⟨rfl, rfl⟩
  exact ⟨hafter.1.trans htask, hafter.2.trans hpid',
    hwithin.run_same (x := .messages) (by decide) w,
    hwithin.run_same (x := .singleStep) (by decide) w⟩

/-- **Attaching again** after a detach gives the session of a new object exactly when the task port
tracked by the earlier session is the one that `task_for_pid` gives, and the earlier session left no
message queued and the single-step flag down. -/
theorem reattach_fresh_iff (sdk : Sdk) (w w' w₁ : World) (pid : ℤ) (ignored : List ExceptionMask)
    (hdetach : Returns sdk detach w w')
    (hattach : (attach sdk pid ignored).run world w' = (.done (), w₁)) :
    SameSession w₁ ((attach sdk pid ignored).run world ⟨{}, w'.kern⟩).2 ↔
      w'.proc.mTask.mTask = w'.kern.portFor pid ∧ w'.proc.mExceptionMessages = [] ∧
        w'.proc.mSingleStep = false := by
  obtain ⟨r, w₀, hstart, -⟩ := Prog.run_bind_eq_done world hattach
  obtain ⟨hst, hpid, hf, -⟩ := attachStart_inv sdk pid ignored hstart
  obtain ⟨htask, hpid₁, hms, hss⟩ := run_attach_members sdk pid ignored hst hpid hf
  simp only [hattach] at htask hpid₁ hms hss
  obtain ⟨htask', hpid', hms', hss'⟩ :=
    run_attach_members sdk pid ignored (w := ⟨{}, w'.kern⟩) rfl hpid hf
  -- a tracked task is not looked up again
  have hold : attachPort w' pid = w'.proc.mTask.mTask := by
    simp [attachPort, detach_tracks hdetach]
  have hnew : attachPort ⟨{}, w'.kern⟩ pid = w'.kern.portFor pid := by simp [attachPort]
  simp only [SameSession, htask, hpid₁, hms, hss, htask', hpid', hms', hss', hold, hnew, true_and]

/-- A quiet session can be repeated on the same object. -/
theorem reattach_quiet : ∃ w w' w₁, Returns .macos detach w w' ∧
    (attach .macos 7 []).run world w' = (.done (), w₁) ∧
    SameSession w₁ ((attach .macos 7 []).run world ⟨{}, w'.kern⟩).2 := by
  obtain ⟨w, w', w₁, hdetach, hattach, hquiet⟩ : ∃ w w' w₁, detach.run world w = (.done (), w') ∧
      (attach .macos 7 []).run world w' = (.done (), w₁) ∧
      w'.proc.mTask.mTask = w'.kern.portFor 7 ∧ w'.proc.mExceptionMessages = [] ∧
        w'.proc.mSingleStep = false :=
    ⟨((attach .macos 7 []).run world ⟨{}, .oneProcess fun _ _ => none⟩).2, _, _, rfl, rfl, rfl, rfl,
      rfl⟩
  have hreturns : Returns .macos detach w w' := Session.Runs.of_run hdetach
  exact ⟨w, w', w₁, hreturns, hattach,
    (reattach_fresh_iff .macos w w' w₁ 7 [] hreturns hattach).mpr hquiet⟩

/-- A message that was queued when the debugger detached is still queued in the next session on
the same object, and a new object does not have it. -/
theorem reattach_queued_not_fresh : ∃ w w' w₁,
    Session.Runs .macos (fun _ => True) ⟨.idle, ⟨{}, .oneProcess fun _ _ => none⟩⟩ ⟨.idle, w⟩ ∧
    Returns .macos detach w w' ∧ (attach .macos 7 []).run world w' = (.done (), w₁) ∧
    ¬ SameSession w₁ ((attach .macos 7 []).run world ⟨{}, w'.kern⟩).2 := by
  obtain ⟨w, hrun, hdetach⟩ : ∃ w, Session.Runs .macos (fun _ => True)
      ⟨.idle, ⟨{}, .oneProcess fun _ _ => none⟩⟩ ⟨.idle, w⟩ ∧
      ∃ w', detach.run world w = (.done (), w') ∧
        ∃ w₁, (attach .macos 7 []).run world w' = (.done (), w₁) ∧ w₁.proc.mExceptionMessages ≠ [] ∧
        ((attach .macos 7 []).run world ⟨{}, w'.kern⟩).2.proc.mExceptionMessages = [] := by
    refine ⟨_, .head ⟨.call (.attach 7 []), trivial, .attach rfl⟩ <|
      .head ⟨.event (.send .breakpoint), trivial, .event _⟩ <|
      .head ⟨.turn, trivial, .turn (n := 0) rfl rfl⟩ <|
      .tail ((Session.Runs.of_run rfl).mono fun _ _ => trivial) ⟨.op, trivial, .ret⟩, ?_⟩
    exact ⟨_, rfl, _, rfl, List.cons_ne_nil _ _, rfl⟩
  obtain ⟨w', hd, w₁, hattach, hms, hms'⟩ := hdetach
  refine ⟨w, w', w₁, hrun, Session.Runs.of_run hd, hattach, fun h => hms ?_⟩
  rw [h.2.2.1, hms']

end MachProcess

end MachDebug
