import MachDebug.Session.Serial

/-!
# The account of a session

Through a session, the messages that are queued or still waiting on the exception port have not
been replied to, and the saved exception ports are those of the target before the attach, whatever
the kernel answers.

## Main definitions

* `pending w`: the serials of the messages that wait or are queued
* `Accounted k₀ T w`: the invariant, for a session that started in the kernel `k₀` on a target with
  the exception ports `T`

## Main results

* `listen_entries`: the entries that an attach saves record the target's exception ports
* `Attached.accounted`: the invariant holds throughout a session
-/

namespace MachDebug

open Program

/-! ## The saved exception ports -/

/-- The entries record the table `T`, in masks that the kernel accepts. -/
def Records (K : ExcPortSupport) (T : PortTable) (entries : List PortEntry) : Prop :=
  ∀ x ∈ entries, x.mask &&& K.valid = x.mask ∧ ∀ e, x.mask.getLsbD e = true → T e = x.action

theorem Records.nil (K : ExcPortSupport) (T : PortTable) : Records K T [] := by
  simp [Records]

/-- What `task_get_exception_ports` answers records the exception ports of the task. -/
theorem getExceptionPorts_records {k k' : Kernel} {t : Port} {m : ExceptionMask}
    {r : KernReturn × List PortEntry}
    (h : (SysOp.taskGetExceptionPorts t m).exec k = some (r, k')) :
    Records k.excPorts (k.task t).excPorts r.2 := by
  rw [show r = (r, k').1 from rfl, ← Option.some.inj h]
  refine Kernel.issue_ind
    (M := fun r : (KernReturn × List PortEntry) × Kernel =>
      Records k.excPorts (k.task t).excPorts r.1.2) (fun _ _ => .nil _ _) ?_
  by_cases hl : k.live t = true
  · by_cases hm : m &&& k.excPorts.valid = m
    · simp only [Kernel.tally_live, hl, Kernel.tally_excPorts, hm, if_true, Kernel.tally_task]
      exact fun x hx => ⟨k.excPorts.group_mask_valid hm hx, k.excPorts.common _ m hm x hx⟩
    · simpa [hl, hm] using Records.nil _ _
  · simpa [hl] using Records.nil _ _

/-- The entries that `Save` gives record the exception ports of the task. -/
theorem save_records {sdk : Sdk} {t : Port} {w w' : World} {r : KernReturn × PortInfo}
    (h : (PortInfo.save sdk t).run world w = (.done r, w')) :
    Records w.kern.excPorts (w.kern.task t).excPorts r.2.entries := by
  -- `Save` drops the entries when its last call has failed
  have hclear (kr : KernReturn) (m : ExceptionMask) (es : List PortEntry)
      (hes : Records w.kern.excPorts (w.kern.task t).excPorts es) :
      Records w.kern.excPorts (w.kern.task t).excPorts
        (if kr ≠ 0 then (⟨0, []⟩ : PortInfo) else ⟨m, es⟩).entries := by
    split
    · exact .nil _ _
    · exact hes
  unfold PortInfo.save at h
  obtain ⟨⟨kr, es⟩, w₁, hget, hrest⟩ := Prog.run_bind_eq_done world h
  obtain ⟨hproc, hex⟩ := run_sys_inv hget
  have hes := getExceptionPorts_records hex
  simp only at hrest
  by_cases hback : kr = kernInvalidArgument ∧ sdk.excMaskAll ≠ prevExcMaskAll
  · rw [if_pos hback] at hrest
    obtain ⟨⟨kr', es'⟩, w₂, hget', hret⟩ := Prog.run_bind_eq_done world hrest
    -- the second call sees the table that the first one has left alone
    have hes' := getExceptionPorts_records (run_sys_inv hget').2
    have hfol := sys_follows _ hex
    have htable : (w₁.kern.task t).excPorts = (w.kern.task t).excPorts :=
      sys_same _ hex (x := .portTable) (by simp [SysOp.part]) t
    rw [hfol.excPorts, htable] at hes'
    cases hret
    exact hclear _ _ _ hes'
  · rw [if_neg hback] at hrest
    cases hrest
    exact hclear _ _ _ hes

/-- The records of a table survive what leaves the table alone. -/
theorem Records.of_same {w w' : World} {t : Port} {entries : List PortEntry}
    (h : Records w'.kern.excPorts (w'.kern.task t).excPorts entries)
    (hf : w.kern.Follows w'.kern) (ht : w.Same w' .portTable) :
    Records w.kern.excPorts (w.kern.task t).excPorts entries := by
  rw [← hf.excPorts, ← ht t]
  exact h

theorem savePorts_records {sdk : Sdk} {w w' : World} {r : DNBError × PortInfo}
    (h : (MachTask.savePorts sdk).run world w = (.done r, w')) :
    Records w.kern.excPorts (w.kern.task w.proc.mTask.mTask).excPorts r.2.entries := by
  have hwithin : Within [] (member .exceptionPort >>= fun p => sys (.machPortInsertRight p) >>=
      fun kr => Prog.assert (DNBError.ofKern kr).success >>= fun _ =>
        return DNBError.ofKern kr) := by
    refine .bind (.member rfl) fun p => .bind (.sys rfl) ?_
    intro kr
    exact .bind (by simp) fun _ => by simp
  have hsave : MachTask.savePorts sdk = (member .exceptionPort >>= fun p =>
      sys (.machPortInsertRight p) >>= fun kr => Prog.assert (DNBError.ofKern kr).success >>=
        fun _ => return DNBError.ofKern kr) >>= fun err => member .taskPort >>= fun t =>
          PortInfo.save sdk t >>= fun s => return (err, s.2) := by
    simp only [MachTask.savePorts, Prog.bind_eq, Prog.bind_assoc, Prog.pure_eq, Prog.bind_ret]
  rw [hsave] at h
  obtain ⟨err, w₁, hright, h⟩ := Prog.run_bind_eq_done world h
  rw [Prog.bind_eq, member_bind, run_member] at h
  obtain ⟨s, w₂, hrun, hret⟩ := Prog.run_bind_eq_done world h
  cases hret
  have hrec := save_records hrun
  rw [show (MemberOp.taskPort.exec w₁.proc).1 = w.proc.mTask.mTask from
    hwithin.same hright (x := .taskPort) (by simp)] at hrec
  have hfol : w.kern.Follows w₁.kern := follows_of_run hright
  exact hrec.of_same hfol (hwithin.same hright (by simp))

/-- Redirecting the exceptions keeps the saved entries. -/
theorem redirect_entries {ignored : List ExceptionMask} {t : Port} {err : DNBError}
    {info : PortInfo} {w w' : World} {r : Bool × DNBError}
    (h : (MachTask.redirect ignored t err info).run world w = (.done r, w')) :
    w'.proc.mTask.mExcPortInfo.entries = info.entries := by
  unfold MachTask.redirect at h
  simp only [Prog.bind_eq, member_bind, run_member, MemberOp.exec] at h
  by_cases hm : info.mask = 0
  · rw [if_pos hm] at h
    cases h
    rfl
  · rw [if_neg hm, run_member] at h
    simp only [MemberOp.exec, run_member] at h
    -- after the entries are stored, only ports and the thread are written
    have hwithin : Within [.portTable, .thread] (sys (.taskSetExceptionPorts t
        (MachTask.removeIgnored info.mask ignored)
        (MachTask.exceptionAction w.proc.mTask.mExceptionPort))
        >>= fun kr => Prog.assert (DNBError.ofKern kr).success >>= fun _ => sys .pthreadCreate >>=
          fun kr => return ((DNBError.ofKern kr).success, DNBError.ofKern kr)) := by
      refine .bind (.sys rfl) fun kr => .bind (by simp) fun _ => ?_
      exact .bind (.sys rfl) fun _ => by simp
    have hinfo := hwithin.same h (x := .excPortInfo) (by decide)
    simp only [World.Same] at hinfo
    rw [hinfo]

/-- The entries that an attach saves record the exception ports that the target had before. -/
theorem listen_records {sdk : Sdk} {ignored : List ExceptionMask} {t : Port} {w w' : World}
    {r : Bool × DNBError} (ht : w.proc.mTask.mTask = t)
    (h : (MachTask.listen sdk ignored t).run world w = (.done r, w')) :
    Records w.kern.excPorts (w.kern.task t).excPorts w'.proc.mTask.mExcPortInfo.entries := by
  have hwithin : Within [.ports, .exceptionPort] (sys .machPortAllocate >>= fun r =>
      member (.setExceptionPort r.2) >>= fun _ => Prog.assert (DNBError.ofKern r.1).success) :=
    .bind (.sys rfl) fun r => .bind (.member rfl) fun _ => by simp
  have hlisten : MachTask.listen sdk ignored t = (sys .machPortAllocate >>= fun r =>
      member (.setExceptionPort r.2) >>= fun _ => Prog.assert (DNBError.ofKern r.1).success) >>=
        fun _ => MachTask.savePorts sdk >>= fun s => MachTask.redirect ignored t s.1 s.2 := by
    simp only [MachTask.listen, Prog.bind_eq, Prog.bind_assoc]
  rw [hlisten] at h
  obtain ⟨_, w₁, hport, h⟩ := Prog.run_bind_eq_done world h
  obtain ⟨s, w₂, hsave, hred⟩ := Prog.run_bind_eq_done world h
  have htask : w₁.proc.mTask.mTask = t :=
    Eq.trans (hwithin.same hport (x := .taskPort) (by decide)) ht
  rw [redirect_entries hred]
  have hrec := savePorts_records hsave
  rw [htask] at hrec
  exact hrec.of_same (follows_of_run hport) (hwithin.same hport (by decide))

/-! ## The messages -/

/-- The serials of the messages that are queued in the process or wait on the exception port. -/
def pending (w : World) : List ℕ :=
  (w.proc.mExceptionMessages.map fun m => m.excMsg.serial) ++ w.kern.queue.map fun m => m.serial

/-- The invariant of a session that started in the kernel `k₀`, on a target with the exception
ports `T`. -/
structure Accounted (k₀ : Kernel) (T : PortTable) (w : World) : Prop where
  support : w.kern.excPorts = k₀.excPorts
  records : Records k₀.excPorts T w.proc.mTask.mExcPortInfo.entries
  nodup : (pending w).Nodup
  unreplied : ∀ n ∈ pending w, k₀.nextSerial ≤ n ∧ n < w.kern.nextSerial ∧ n ∉ w.kern.replied
  replied : ∀ n ∈ w.kern.replied, n < w.kern.nextSerial
  started : k₀.nextSerial ≤ w.kern.nextSerial

namespace Accounted

variable {k₀ : Kernel} {T : PortTable} {w w' : World}

/-- The account after a change of the pending messages that loses some at most. -/
theorem of_sublist (h : Accounted k₀ T w) (hf : w.kern.Follows w'.kern)
    (hi : w.Same w' .excPortInfo) (hr : w.Same w' .replied)
    (hp : List.Sublist (pending w') (pending w)) : Accounted k₀ T w' where
  support := hf.excPorts.trans h.support
  records := by rw [show w'.proc.mTask.mExcPortInfo = _ from hi]; exact h.records
  nodup := h.nodup.sublist hp
  unreplied n hn := by
    rw [hf.nextSerial, show w'.kern.replied = _ from hr]
    exact h.unreplied n (hp.subset hn)
  replied n hn := by
    rw [hf.nextSerial]
    exact h.replied n (by rwa [show w'.kern.replied = _ from hr] at hn)
  started := by rw [hf.nextSerial]; exact h.started

theorem of_same (h : Accounted k₀ T w) (hf : w.kern.Follows w'.kern)
    (hi : w.Same w' .excPortInfo) (hr : w.Same w' .replied) (hm : w.Same w' .messages)
    (hq : w.Same w' .queue) : Accounted k₀ T w' := by
  refine h.of_sublist hf hi hr ?_
  rw [pending, show w'.proc.mExceptionMessages = _ from hm, show w'.kern.queue = _ from hq]
  exact List.Sublist.refl _

theorem keptBy (k₀ : Kernel) (T : PortTable) :
    KeptBy [.status, .singleStep, .debug, .wait] (Accounted k₀ T) := by
  intro β o ho w b w' he h
  have hsame (x : Part) (hx : x ∉ [Part.status, .singleStep, .debug, .wait]) : w.Same w' x :=
    exec_same o he fun hp => hx (ho x hp)
  exact h.of_same (exec_follows o he) (hsame _ (by decide)) (hsame _ (by decide))
    (hsame _ (by decide)) (hsame _ (by decide))

/-- A turn of the exception thread moves the first waiting message to the process, or drops it. -/
theorem turn {sdk : Sdk} {n : BitVec 32} {r : ExceptionThread.Turn} (h : Accounted k₀ T w)
    (hrun : (ExceptionThread.turn sdk ⟨w.proc.mTask.mTask, n⟩).run world w = (.done r, w')) :
    Accounted k₀ T w' := by
  have hwithin := turn_within sdk ⟨w.proc.mTask.mTask, n⟩
  refine h.of_sublist (follows_of_run hrun) (hwithin.same hrun (by decide))
    (hwithin.same hrun (by decide)) ?_
  obtain ⟨k, -, -, ⟨rfl, hq⟩ | ⟨msg, hq, hrec⟩⟩ := turn_cases hrun
  · exact (List.Sublist.refl _).append (hq.sublist.map _)
  · have hqueue : w'.kern.queue = k.queue :=
      (exceptionMessageReceived_within _).same hrec (x := .queue) (by decide)
    have hms : w'.proc.mExceptionMessages.map (fun m => m.excMsg.serial) =
        (w.proc.mExceptionMessages.map fun m => m.excMsg.serial) ++ [msg.serial] := by
      rw [exceptionMessageReceived_proc hrec]
      simp only [MachProcess.handed, switched_messages, List.map_append, List.map_cons,
        List.map_nil, caught_excMsg]
    rw [pending, pending, hms, hqueue, hq]
    simp

/-- `Resume` replies to queued messages only, and clears them. -/
theorem resume (k₀ : Kernel) (T : PortTable) : Keeps (Accounted k₀ T) MachProcess.resume := by
  intro w o w' hrun ho h
  obtain ⟨k, hk, hcases⟩ := run_resume (resume_status hrun ho)
  rcases hcases with hr | hr
  · cases hr.symm.trans hrun
    exact absurd rfl ho
  obtain ⟨ns, hns, hrep⟩ := hk.sent
  have hqueue : k.queue = w.kern.queue := hk.same .queue (by decide)
  have hcleared : Accounted k₀ T ⟨{ w.proc with mExceptionMessages := [] }, k⟩ := by
    have hpend : pending ⟨{ w.proc with mExceptionMessages := [] }, k⟩ =
        w.kern.queue.map fun m => m.serial := by simp [pending, hqueue]
    have hdisj := List.disjoint_of_nodup_append h.nodup
    refine ⟨hk.follows.excPorts.trans h.support, h.records, ?_, fun n hn => ?_, fun n hn => ?_, ?_⟩
    · rw [hpend]
      exact h.nodup.of_append_right
    · rw [hpend] at hn
      obtain ⟨hge, hlt, hnot⟩ := h.unreplied n (List.mem_append_right _ hn)
      refine ⟨hge, hk.follows.nextSerial ▸ hlt, ?_⟩
      rw [show (⟨_, k⟩ : World).kern.replied = k.replied from rfl, hrep, List.mem_append, not_or]
      exact ⟨hnot, fun hmem => hdisj (hns.subset hmem) hn⟩
    · rw [show (⟨_, k⟩ : World).kern.replied = k.replied from rfl, hrep, List.mem_append] at hn
      rw [show (⟨_, k⟩ : World).kern.nextSerial = k.nextSerial from rfl, hk.follows.nextSerial]
      rcases hn with hn | hn
      · exact h.replied n hn
      · exact (h.unreplied n (List.mem_append_left _ (hns.subset hn))).2.1
    · exact hk.follows.nextSerial ▸ h.started
  have hend := hr.symm.trans hrun
  have hsame (x : Part) (hx : x ∉ [Part.suspendCount, .status]) := resumeTask_within.same hend hx
  exact hcleared.of_same (follows_of_run hend) (hsame _ (by decide)) (hsame _ (by decide))
    (hsame _ (by decide)) (hsame _ (by decide))

/-- Events keep the account: a message that is sent is a new one. -/
theorem event (h : Accounted k₀ T w) (e : Kernel.Event) :
    Accounted k₀ T ⟨w.proc, w.kern.event e⟩ := by
  cases e with
  | send m =>
    have hpend : pending ⟨w.proc, w.kern.event (.send m)⟩ = pending w ++ [w.kern.nextSerial] := by
      simp [pending, Kernel.event]
    refine ⟨h.support, h.records, ?_, fun n hn => ?_, fun n hn => ?_, ?_⟩
    · rw [hpend, List.nodup_append]
      -- the serial is larger than those of the pending messages
      refine ⟨h.nodup, by simp, fun a ha b hb => ?_⟩
      have hlt := (h.unreplied a ha).2.1
      simp only [List.mem_singleton] at hb
      omega
    · rw [hpend, List.mem_append, List.mem_singleton] at hn
      rcases hn with hn | rfl
      · obtain ⟨hge, hlt, hnot⟩ := h.unreplied n hn
        exact ⟨hge, Nat.lt_succ_of_lt hlt, hnot⟩
      · exact ⟨h.started, Nat.lt_succ_self _, fun hmem => (h.replied _ hmem).false⟩
    · exact Nat.lt_succ_of_lt (h.replied n hn)
    · exact Nat.le_succ_of_le h.started
  | exit t => exact ⟨h.support, h.records, h.nodup, h.unreplied, h.replied, h.started⟩
  | threads t ths => exact ⟨h.support, h.records, h.nodup, h.unreplied, h.replied, h.started⟩

end Accounted

/-- **The account of a session** on a new object holds throughout it. -/
theorem Attached.accounted {sdk : Sdk} {allow : Label → Prop} {k₀ : Kernel} {pid : ℤ}
    {ignored : List ExceptionMask} {s : Session} (h : Attached sdk allow ⟨{}, k₀⟩ pid ignored s)
    (hqueue : k₀.queue = []) (hreplied : ∀ n ∈ k₀.replied, n < k₀.nextSerial) :
    Accounted k₀ (k₀.task (k₀.portFor pid)).excPorts s.state := by
  refine h.inv (fun r w₀ hrun => ?_) (Accounted.keptBy _ _) (Accounted.resume _ _)
    (fun w n r w' hrun hw => hw.turn hrun) fun e _ w hw => hw.event e
  have hwithin := attachStart_within sdk pid ignored
  have hfol := follows_of_run hrun
  have hms : w₀.proc.mExceptionMessages = [] := hwithin.same hrun (x := .messages) (by decide)
  have hq : w₀.kern.queue = [] := Eq.trans (hwithin.same hrun (x := .queue) (by decide)) hqueue
  have hpend : pending w₀ = [] := by simp [pending, hms, hq]
  refine ⟨hfol.excPorts, ?_, by simp [hpend], by simp [hpend], fun n hn => ?_, hfol.nextSerial.ge⟩
  -- the entries are those of the first probe that found the task valid
  · obtain ⟨-, -, -, k, hk, hlisten⟩ := MachProcess.attachStart_inv sdk pid ignored hrun
    have hport : MachProcess.attachPort ⟨{}, k₀⟩ pid = k₀.portFor pid := by
      simp [MachProcess.attachPort]
    rw [hport] at hlisten
    by_cases hp : k₀.probe (k₀.portFor pid) = true
    · rw [if_pos hp] at hlisten
      have hrec := listen_records (by rfl) hlisten
      have htable := hk.same (w := ⟨{}, k₀⟩) .portTable (k₀.portFor pid)
      rwa [show (⟨_, k⟩ : World).kern = k from rfl, hk.follows.excPorts,
        show (k.task (k₀.portFor pid)).excPorts = _ from htable] at hrec
    · rw [if_neg hp] at hlisten
      cases hlisten
      exact .nil _ _
  · rw [hfol.nextSerial]
    exact hreplied n (by rwa [show w₀.kern.replied = _ from
      hwithin.same hrun (x := .replied) (by decide)] at hn)

end MachDebug
