import MachDebug.Debugger.Run

/-!
# Arming and disarming the threads

`EnableSingleStep` sets the lowest bit of `__mdscr_el1` in every thread of the target.
`DisableSingleStep` clears it, but its mask is a 32-bit constant that is widened with zeros, so that
it clears the upper half of the register as well. A `SingleStep` whose arming fails leaves the flag
`m_single_step` up, and the threads that were reached armed.

## Main definitions

* `StepBitOnly`: the lowest bit of every thread has a given value, and nothing else has changed
* `StepUndone`: a failed single step has changed nothing

## Main results

* `toggles_iff`: when arming and disarming change nothing but the lowest bit
* `singleStep_arming_failed`: a single step whose arming fails is never undone
-/

namespace MachDebug

open Program

/-! ## The mask -/

/-- `__mdscr_el1 |= SS_ENABLE`. -/
def arm (r : BitVec 64) : BitVec 64 := r ||| MachTask.ssEnable.setWidth 64

/-- `__mdscr_el1 &= ~SS_ENABLE`. -/
def disarm (r : BitVec 64) : BitVec 64 := r &&& (~~~MachTask.ssEnable).setWidth 64

/-- Arming sets the lowest bit only. -/
theorem getLsbD_arm (r : BitVec 64) (i : ℕ) :
    (arm r).getLsbD i = if i = 0 then true else r.getLsbD i := by
  rw [arm, BitVec.getLsbD_or]
  rcases i with _ | i
  · exact Bool.or_true _
  · simp [MachTask.ssEnable]

/-- Disarming clears the lowest bit, and the upper half with it. -/
theorem getLsbD_disarm (r : BitVec 64) (i : ℕ) :
    (disarm r).getLsbD i = if i = 0 then false else if i < 32 then r.getLsbD i else false := by
  have hmask : ((~~~MachTask.ssEnable).setWidth 64).getLsbD i = decide (i ≠ 0 ∧ i < 32) := by
    rw [BitVec.getLsbD_setWidth, BitVec.getLsbD_not, MachTask.ssEnable, BitVec.getLsbD_one]
    by_cases hi : i = 0
    · simp [hi]
    · by_cases hi' : i < 32
      · simp [hi, hi', show i < 64 by omega]
      · simp [hi']
  rw [disarm, BitVec.getLsbD_and, hmask]
  by_cases hi : i = 0
  · simp [hi]
  · by_cases hi' : i < 32 <;> simp [hi, hi']

/-- Arming twice is arming once. -/
theorem arm_arm (r : BitVec 64) : arm (arm r) = arm r := by
  rw [arm, arm, BitVec.or_assoc, BitVec.or_self]

/-- Disarming twice is disarming once. -/
theorem disarm_disarm (r : BitVec 64) : disarm (disarm r) = disarm r := by
  rw [disarm, disarm, BitVec.and_assoc, BitVec.and_self]

/-- A value of the lower half has no bit of the upper half. -/
theorem getLsbD_of_lower_half {r : BitVec 64} (hr : r.toNat < 2 ^ 32) {i : ℕ} (hi : 32 ≤ i) :
    r.getLsbD i = false := by
  apply Nat.testBit_lt_two_pow
  exact hr.trans_le (Nat.pow_le_pow_right (by decide) hi)

/-- Disarming a value of the lower half clears the lowest bit only. -/
theorem getLsbD_disarm_of_lower_half {r : BitVec 64} (hr : r.toNat < 2 ^ 32) (i : ℕ) :
    (disarm r).getLsbD i = if i = 0 then false else r.getLsbD i := by
  rw [getLsbD_disarm]
  by_cases hi : i < 32
  · rw [if_pos hi]
  · rw [if_neg hi, getLsbD_of_lower_half hr (by omega)]

/-- A value of which disarming clears the lowest bit only is one of the lower half. -/
theorem lower_half_of_disarm {r : BitVec 64}
    (h : ∀ i, i ≠ 0 → (disarm r).getLsbD i = r.getLsbD i) : r.toNat < 2 ^ 32 := by
  apply Nat.lt_pow_two_of_testBit
  intro i hi
  have hbit := h i (by omega)
  rw [getLsbD_disarm, if_neg (by omega), if_neg (by omega)] at hbit
  exact hbit.symm

/-- Disarming after arming clears the lowest bit of a value of the lower half. -/
theorem disarm_arm {r : BitVec 64} (hr : r.toNat < 2 ^ 32) : disarm (arm r) = r &&& ~~~1#64 := by
  apply BitVec.eq_of_getLsbD_eq
  intro i hi
  rw [getLsbD_disarm, getLsbD_arm, BitVec.getLsbD_and, BitVec.getLsbD_not, BitVec.getLsbD_one]
  rcases eq_or_ne i 0 with rfl | h0
  · simp
  · by_cases hi' : i < 32
    · simp [h0, hi', hi]
    · have hbit : r.getLsbD i = false := getLsbD_of_lower_half hr (by omega)
      simp [h0, hbit]

/-! ## The threads of the target -/

/-- The registers after a change of `__mdscr_el1` in each of some threads. A thread that is listed
twice is changed once, as the change is idempotent. -/
theorem foldl_updateMdscr {f : BitVec 64 → BitVec 64} (hf : ∀ r, f (f r) = f r) (ths : List Port)
    (debug : Port → ArmDebugState64) (th : Port) :
    ths.foldl (updateMdscr f) debug th =
      if th ∈ ths then { debug th with mdscrEl1 := f (debug th).mdscrEl1 } else debug th := by
  induction ths generalizing debug with
  | nil => simp
  | cons x ths ih =>
    rw [List.foldl_cons, ih]
    -- the thread is the first of the list, and may be in the rest of it again
    rcases eq_or_ne th x with rfl | hx
    · simp [updateMdscr, hf]
    · simp [updateMdscr, hx]

/-- The threads of the tracked task. -/
def World.threads (w : World) : List Port := (w.kern.task w.proc.mTask.mTask).threads

/-- The lowest bit of `__mdscr_el1` is `b` in every thread of the tracked task, and no other bit of
it, no other debug register and no other thread has changed. -/
structure StepBitOnly (b : Bool) (w w' : World) : Prop where
  bit : ∀ th ∈ w.threads, (w'.kern.debug th).mdscrEl1.getLsbD 0 = b
  bits : ∀ th i, i ≠ 0 →
    (w'.kern.debug th).mdscrEl1.getLsbD i = (w.kern.debug th).mdscrEl1.getLsbD i
  registers : ∀ th, w'.kern.debug th =
    { w.kern.debug th with mdscrEl1 := (w'.kern.debug th).mdscrEl1 }
  others : ∀ th, th ∉ w.threads → w'.kern.debug th = w.kern.debug th

/-- Arming and disarming toggle the lowest bit and nothing else, and disarming after arming gives
the original value with the lowest bit cleared. -/
def Toggles (w : World) : Prop :=
  ∃ armed disarmed after,
    MachTask.enableSingleStep.run world w = (.done (), armed) ∧ StepBitOnly true w armed ∧
    MachTask.disableSingleStep.run world w = (.done (), disarmed) ∧ StepBitOnly false w disarmed ∧
    MachTask.disableSingleStep.run world armed = (.done (), after) ∧
    ∀ th ∈ w.threads, (after.kern.debug th).mdscrEl1 = (w.kern.debug th).mdscrEl1 &&& ~~~1#64

section Toggle

variable {w : World}

/-- A change of `__mdscr_el1` in every thread of a live task, without failures. -/
theorem run_updateSingleStep_idem {f : BitVec 64 → BitVec 64} (hf : ∀ r, f (f r) = f r)
    (hk : w.kern.FaultFree) (hl : w.kern.live w.proc.mTask.mTask = true) :
    ∃ k, (MachTask.updateSingleStep f).run world w = (.done (), ⟨w.proc, k⟩) ∧
      ∀ th, k.debug th = if th ∈ w.threads then
        { w.kern.debug th with mdscrEl1 := f (w.kern.debug th).mdscrEl1 } else w.kern.debug th := by
  obtain ⟨k, hrun, hdebug⟩ := run_updateSingleStep f hk hl
  refine ⟨k, hrun, fun th => ?_⟩
  rw [hdebug]
  exact foldl_updateMdscr hf _ _ th

/-- A change of the lowest bit in every thread of the tracked task. -/
theorem stepBitOnly_of_update {b : Bool} {f : BitVec 64 → BitVec 64} {w' : World}
    (hdebug : ∀ th, w'.kern.debug th = if th ∈ w.threads then
      { w.kern.debug th with mdscrEl1 := f (w.kern.debug th).mdscrEl1 } else w.kern.debug th)
    (hf : ∀ th ∈ w.threads, ∀ i, (f (w.kern.debug th).mdscrEl1).getLsbD i =
      if i = 0 then b else (w.kern.debug th).mdscrEl1.getLsbD i) : StepBitOnly b w w' where
  bit th hth := by
    rw [hdebug, if_pos hth, hf th hth, if_pos rfl]
  bits th i hi := by
    by_cases hth : th ∈ w.threads
    · rw [hdebug, if_pos hth, hf th hth, if_neg hi]
    · rw [hdebug, if_neg hth]
  registers th := by
    rw [hdebug]
    split <;> rfl
  others th hth := by
    rw [hdebug, if_neg hth]

/-- **Toggling the single-step bit** of the threads of a live task, with all kernel calls
succeeding: nothing else changes if and only if no thread has a bit of the upper half of its
`__mdscr_el1` set. -/
theorem toggles_iff (hk : w.kern.FaultFree) (hl : w.kern.live w.proc.mTask.mTask = true) :
    Toggles w ↔ ∀ th ∈ w.threads, (w.kern.debug th).mdscrEl1.toNat < 2 ^ 32 := by
  obtain ⟨k, harm, hdebug⟩ := run_updateSingleStep_idem arm_arm hk hl
  obtain ⟨k', hdisarm, hdebug'⟩ := run_updateSingleStep_idem disarm_disarm hk hl
  constructor
  -- disarming the threads as they are already shows the upper half
  · rintro ⟨-, disarmed, -, -, -, hrun, honly, -⟩ th hth
    obtain ⟨-, rfl⟩ := Prod.mk.inj (hrun.symm.trans hdisarm)
    apply lower_half_of_disarm
    intro i hi
    have hbits := honly.bits th i hi
    rwa [hdebug', if_pos hth] at hbits
  -- arming changes the registers only, so that disarming goes over the same threads
  · intro hlow
    have hfol := follows_of_run harm
    have hths : (⟨w.proc, k⟩ : World).threads = w.threads := hfol.threads _
    obtain ⟨k'', hafter, hdebug''⟩ := run_updateSingleStep_idem (w := ⟨w.proc, k⟩) disarm_disarm
      (hfol.faultFree hk) ((hfol.live _).trans hl)
    refine ⟨_, _, _, harm, stepBitOnly_of_update hdebug fun th _ => getLsbD_arm _, hdisarm,
      stepBitOnly_of_update hdebug' fun th hth => getLsbD_disarm_of_lower_half (hlow th hth),
      hafter, fun th hth => ?_⟩
    rw [hdebug'', hths, if_pos hth]
    simp only [hdebug, if_pos hth]
    exact disarm_arm (hlow th hth)

end Toggle

/-- The process `7` stopped under the debugger, with the given value in the `__mdscr_el1` of all
threads. -/
def World.stoppedAt (r : BitVec 64) (faults : KCall → ℕ → Option {e : KernReturn // e ≠ 0#32}) :
    World where
  proc := { mStatus := .stop, mPid := 7, mTask := { mTask := 1, mExceptionPort := 101 } }
  kern := { Kernel.oneProcess faults with
    debug := fun _ => ⟨fun _ => 0, fun _ => 0, fun _ => 0, fun _ => 0, r⟩ }

/-- With the debug bits of the lower half set, only the lowest bit is toggled. -/
theorem toggles_iff_lower_half : Toggles (World.stoppedAt 0x8000#64 fun _ _ => none) :=
  (toggles_iff (fun _ _ _ => rfl) rfl).mpr (by decide)

/-- With a bit of the upper half set, disarming loses it. -/
theorem not_toggles_upper_half : ¬ Toggles (World.stoppedAt 0x100000000#64 fun _ _ => none) := by
  rintro ⟨armed, disarmed, after, -, -, hrun, honly, -⟩
  have hbit := honly.bits 11 32 (by decide)
  rw [show disarmed = _ from (congrArg Prod.snd hrun).symm] at hbit
  exact absurd hbit (by decide +kernel)

/-! ## Arming that fails -/

/-- A loop over the threads that threw has changed the threads before the one that failed. -/
theorem updateThreads_threw {f : BitVec 64 → BitVec 64} {ths : List Port} {w w' : World}
    {e : RuntimeError} (h : (MachTask.updateThreads f ths).run world w = (.threw e, w')) :
    ∃ reached rest, ths = reached ++ rest ∧
      w'.kern.debug = reached.foldl (updateMdscr f) w.kern.debug := by
  -- the induction is on the threads: the loop stops at the first call that fails
  induction ths generalizing w with
  | nil => cases h
  | cons th ths ih =>
    unfold MachTask.updateThreads at h
    simp only [Prog.bind_eq, sys_bind] at h
    cases hget : w.kern.faults .threadGetState (w.kern.calls .threadGetState) with
    | some x =>
      rw [run_sys (b := (x.1, .zero)) (k := w.kern.tally .threadGetState)
        (by simp [SysOp.exec, Kernel.issue, hget])] at h
      have hx : x.1 ≠ 0 := x.2
      simp only [ne_eq, hx, not_false_eq_true, if_true] at h
      cases h
      exact ⟨[], th :: ths, rfl, rfl⟩
    | none => ?_
    rw [run_sys (b := (0, w.kern.debug th)) (k := w.kern.tally .threadGetState)
      (by simp [SysOp.exec, Kernel.issue, hget])] at h
    simp only [ne_eq, not_true, if_false] at h
    cases hset : w.kern.faults .threadSetState (w.kern.calls .threadSetState) with
    | some x =>
      rw [run_sys (b := x.1) (k := (w.kern.tally .threadGetState).tally .threadSetState)
        (by simp [SysOp.exec, Kernel.issue, hset])] at h
      have hx : x.1 ≠ 0 := x.2
      simp only [hx, not_false_eq_true, if_true] at h
      cases h
      exact ⟨[], th :: ths, rfl, rfl⟩
    | none =>
      rw [run_sys (b := 0) (k := { (w.kern.tally .threadGetState).tally .threadSetState with
        debug := updateMdscr f w.kern.debug th })
        (by simp [SysOp.exec, Kernel.issue, hset, updateMdscr])] at h
      simp only [not_true, if_false] at h
      obtain ⟨reached, rest, rfl, hdebug⟩ := ih h
      exact ⟨th :: reached, rest, rfl, hdebug⟩

/-- Arming or disarming that threw has reached some of the threads. -/
theorem updateSingleStep_threw {f : BitVec 64 → BitVec 64} {w w' : World} {e : RuntimeError}
    (h : (MachTask.updateSingleStep f).run world w = (.threw e, w')) :
    ∃ reached rest, w.threads = reached ++ rest ∧
      w'.kern.debug = reached.foldl (updateMdscr f) w.kern.debug := by
  unfold MachTask.updateSingleStep at h
  simp only [Prog.bind_eq, member_bind, sys_bind, run_member, MemberOp.exec] at h
  cases he : (SysOp.taskThreads w.proc.mTask.mTask).exec w.kern with
  | none => cases he
  | some r =>
    obtain ⟨⟨kr, ths⟩, k⟩ := r
    have hsame : w.Same ⟨w.proc, k⟩ .debug := sys_same _ he (by simp [SysOp.part])
    rw [run_sys he] at h
    by_cases hkr : kr = 0
    · subst hkr
      simp only [ne_eq, not_true, if_false] at h
      obtain ⟨reached, rest, hths, hdebug⟩ := updateThreads_threw h
      refine ⟨reached, rest, ?_, hdebug.trans (by rw [show k.debug = w.kern.debug from hsame])⟩
      rw [← hths, taskThreads_ok he]
      rfl
    · rw [if_pos hkr] at h
      cases h
      exact ⟨[], w.threads, rfl, hsame⟩

/-- A failed single step has changed nothing that a later `Resume` depends on. -/
structure StepUndone (w w' : World) : Prop where
  bits : ∀ th, (w'.kern.debug th).mdscrEl1.getLsbD 0 = (w.kern.debug th).mdscrEl1.getLsbD 0
  singleStep : w'.proc.mSingleStep = false
  status : w'.proc.mStatus = .stop
  messages : w'.proc.mExceptionMessages = w.proc.mExceptionMessages

/-- **A single step whose arming fails** is never undone: the flag stays up, and the threads before
the one that failed stay armed. -/
theorem singleStep_arming_failed {w w' : World} {e : RuntimeError} (hst : w.proc.mStatus = .stop)
    (h : MachTask.enableSingleStep.run world ⟨{ w.proc with mSingleStep := true }, w.kern⟩ =
      (.threw e, w')) :
    MachProcess.singleStep.run world w = (.threw e, w') ∧
    w'.proc = { w.proc with mSingleStep := true } ∧
    (∃ reached rest, w.threads = reached ++ rest ∧
      w'.kern.debug = reached.foldl (updateMdscr arm) w.kern.debug) ∧
    ¬ StepUndone w w' := by
  have hproc : w'.proc = { w.proc with mSingleStep := true } := by
    simpa only [h] using Within.run_proc (p := MachTask.enableSingleStep)
      (updateSingleStep_within _) (by decide) ⟨{ w.proc with mSingleStep := true }, w.kern⟩
  have hreached := updateSingleStep_threw (w := ⟨{ w.proc with mSingleStep := true }, w.kern⟩) h
  refine ⟨?_, hproc, hreached, fun hundone => ?_⟩
  · unfold MachProcess.singleStep MachProcess.armAndResume
    simp only [Prog.bind_eq, member_bind, Prog.bind_op, Prog.bind_assoc]
    rw [run_assert_status hst, run_member]
    simp only [MemberOp.exec]
    rw [Prog.run_bind, h]
    rfl
  -- nothing takes the flag down before the exception leaves the function
  · have hflag := hundone.singleStep
    rw [hproc] at hflag
    cases hflag

/-- The second thread has gone between the listing and the access to its state. -/
def secondThreadGone : KCall → ℕ → Option {e : KernReturn // e ≠ 0#32}
  | .threadGetState, 1 => some ⟨kernInvalidArgument, kernInvalidArgument_ne_zero⟩
  | _, _ => none

/-- The second of two threads fails: the first one stays armed. -/
theorem singleStep_arming_failed_second : ∃ w',
    MachProcess.singleStep.run world (.stoppedAt 0 secondThreadGone) =
      (.threw (.error "" (.ofKern kernInvalidArgument)), w') ∧
    ¬ StepUndone (.stoppedAt 0 secondThreadGone) w' := by
  obtain ⟨hrun, -, -, hundone⟩ := singleStep_arming_failed
    (w := .stoppedAt 0 secondThreadGone) (e := .error "" (.ofKern kernInvalidArgument)) rfl
    (Prod.ext (by rfl) rfl)
  exact ⟨_, hrun, hundone⟩

/-- A failed single step leaves the first of two threads armed and the flag up. -/
theorem singleStep_leaves_armed : ∃ w',
    MachProcess.singleStep.run world (.stoppedAt 0 secondThreadGone) =
      (.threw (.error "" (.ofKern kernInvalidArgument)), w') ∧
    (w'.kern.debug 11).mdscrEl1.getLsbD 0 = true ∧ w'.proc.mSingleStep = true ∧
    ¬ StepUndone (.stoppedAt 0 secondThreadGone) w' := by
  refine ⟨_, Prod.ext (by rfl) rfl, rfl, rfl, fun hundone => ?_⟩
  exact absurd hundone.singleStep (by decide +kernel)

end MachDebug
