import MachDebug.Debugger.Deliver
import MachDebug.Program.Interference
import MachDebug.Session.AttachFailure
import Mathlib.Logic.Relation

/-!
# Sessions, one step at a time

A session runs the controller's calls and the turns of the exception thread one after another.
`Resume`, `Stop` and `SingleStep` run in one piece, up to the busy wait of `SingleStep`. `Attach`
runs in one piece until the exception thread has been started, since nothing can be delivered
before; the rest of `Attach`, the busy wait and all of `Detach` are taken one operation at a time,
and the exception thread takes whole turns in between. The target side sends messages, ends tasks
and changes threads at any time.

## Main definitions

* `Call`, `Label`: the controller's calls, and the labels of steps
* `Session`, `Session.Step`: the session and its steps
* `Session.Runs allow`: runs whose labels are allowed

## Main results

* `Session.Runs.inv`: what every allowed step keeps is kept by a run
-/

namespace MachDebug

open Program

/-- The controller's calls. -/
inductive Call
  | attach (pid : ℤ) (ignored : List ExceptionMask)
  | resume
  | stop
  | singleStep
  | detach

/-- The labels of steps. -/
inductive Label
  | call (c : Call)
  | op
  | turn
  | event (e : Kernel.Event)

/-- The controller is between two calls, or inside one with the rest of its program. -/
inductive Ctl : Type 1
  | idle
  | inside (p : Code Unit)

/-- A session: the controller and the world. -/
structure Session : Type 1 where
  ctl : Ctl
  state : World

/-- The calls that run in one piece. -/
def Call.whole : Call → Option (Code Unit)
  | .resume => some MachProcess.resume
  | .stop => some MachProcess.stop
  | .singleStep => some MachProcess.singleStep
  | _ => none

/-- Where the controller is after a piece of a call; a failed assertion ends the session. -/
def Ctl.after : Outcome Op RuntimeError Unit → Option Ctl
  | .done _ => some .idle
  | .threw _ => some .idle
  | .aborted => none
  | .waiting p => some (.inside p)

/-- The labels while a call is taken one operation at a time. -/
def Label.during : Label → Prop
  | .call _ => False
  | _ => True

namespace Session

variable (sdk : Sdk)

/-- One step of a session. The task that the exception thread tracks is the one in `m_task`. -/
inductive Step : Session → Label → Session → Prop
  | attach {w w' : World} {pid : ℤ} {ignored : List ExceptionMask} {r : Bool × DNBError} :
      (MachProcess.attachStart sdk pid ignored).run world w = (.done r, w') →
      Step ⟨.idle, w⟩ (.call (.attach pid ignored))
        ⟨.inside (MachProcess.attachStarted pid r.1 r.2), w'⟩
  | refuse {w w' : World} {pid : ℤ} {ignored : List ExceptionMask} {e : RuntimeError} :
      (MachProcess.attachStart sdk pid ignored).run world w = (.threw e, w') →
      Step ⟨.idle, w⟩ (.call (.attach pid ignored)) ⟨.idle, w'⟩
  | whole {w w' : World} {c : Call} {p : Code Unit} {o : Outcome Op RuntimeError Unit} {ctl : Ctl} :
      c.whole = some p → p.run world w = (o, w') → Ctl.after o = some ctl →
      Step ⟨.idle, w⟩ (.call c) ⟨ctl, w'⟩
  | detach {w : World} : Step ⟨.idle, w⟩ (.call .detach) ⟨.inside MachProcess.detach, w⟩
  | op {p p' : Code Unit} {w w' : World} : p.Step world w p' w' →
      Step ⟨.inside p, w⟩ .op ⟨.inside p', w'⟩
  | ret {w : World} : Step ⟨.inside (.ret ()), w⟩ .op ⟨.idle, w⟩
  | throw {e : RuntimeError} {w : World} : Step ⟨.inside (.throw e), w⟩ .op ⟨.idle, w⟩
  | turn {ctl : Ctl} {w w' : World} {n : BitVec 32} {r : ExceptionThread.Turn} :
      w.kern.excThread = true →
      (ExceptionThread.turn sdk ⟨w.proc.mTask.mTask, n⟩).run world w = (.done r, w') →
      Step ⟨ctl, w⟩ .turn ⟨ctl, w'⟩
  | event {ctl : Ctl} {w : World} (e : Kernel.Event) :
      Step ⟨ctl, w⟩ (.event e) ⟨ctl, ⟨w.proc, w.kern.event e⟩⟩

/-- The runs of a session all of whose labels are allowed. -/
def Runs (allow : Label → Prop) : Session → Session → Prop :=
  Relation.ReflTransGen fun s s' => ∃ l, allow l ∧ Step sdk s l s'

variable {sdk}

/-- What every allowed step keeps is kept by a run. -/
theorem Runs.inv {allow : Label → Prop} {I : Session → Prop}
    (hstep : ∀ s l s', allow l → Step sdk s l s' → I s → I s') {s s' : Session}
    (h : Runs sdk allow s s') (hs : I s) : I s' := by
  induction h with
  | refl => exact hs
  | tail _ hl ih =>
    obtain ⟨l, ha, hl⟩ := hl
    exact hstep _ l _ ha hl ih

theorem Runs.mono {allow allow' : Label → Prop} (ha : ∀ l, allow l → allow' l) {s s' : Session}
    (h : Runs sdk allow s s') : Runs sdk allow' s s' := by
  induction h with
  | refl => exact .refl
  | tail _ hl ih =>
    obtain ⟨l, hl, hs⟩ := hl
    exact .tail ih ⟨l, ha l hl, hs⟩

/-- A call that returns when it runs alone returns one operation at a time. -/
theorem Runs.of_run {p : Code Unit} {w w' : World} (h : p.run world w = (.done (), w')) :
    Runs sdk Label.during ⟨.inside p, w⟩ ⟨.inside (.ret ()), w'⟩ :=
  Relation.ReflTransGen.lift
    (p := fun s s' : Session => ∃ l, Label.during l ∧ Step sdk s l s')
    (fun x : Code Unit × World => (⟨.inside x.1, x.2⟩ : Session))
    (fun _ _ hstep => ⟨.op, trivial, .op hstep⟩) _ _ (Prog.steps_of_run h)

/-- **The rule for a call taken one operation at a time**: a program that is safe under the
interference of the exception thread and the target side has met its postcondition when it has
returned. -/
theorem Runs.safe {C : Contract Op World} {Q : Unit → World → Prop}
    {E : RuntimeError → World → Prop}
    (hpermit : ∀ {β : Type} (o : Op β) w b, C.permit o w b)
    (hturn : ∀ w n r w', w.kern.excThread = true →
      (ExceptionThread.turn sdk ⟨w.proc.mTask.mTask, n⟩).run world w = (.done r, w') →
      C.rely w w')
    (hevent : ∀ e w, C.rely w ⟨w.proc, w.kern.event e⟩) {p : Code Unit} {w w' : World}
    (hs : p.Safe world C Q E w)
    (h : Runs sdk Label.during ⟨.inside p, w⟩ ⟨.inside (.ret ()), w'⟩) : Q () w' := by
  -- what is left of the call is safe in every state of the run
  have hinv := h.inv (I := fun s => ∀ p, s.ctl = .inside p → p.Safe world C Q E s.state)
    (fun s l s' hl hstep hs => ?_) (by rintro p ⟨⟩; exact hs)
  · exact (hinv _ rfl).ret_post
  · cases hstep with
    | attach _ => exact hl.elim
    | refuse _ => exact hl.elim
    | detach => exact hl.elim
    | whole _ _ _ => exact hl.elim
    | ret => rintro p ⟨⟩
    | throw => rintro p ⟨⟩
    | turn hth ht => exact fun p hp => (hs p hp).rely (hturn _ _ _ _ hth ht)
    | event e => exact fun p hp => (hs p hp).rely (hevent e _)
    | @op p p' w w' hop =>
      rintro q ⟨⟩
      have hperm : p.PermittedStep world C.permit w p' w' := by
        cases hop with
        | op he => exact .op he (hpermit _ _ _)
        | again he => exact .again he (hpermit _ _ _)
        | leave he => exact .leave he (hpermit _ _ _)
      exact ((hs p rfl).step hperm).2

end Session

/-! ## Attached sessions -/

/-- What a piece of a program keeps, unless it fails an assertion. -/
def Keeps {α : Type} (I : World → Prop) (p : Code α) : Prop :=
  ∀ w o w', p.run world w = (o, w') → o ≠ .aborted → I w → I w'

/-- A property of the world that operations on the parts in `S` keep. -/
def KeptBy (S : List Part) (I : World → Prop) : Prop :=
  ∀ {β : Type} (o : Op β), (∀ x ∈ o.part, x ∈ S) → ∀ w b w', world.exec o w = some (b, w') →
    I w → I w'

section Rules

variable {α β : Type} {I : World → Prop} {S : List Part}

theorem Keeps.bind {p : Code α} {f : α → Code β} (hp : Keeps I p) (hf : ∀ a, Keeps I (f a)) :
    Keeps I (p >>= f) := by
  intro w o w' h ho hw
  rw [Prog.bind_eq, Prog.run_bind] at h
  match hr : p.run world w with
  | (.done a, w₁) => rw [hr] at h; exact hf a w₁ o w' h ho (hp w _ w₁ hr (by simp) hw)
  | (.threw e, w₁) => rw [hr] at h; cases h; exact hp w _ w' hr (by simp) hw
  | (.aborted, w₁) => rw [hr] at h; cases h; exact absurd rfl ho
  | (.waiting q, w₁) => rw [hr] at h; cases h; exact hp w _ w' hr (by simp) hw

theorem KeptBy.keeps (hI : KeptBy S I) {p : Code α} (hp : Within S p) : Keeps I p := by
  intro w o w' h _ hw
  simpa only [h] using hp.uses.run_inv hI hw

theorem KeptBy.mono {T : List Part} (hI : KeptBy S I) (h : ∀ x ∈ T, x ∈ S) : KeptBy T I :=
  fun o ho => hI o fun x hx => h x (ho x hx)

/-- What operations on the single-step parts and `Resume` keep is kept by `SingleStep`. -/
theorem singleStep_keeps (hI : KeptBy [.status, .singleStep, .debug, .wait] I)
    (hres : Keeps I MachProcess.resume) : Keeps I MachProcess.singleStep := by
  refine .bind ?_ fun _ => hI.keeps (awaitStep_within.mono (by decide))
  refine .bind (hI.keeps (.member rfl)) fun _ => .bind (hI.keeps (by simp)) fun _ => ?_
  refine .bind (hI.keeps (.member rfl)) fun _ => ?_
  exact .bind (hI.keeps ((updateSingleStep_within _).mono (by decide))) fun _ => hres

end Rules

/-- A call in one piece waits only in the busy wait of `SingleStep`. -/
theorem whole_waiting {c : Call} {p q : Code Unit} {w w' : World} (hc : c.whole = some p)
    (h : p.run world w = (.waiting q, w')) : q = MachProcess.awaitStep := by
  cases c with
  | attach pid ignored => cases hc
  | detach => cases hc
  | resume =>
    cases hc
    exact absurd h (resume_within.not_waiting (by decide) (by decide) w q w')
  | stop =>
    cases hc
    exact absurd h (stop_within.not_waiting (by decide) (by decide) w q w')
  | singleStep =>
    cases hc
    -- everything before the busy wait comes to an end
    rcases Prog.run_bind_eq_waiting world h with ⟨q', hq⟩ | ⟨a, w₁, -, hrest⟩
    · exact absurd hq (armAndResume_within.not_waiting (by decide) (by decide) w q' w')
    · unfold MachProcess.awaitStep at hrest ⊢
      simp only [Prog.run, world_exec_member] at hrest
      cases hb : w₁.proc.mSingleStep with
      | true =>
        simp only [MemberOp.exec, hb] at hrest
        exact (Outcome.waiting.inj (Prod.mk.inj hrest).1).symm
      | false =>
        simp only [MemberOp.exec, hb, member, Prog.call, Prog.run, world_exec_member] at hrest
        cases hrest

/-- The labels of an attached session: the controller neither attaches again nor detaches. -/
def Label.inSession : Label → Prop
  | .call (.attach _ _) => False
  | .call .detach => False
  | _ => True

/-- The states of a session that `Attach` has started in the world `w`, with further labels ruled
out. -/
def Attached (sdk : Sdk) (allow : Label → Prop) (w : World) (pid : ℤ) (ignored : List ExceptionMask)
    (s : Session) : Prop :=
  ∃ r w₀, (MachProcess.attachStart sdk pid ignored).run world w = (.done r, w₀) ∧
    Session.Runs sdk (fun l => l.inSession ∧ allow l)
      ⟨.inside (MachProcess.attachStarted pid r.1 r.2), w₀⟩ s

/-- What is left of a call that the controller is inside writes the status at most. -/
def Session.AtMostStatus (s : Session) : Prop :=
  ∀ p, s.ctl = .inside p → Within [.status, .wait] p

/-- A call inside an attached session stays one that writes the status at most: it is the rest of
`Attach` or the busy wait of `SingleStep`. -/
theorem Session.Step.atMostStatus {sdk : Sdk} {s s' : Session} {l : Label}
    (hs : Session.Step sdk s l s') (hl : l.inSession) (h : s.AtMostStatus) : s'.AtMostStatus := by
  cases hs with
  | attach _ => exact hl.elim
  | refuse _ => exact hl.elim
  | detach => exact hl.elim
  | @whole w w' c p o ctl hc hp hafter =>
    rintro q rfl
    cases o with
    | done a => cases hafter
    | threw e => cases hafter
    | aborted => cases hafter
    | waiting q' =>
      cases hafter
      rw [whole_waiting hc hp]
      exact awaitStep_within
  | op hstep =>
    rintro q ⟨⟩
    obtain ⟨-, hq⟩ := (h _ rfl).uses.step_inv (I := fun _ => True) (fun _ _ _ _ _ _ _ => trivial)
      hstep trivial
    exact ⟨hq, fun h => by simp at h⟩
  | ret => rintro p ⟨⟩
  | throw => rintro p ⟨⟩
  | turn _ _ => exact h
  | event e => exact h

/-- **The rule for attached sessions**: a property of the world holds throughout when the start of
the attach establishes it, and every kind of step keeps it. -/
theorem Attached.inv {sdk : Sdk} {allow : Label → Prop} {w : World} {pid : ℤ}
    {ignored : List ExceptionMask} {s : Session} {I : World → Prop}
    (h : Attached sdk allow w pid ignored s)
    (hstart : ∀ r w₀, (MachProcess.attachStart sdk pid ignored).run world w = (.done r, w₀) → I w₀)
    (hI : KeptBy [.status, .singleStep, .debug, .wait] I) (hres : Keeps I MachProcess.resume)
    (hturn : ∀ w n r w', (ExceptionThread.turn sdk ⟨w.proc.mTask.mTask, n⟩).run world w =
      (.done r, w') → I w → I w')
    (hevent : ∀ e, allow (.event e) → ∀ w, I w → I ⟨w.proc, w.kern.event e⟩) : I s.state := by
  obtain ⟨r, w₀, hrun, h⟩ := h
  refine (h.inv (I := fun s => I s.state ∧ s.AtMostStatus) (fun s l s' hl hs hinv => ?_)
    ⟨hstart r w₀ hrun, ?_⟩).1
  · obtain ⟨hw, hctl⟩ := hinv
    refine ⟨?_, hs.atMostStatus hl.1 hctl⟩
    cases hs with
    | attach _ => exact hl.1.elim
    | refuse _ => exact hl.1.elim
    | detach => exact hl.1.elim
    | @whole w w' c p o ctl hc hp hafter =>
      have hkeep : Keeps I p := by
        cases c with
        | attach _ _ => cases hc
        | detach => cases hc
        | resume => cases hc; exact hres
        | stop => cases hc; exact hI.keeps (stop_within.mono (by decide))
        | singleStep => cases hc; exact singleStep_keeps hI hres
      exact hkeep w o w' hp (by rintro rfl; cases hafter) hw
    | op hstep => exact ((hctl _ rfl).uses.step_inv (hI.mono (by decide)) hstep hw).1
    | ret => exact hw
    | throw => exact hw
    | turn _ ht => exact hturn _ _ _ _ ht hw
    | event e => exact hevent e hl.2 _ hw
  · rintro p ⟨⟩
    exact (attachStarted_within pid r.1 r.2).mono (by decide)

end MachDebug
