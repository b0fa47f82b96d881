import MachDebug.Threads.Ledger

/-!
# Replies in every interleaving

The list of messages is shared without a lock: the exception thread may queue a message while the
controller replies to the others. Where no message is queued between the start of the reply loop
and the `clear`, every message that was handed to the process is in the list, about to be queued,
or has been replied to once, in every interleaving and with every pattern of kernel answers.

## Main definitions

* `repliesRule`: no message is queued while the list is being replied to
* `System.RepliesKept`: every message handed over is pending or has one reply

## Main results

* `repliesDiscipline_sound`: both threads keep the discipline of the ledger
* `replies_kept`: in every run no reply is lost or given twice
-/

namespace MachDebug

open Program

/-! ## The rule and the discipline -/

/-- No message is queued while the list is being replied to. -/
def repliesRule : Thread → {β : Type} → Op β → Traced → β → Prop
  | .exception, _, .member (.pushMessage _), t, _ => t.trace.replying = false
  | _, _, _, _, _ => True

/-- The access queues a message. -/
def Op.queues : {β : Type} → Op β → Bool
  | _, .member (.pushMessage _) => true
  | _, _ => false

theorem repliesRule_iff {who : Thread} {β : Type} {o : Op β} {t : Traced} {b : β} :
    repliesRule who o t b ↔ (who = .exception → o.queues = true → t.trace.replying = false) := by
  cases who with
  | controller => simp [repliesRule]
  | exception =>
    cases o with
    | sys o => simp [repliesRule, Op.queues]
    | member o => cases o <;> simp [repliesRule, Op.queues]

instance (who : Thread) {β : Type} (o : Op β) (t : Traced) (b : β) :
    Decidable (repliesRule who o t b) :=
  decidable_of_iff _ repliesRule_iff.symm

/-- The assertions of both threads. -/
def repliesDiscipline : Discipline Ledger where
  view := Traced.ledger
  inv := Ledger.Inv
  ctlRely := Ledger.CtlRely
  excRely := Ledger.ExcRely
  ctl_refl := .refl
  ctl_trans _ _ _ := .trans
  exc_refl := .refl
  exc_trans _ _ _ := .trans
  idle v := v.replying = false
  returned _ v := v.replying = false
  waiting v := v.inFlight = none
  offered m v := v.inFlight = none ∧ v.fetched = some m.excMsg.serial
  ready m v := v.inFlight = some m.excMsg.serial

namespace Ledger

/-- The controller is not replying. -/
abbrev Quiet (v : Ledger) : Prop := v.replying = false

/-- A program of the controller keeps the discipline. -/
abbrev CtlSafe {α : Type} (p : Code α) (Q : α → Ledger → Prop) (t : Traced) : Prop :=
  repliesDiscipline.CtlSafe repliesRule Q p t

/-- A program of the exception thread keeps the discipline. -/
abbrev ExcSafe {α : Type} (p : Code α) (Q : α → Ledger → Prop) (t : Traced) : Prop :=
  repliesDiscipline.ExcSafe repliesRule Q p t

theorem Quiet.stable : repliesDiscipline.ctlTerms.Stable Quiet :=
  fun _ _ _ _ hr h => hr.replying.trans h

variable {t : Traced}

/-- A part of a program that leaves the ledger alone. -/
theorem ctl_quiet {α β : Type} {S : List Part} {p : Code α} {f : α → Code β}
    {Q : β → Ledger → Prop} {P : Ledger → Prop} (hp : Within S p) (hS : ∀ x ∈ S, x ∉ Part.booked)
    (hP : repliesDiscipline.ctlTerms.Stable P) (hQuiet : ∀ v, P v → v.Quiet)
    (hf : ∀ a (u : Traced), u.ledger.Inv → P u.ledger → CtlSafe (f a) Q u) (hinv : t.ledger.Inv)
    (ht : P t.ledger) : CtlSafe (p.bind f) Q t :=
  Terms.Safe.bind_uses hp.uses hP (fun _ ho => Terms.Keeps.of_view ExcRely.refl
    fun _ _ _ he => ledger_quiet he fun x hx => hS x (ho x hx)) hQuiet hf hinv ht

/-- One operation of the controller that leaves the ledger alone. -/
theorem ctl_read {α β : Type} {o : Op β} {k : β → Code α} {Q : α → Ledger → Prop}
    {P : Ledger → Prop} (hP : repliesDiscipline.ctlTerms.Stable P)
    (ho : ∀ x ∈ o.part, x ∉ Part.booked)
    (hk : ∀ b (u : Traced), u.ledger.Inv → P u.ledger → CtlSafe (k b) Q u)
    (hinv : t.ledger.Inv) (ht : P t.ledger) : CtlSafe (.op o k) Q t :=
  Terms.Safe.read ExcRely.refl hP (fun _ _ _ he => ledger_quiet he ho)
    (fun u b u' _ _ hu hp hview => hk b u' (by rw [← hview] at hu; exact hu)
      (by rw [← hview] at hp; exact hp)) hinv ht

theorem ctl_assert {α : Type} {c : Bool} {f : Unit → Code α} {Q : α → Ledger → Prop}
    (h : c = true → CtlSafe (f ()) Q t) : CtlSafe ((Prog.assert c).bind f) Q t := by
  cases c with
  | true => exact h rfl
  | false => trivial

/-! ## The controller's calls -/

/-- The loop has come to the messages `ms`. -/
structure Replying (ms : List ℕ) (v : Ledger) : Prop where
  replying : v.replying = true
  done : ∀ n ∈ v.list, n ∈ v.replies ∨ n ∈ ms
  rest : ∀ n ∈ ms, n ∈ v.list ∧ n ∉ v.replies
  nodup : ms.Nodup

theorem Replying.stable (ms : List ℕ) : repliesDiscipline.ctlTerms.Stable (Replying ms) := by
  intro v v' _ _ hr h
  have hrely : v.CtlRely v' := hr
  refine ⟨hrely.replying.trans h.replying, ?_, ?_, h.nodup⟩
  · rw [hrely.list h.replying, hrely.replies]
    exact h.done
  · rw [hrely.list h.replying, hrely.replies]
    exact h.rest

/-- The part of `Reply` for a soft signal leaves the ledger alone. -/
theorem replySoftSignal_safe {α : Type} {m : Message} {signal : BitVec 32} {f : Unit → Code α}
    {Q : α → Ledger → Prop} {P : Ledger → Prop} (hP : repliesDiscipline.ctlTerms.Stable P)
    (hf : ∀ u : Traced, u.ledger.Inv → P u.ledger → CtlSafe (f ()) Q u) (hinv : t.ledger.Inv)
    (ht : P t.ledger) : CtlSafe ((m.replySoftSignal signal).bind f) Q t := by
  have hupdate {u : Traced} (pid : ℤ) (sig : BitVec 32) (hu : u.ledger.Inv) (hp : P u.ledger) :
      CtlSafe ((m.updateThread pid sig).bind f) Q u := by
    unfold Message.updateThread
    simp only [Prog.bind_eq, Prog.bind_assoc, sys_bind, Prog.bind_op, Prog.pure_eq, Prog.bind_ret]
    exact ctl_assert fun _ => ctl_read hP (part_all rfl) (fun _ => hf) hu hp
  unfold Message.replySoftSignal
  simp only [Prog.bind_eq, member_bind, sys_bind, Prog.bind_op, Prog.bind_ite]
  refine ctl_read hP (part_all rfl) (fun tk u hu hp => ?_) hinv ht
  split
  · exact ctl_read hP (part_all rfl) (fun pid x => hupdate pid signal) hu hp
  · exact ctl_read hP (part_all rfl) (fun r x => hupdate _ _) hu hp

/-- `Reply` gives the next message its reply. -/
theorem reply_safe {α : Type} {m : Message} {ms : List ℕ} {f : KernReturn → Code α}
    {Q : α → Ledger → Prop}
    (hf : ∀ kr (u : Traced), u.ledger.Inv → Replying ms u.ledger → CtlSafe (f kr) Q u)
    (hinv : t.ledger.Inv) (ht : Replying (m.excMsg.serial :: ms) t.ledger) :
    CtlSafe ((m.reply 0).bind f) Q t := by
  have hsend {u : Traced} (hu : u.ledger.Inv) (hp : Replying (m.excMsg.serial :: ms) u.ledger) :
      CtlSafe ((sys (.machMsgSend m.excMsg.serial m.retCode)).bind f) Q u := by
    refine Terms.Safe.op (Replying.stable _) (fun x kr x' he _ hx hpx => ?_) hu hp
    have hx : x.ledger.Inv := hx
    have hpx : Replying (m.excMsg.serial :: ms) x.ledger := hpx
    have hview : x'.ledger =
        { x.ledger with replies := x.ledger.replies ++ [m.excMsg.serial] } := by
      obtain ⟨hex, htrace⟩ := traced_exec he
      obtain ⟨hproc, hsys⟩ := world_sys_proc hex
      have hqueue : x.world.Same x'.world .queue := exec_same _ hex (by simp [Op.part, SysOp.part])
      simp only [Traced.ledger, hproc, htrace, (sys_follows _ hsys).nextSerial,
        show x'.world.kern.queue = x.world.kern.queue from hqueue]
      rfl
    -- the message is in the list and has no reply yet
    obtain ⟨hl, hn⟩ := hpx.rest _ (List.mem_cons_self ..)
    have hinv' : x'.ledger.Inv := hview ▸ hx.reply hpx.replying hl hn
    have hnext : Replying ms x'.ledger := by
      rw [hview]
      refine ⟨hpx.replying, fun n hn => ?_, fun n hn => ⟨(hpx.rest n (.tail _ hn)).1, fun hr => ?_⟩,
        (List.nodup_cons.mp hpx.nodup).2⟩
      · rcases hpx.done n hn with hr | hr
        · exact .inl (List.mem_append_left _ hr)
        · rcases List.mem_cons.mp hr with rfl | hr
          · exact .inl (List.mem_append_right _ (List.mem_singleton_self _))
          · exact .inr hr
      · rcases List.mem_append.mp hr with hr | hr
        · exact (hpx.rest n (.tail _ hn)).2 hr
        · rw [List.mem_singleton.mp hr] at hn
          exact (List.nodup_cons.mp hpx.nodup).1 hn
    have hrely : x.ledger.ExcRely x'.ledger := by
      rw [hview]
      exact ⟨rfl, rfl⟩
    exact ⟨⟨hinv', hrely⟩, hf kr x' hinv' hnext⟩
  unfold Message.reply
  simp only [Prog.bind_eq, Prog.bind_ite, Prog.bind_assoc]
  split
  · exact replySoftSignal_safe (Replying.stable _) (fun _ => hsend) hinv ht
  · exact hsend hinv ht

/-- The loop replies to the messages one after the other. -/
theorem replyEach_safe {α : Type} {f : Unit → Code α} {Q : α → Ledger → Prop}
    (hf : ∀ u : Traced, u.ledger.Inv → Replying [] u.ledger → CtlSafe (f ()) Q u)
    (ms : List Message) (hinv : t.ledger.Inv)
    (ht : Replying (ms.map (·.excMsg.serial)) t.ledger) :
    CtlSafe ((MachProcess.replyEach ms).bind f) Q t := by
  induction ms generalizing t with
  | nil => exact hf t hinv ht
  | cons m ms ih =>
    unfold MachProcess.replyEach
    simp only [Prog.bind_eq, Prog.bind_assoc]
    exact reply_safe (fun _ u => ih) hinv ht

/-- `ReplyToAllExceptions` clears the list when all its messages have their reply. -/
theorem replyToAllExceptions_safe {α : Type} {f : Unit → Code α} {Q : α → Ledger → Prop}
    (hf : ∀ u : Traced, u.ledger.Inv → u.ledger.Quiet → CtlSafe (f ()) Q u) (hinv : t.ledger.Inv)
    (ht : t.ledger.Quiet) : CtlSafe (MachProcess.replyToAllExceptions.bind f) Q t := by
  unfold MachProcess.replyToAllExceptions
  simp only [Prog.bind_eq, member_bind, Prog.bind_op, Prog.bind_assoc, Prog.bind_ite]
  refine ctl_read Quiet.stable (part_all rfl) (fun st u hu hp => ?_) hinv ht
  refine ctl_assert fun _ => ?_
  refine ctl_read Quiet.stable (part_all rfl) (fun e x hx hpx => ?_) hu hp
  split
  · refine Terms.Safe.op Quiet.stable (fun y ms y' he _ hy hpy => ?_) hx hpx
    have hy : y.ledger.Inv := hy
    have hpy : y.ledger.Quiet := hpy
    obtain rfl : ms = y.world.proc.mExceptionMessages := by cases he; rfl
    have hview : y'.ledger = { y.ledger with replying := true } := by cases he; rfl
    -- nothing of the list has a reply yet
    have hnone (n : ℕ) (hn : n ∈ y.ledger.list) : n ∉ y.ledger.replies := fun hr => by
      have := (hy.apart n hr (List.mem_append_left _ hn)).1
      rw [hpy] at this
      cases this
    have hloop : y'.ledger.Inv ∧ y.ledger.ExcRely y'.ledger := by
      rw [hview]
      exact ⟨hy.loop, rfl, rfl⟩
    -- the loop runs over the list as it was read; then the list is cleared
    refine ⟨hloop, replyEach_safe (fun z hz hpz => ?_) _ hloop.1 ?_⟩
    · refine Terms.Safe.op (Replying.stable []) (fun w b w' he _ hw hpw => ?_) hz hpz
      have hw : w.ledger.Inv := hw
      have hpw : Replying [] w.ledger := hpw
      have hclear : w'.ledger = { w.ledger with list := [], replying := false } := by cases he; rfl
      have hinv' : w'.ledger.Inv ∧ w.ledger.ExcRely w'.ledger := by
        rw [hclear]
        exact ⟨hw.clear fun n hn => (hpw.done n hn).resolve_right (by simp), rfl, rfl⟩
      exact ⟨hinv', hf w' hinv'.1 (by rw [hclear])⟩
    · rw [hview]
      exact ⟨rfl, fun n hn => .inr hn, fun n hn => ⟨hn, hnone n hn⟩,
        (List.nodup_append.mp hy.nodup).1⟩
  · exact hf x hx hpx

/-- A program that leaves the ledger alone. -/
theorem quiet_safe {S : List Part} {p : Code Unit} (hp : Within S p)
    (hS : ∀ x ∈ S, x ∉ Part.booked) (hinv : t.ledger.Inv) (ht : t.ledger.Quiet) :
    CtlSafe p (fun _ => Quiet) t := by
  have h : CtlSafe (p.bind .ret) (fun _ => Quiet) t := ctl_quiet hp hS Quiet.stable (fun _ => id)
    (fun _ u hu hq => Terms.Safe.ret (T := repliesDiscipline.ctlTerms) Quiet.stable (fun _ _ => id)
      hu hq) hinv ht
  rwa [Prog.bind_ret_right] at h

/-- `Resume`, and what follows it. -/
theorem resume_safe {α : Type} {f : Unit → Code α} {Q : α → Ledger → Prop}
    (hf : ∀ u : Traced, u.ledger.Inv → u.ledger.Quiet → CtlSafe (f ()) Q u) (hinv : t.ledger.Inv)
    (ht : t.ledger.Quiet) : CtlSafe (MachProcess.resume.bind f) Q t := by
  unfold MachProcess.resume
  simp only [Prog.bind_eq, member_bind, Prog.bind_op, Prog.bind_assoc]
  refine ctl_read Quiet.stable (part_all rfl) (fun st u hu hp => ?_) hinv ht
  refine ctl_assert fun _ => replyToAllExceptions_safe (fun x hx hpx => ?_) hu hp
  exact ctl_quiet resumeTask_within (by decide) Quiet.stable (fun _ => id) (fun _ y => hf y) hx hpx

/-- `SingleStep` replies in its `Resume` only. -/
theorem singleStep_safe (hinv : t.ledger.Inv) (ht : t.ledger.Quiet) :
    CtlSafe MachProcess.singleStep (fun _ => Quiet) t := by
  unfold MachProcess.singleStep MachProcess.armAndResume MachTask.enableSingleStep
  simp only [Prog.bind_eq, member_bind, Prog.bind_op, Prog.bind_assoc]
  refine ctl_read Quiet.stable (part_all rfl) (fun st u hu hp => ?_) hinv ht
  refine ctl_assert fun _ => ?_
  refine ctl_read Quiet.stable (part_all rfl)
    (fun _ x hx hpx => ?_) hu hp
  refine ctl_quiet (updateSingleStep_within _) (by decide) Quiet.stable (fun _ => id)
    (fun _ y hy hpy => ?_) hx hpx
  exact resume_safe (fun z hz hpz => quiet_safe awaitStep_within (by decide) hz hpz) hy hpy

/-! ## The exception thread -/

theorem waiting_stable : repliesDiscipline.excTerms.Stable fun v => v.inFlight = none :=
  fun _ _ _ _ hr h => (ExcRely.inFlight hr).trans h

/-- A part of a program of the exception thread that leaves the ledger alone. -/
theorem exc_quiet {α β : Type} {S : List Part} {p : Code α} {f : α → Code β}
    {Q : β → Ledger → Prop} {P : Ledger → Prop} (hp : Within S p) (hS : ∀ x ∈ S, x ∉ Part.booked)
    (hP : repliesDiscipline.excTerms.Stable P)
    (hf : ∀ a (u : Traced), u.ledger.Inv → P u.ledger → ExcSafe (f a) Q u) (hinv : t.ledger.Inv)
    (ht : P t.ledger) : ExcSafe (p.bind f) Q t :=
  Terms.Safe.bind_uses (T := repliesDiscipline.excTerms) (E := fun _ => True) hp.uses hP
    (fun _ ho => Terms.Keeps.of_view CtlRely.refl
      fun _ _ _ he => ledger_quiet he fun x hx => hS x (ho x hx)) (fun _ _ => trivial) hf hinv ht

theorem exc_ret {α : Type} {a : α} {Q : α → Ledger → Prop} {P : Ledger → Prop}
    (hP : repliesDiscipline.excTerms.Stable P) (hQ : ∀ v, P v → Q a v) (hinv : t.ledger.Inv)
    (ht : P t.ledger) : ExcSafe (.ret a) Q t :=
  Terms.Safe.ret (T := repliesDiscipline.excTerms) (E := fun _ => True) hP (fun v _ => hQ v) hinv ht

/-- The message that a fetch ends with is the one that was received. -/
theorem fetchReceived_safe (sdk : Sdk) (l : ExceptionThread.Locals) (msg : ExcMsg)
    (hinv : t.ledger.Inv) (ht : t.ledger.inFlight = none ∧ t.ledger.fetched = some msg.serial) :
    ExcSafe (ExceptionThread.fetchReceived sdk l msg) repliesDiscipline.Ends t := by
  have hstable : repliesDiscipline.excTerms.Stable fun v =>
      v.inFlight = none ∧ v.fetched = some msg.serial := fun _ _ _ _ hr h =>
    ⟨(ExcRely.inFlight hr).trans h.1, (ExcRely.fetched hr).trans h.2⟩
  -- the server reads nothing that the ledger records
  have hserver := machExcServer_within sdk msg { taskPort := l.task }
  unfold ExceptionThread.fetchReceived Message.catchExceptionRaise
  simp only [Prog.bind_eq, Prog.bind_assoc, Prog.pure_eq, Prog.bind_ret]
  refine exc_quiet hserver (by simp) hstable (fun r u hu hp => ?_) hinv ht
  split
  · split
    · exact exc_quiet (S := [.taskPort]) (.member rfl) (by decide) hstable
        (fun _ x => exc_ret hstable fun _ h => h) hu hp
    · exact exc_ret hstable (fun _ h => h) hu hp
  · exact exc_ret hstable (fun _ h => h.1) hu hp

/-- A fetch takes the oldest message. -/
theorem fetch_safe (sdk : Sdk) (l : ExceptionThread.Locals) (hinv : t.ledger.Inv)
    (ht : t.ledger.inFlight = none) :
    ExcSafe (ExceptionThread.fetch sdk l) repliesDiscipline.Ends t := by
  unfold ExceptionThread.fetch
  refine exc_quiet (S := []) (.member rfl) (by simp) waiting_stable
    (fun p u hu hp => ?_) hinv ht
  split
  · exact exc_ret waiting_stable (fun _ h => h) hu hp
  refine exc_quiet (S := []) (.sys rfl) (by simp) waiting_stable
    (fun c x hx hpx => ?_) hu hp
  split
  · exact exc_ret waiting_stable (fun _ h => h) hx hpx
  refine exc_quiet (S := []) (.member rfl) (by simp) waiting_stable
    (fun p y hy hpy => ?_) hx hpx
  refine Terms.Safe.op (T := repliesDiscipline.excTerms) (E := fun _ => True) waiting_stable
    (fun z r z' he _ hz hpz => ?_) hy hpy
  have hz : z.ledger.Inv := hz
  -- the receive is the one operation of a fetch that the ledger records
  have hreceive := ledger_receive he
  cases r with
  | ok msg =>
    obtain ⟨hqueue, hview⟩ := hreceive
    have hinv' : z'.ledger.Inv ∧ z.ledger.CtlRely z'.ledger := by
      rw [hview]
      exact ⟨hz.receive hqueue, rfl, rfl, fun _ => rfl⟩
    refine ⟨hinv', fetchReceived_safe sdk l msg hinv'.1 ?_⟩
    rw [hview]
    exact ⟨hpz, rfl⟩
  | error kr =>
    have hsame : z'.ledger.Inv ∧ z.ledger.CtlRely z'.ledger ∧ z'.ledger.inFlight = none := by
      rw [hreceive]
      exact ⟨hz, .refl _, hpz⟩
    refine ⟨⟨hsame.1, hsame.2.1⟩, ?_⟩
    exact exc_quiet (f := fun next => .ret (none, next)) (notReceived_within l kr) (by simp)
      waiting_stable (fun _ x => exc_ret waiting_stable fun _ h => h) hsame.1 hsame.2.2

/-- A hand-over queues its message while the list is not being replied to. -/
theorem deliver_safe (m : Message) (hinv : t.ledger.Inv)
    (ht : t.ledger.inFlight = some m.excMsg.serial) :
    ExcSafe (MachProcess.exceptionMessageReceived m) (fun _ v => v.inFlight = none) t := by
  have hstable : repliesDiscipline.excTerms.Stable fun v => v.inFlight = some m.excMsg.serial :=
    fun _ _ _ _ hr h => (ExcRely.inFlight hr).trans h
  -- the `push_back`, which the rule admits only outside the reply loop
  have hpush {u : Traced} (hu : u.ledger.Inv) (hp : u.ledger.inFlight = some m.excMsg.serial) :
      ExcSafe (member (.pushMessage m)) (fun _ v => v.inFlight = none) u := by
    refine Terms.Safe.op (T := repliesDiscipline.excTerms) (E := fun _ => True)
      (o := Op.member (.pushMessage m)) (k := .ret) (Q := fun _ v => v.inFlight = none) hstable
      (fun x b x' he hrule hx hpx => ?_) hu hp
    have hx : x.ledger.Inv := hx
    have hview : x'.ledger =
        { x.ledger with list := x.ledger.list ++ [m.excMsg.serial], inFlight := none } := by
      cases he
      simp [Traced.ledger, MemberOp.exec, Trace.observe, Trace.byException]
    have hr : x.ledger.replying = false := hrule
    have hinv' : x'.ledger.Inv ∧ x.ledger.CtlRely x'.ledger := by
      rw [hview]
      refine ⟨hx.push hpx hr, rfl, rfl, fun hr' => ?_⟩
      rw [hr] at hr'
      cases hr'
    exact ⟨hinv', exc_ret (Q := fun _ v => v.inFlight = none) waiting_stable (fun _ h => h) hinv'.1
      (by rw [hview])⟩
  have hqueue {u : Traced} (hu : u.ledger.Inv) (hp : u.ledger.inFlight = some m.excMsg.serial) :
      ExcSafe (MachProcess.disarmAndQueue m) (fun _ v => v.inFlight = none) u := by
    unfold MachProcess.disarmAndQueue
    refine exc_quiet (S := []) (.member rfl) (by simp) hstable
      (fun flag x hx hpx => ?_) hu hp
    split
    · refine exc_quiet (updateSingleStep_within _) (by decide) hstable (fun _ y hy hpy => ?_) hx hpx
      exact exc_quiet (S := [.singleStep]) (.member rfl) (by decide) hstable
        (fun _ z => hpush) hy hpy
    · exact hpush hx hpx
  unfold MachProcess.exceptionMessageReceived
  refine exc_quiet (S := []) (.member rfl) (by simp) hstable
    (fun e u hu hp => ?_) hinv ht
  split
  · exact exc_quiet suspend_within (by decide) hstable (fun _ x => hqueue) hu hp
  · exact hqueue hu hp

/-- The target side sends messages with new serials. -/
theorem event_keeps (e : Kernel.Event) (hinv : t.ledger.Inv) :
    (t.event e).ledger.Inv ∧ t.ledger.CtlRely (t.event e).ledger ∧
      t.ledger.ExcRely (t.event e).ledger := by
  cases e with
  | send m =>
    have hview : (t.event (.send m)).ledger =
        { t.ledger with
          queue := t.ledger.queue ++ [t.ledger.next], next := t.ledger.next + 1 } := by
      simp [Traced.ledger, Traced.event, Kernel.event]
    rw [hview]
    exact ⟨hinv.send, ⟨rfl, rfl, fun _ => rfl⟩, ⟨rfl, rfl⟩⟩
  | exit tk => exact ⟨hinv, .refl _, .refl _⟩
  | threads tk ths => exact ⟨hinv, .refl _, .refl _⟩

end Ledger

/-- **Both threads keep the discipline** of the ledger. -/
theorem repliesDiscipline_sound (sdk : Sdk) : repliesDiscipline.Sound sdk repliesRule where
  idle_stable := Ledger.Quiet.stable
  returned_idle _ _ _ h := h
  waiting_stable := Ledger.waiting_stable
  call c hc t hinv ht := by
    cases c with
    | attach pid ignored =>
      exact Ledger.quiet_safe (attach_within sdk pid ignored) (by decide) hinv ht
    | resume =>
      have h : Ledger.CtlSafe (MachProcess.resume.bind .ret) (fun _ => Ledger.Quiet) t :=
        Ledger.resume_safe (fun u hu hq => Terms.Safe.ret (T := repliesDiscipline.ctlTerms)
          Ledger.Quiet.stable (fun _ _ => id) hu hq) hinv ht
      rwa [Prog.bind_ret_right] at h
    | stop => exact Ledger.quiet_safe stop_within (by decide) hinv ht
    | singleStep => exact Ledger.singleStep_safe hinv ht
    | detach => exact absurd rfl hc
  fetch l t hinv ht := Ledger.fetch_safe sdk l hinv ht
  hand m t hinv h := ⟨Ledger.Inv.hand hinv h.2 h.1, ⟨rfl, rfl, fun _ => rfl⟩, rfl⟩
  deliver m t hinv ht := Ledger.deliver_safe m hinv ht
  event e t _ hinv := Ledger.event_keeps e hinv

/-! ## No reply is lost or given twice -/

/-- Every message that was handed to the process is queued, about to be queued, or has been given
one reply; and no message has been given two. -/
structure System.RepliesKept (s : System) : Prop where
  kept : ∀ n ∈ s.state.trace.handed,
    n ∈ s.state.world.proc.mExceptionMessages.map (·.excMsg.serial) ∨
      s.state.trace.inFlight.map (·.excMsg.serial) = some n ∨ s.state.trace.replies.count n = 1
  once : ∀ n, s.state.trace.replies.count n ≤ 1

/-- The serials on the exception port identify the messages. -/
structure Kernel.Numbered (k : Kernel) : Prop where
  nodup : (k.queue.map (·.serial)).Nodup
  lt : ∀ m ∈ k.queue, m.serial < k.nextSerial

/-- **No reply is lost or given twice**, in every run in which no message is queued while the list
is being replied to. -/
theorem replies_kept (sdk : Sdk) (k : Kernel) (hk : k.Numbered) (s : System)
    (hrun : System.Runs sdk repliesRule (System.fresh k) s) : s.RepliesKept := by
  have hfresh : repliesDiscipline.Holds repliesRule (System.fresh k) := by
    refine ⟨⟨hk.nodup, fun n hn => ?_, by simp [System.fresh, repliesDiscipline, Traced.ledger],
      List.nodup_nil, by simp [System.fresh, repliesDiscipline, Traced.ledger],
      by simp [System.fresh, repliesDiscipline, Traced.ledger]⟩, rfl, rfl⟩
    obtain ⟨m, hm, rfl⟩ := List.mem_map.mp hn
    exact hk.lt m hm
  have hinv : s.state.ledger.Inv := ((repliesDiscipline_sound sdk).runs hrun hfresh).inv
  refine ⟨fun n hn => (hinv.kept n hn).imp_right fun h => h.imp_right fun hr => ?_,
    fun n => List.nodup_iff_count_le_one.mp hinv.once n⟩
  exact List.count_eq_one_of_mem hinv.once hr

/-- Two threads of the target raise an exception at once. The second message is handed over and
queued after `i` operations of the `Resume` that follows the first; `j` more operations follow. -/
def resumeMoves (i j : ℕ) : List Move :=
  attachMoves [.breakpoint, { ExcMsg.breakpoint with thread := 12 }] 13 ++
    .call .resume :: (List.replicate i .ctl ++ List.replicate 9 .exc ++ List.replicate j .ctl)

theorem replies_kept_two : ∃ s : System,
    (Kernel.oneProcess fun _ _ => none).Numbered ∧
      System.Runs .macos repliesRule (System.fresh (.oneProcess fun _ _ => none)) s ∧
      s.state.trace.handed = [0, 1] ∧ s.state.trace.replies = [0, 1] ∧ s.RepliesKept := by
  have hk : (Kernel.oneProcess fun _ _ => none).Numbered :=
    ⟨List.nodup_nil, by simp [Kernel.oneProcess]⟩
  obtain ⟨s, hrun, hs⟩ := System.exists_runs .macos repliesRule
    (System.fresh (.oneProcess fun _ _ => none)) (resumeMoves 0 7)
    (fun s => decide (s.state.trace.handed = [0, 1]) && decide (s.state.trace.replies = [0, 1]))
    (by decide +kernel)
  simp only [Bool.and_eq_true, decide_eq_true_eq] at hs
  exact ⟨s, hk, hrun, hs.1, hs.2, replies_kept _ _ hk s hrun⟩

/-- The second message is queued after the reply loop has started: the `clear` drops it. -/
theorem resume_drops_message : ¬ ∀ s : System,
    System.Runs .macos .any (System.fresh (.oneProcess fun _ _ => none)) s → s.RepliesKept := by
  intro h
  obtain ⟨s, hrun, hs⟩ := System.exists_runs .macos .any
    (System.fresh (.oneProcess fun _ _ => none)) (resumeMoves 4 2)
    (fun s => decide (1 ∈ s.state.trace.handed) && decide (s.state.trace.replies = [0]) &&
      s.state.world.proc.mExceptionMessages.isEmpty && s.state.trace.inFlight.isNone)
    (by decide +kernel)
  simp only [Bool.and_eq_true, decide_eq_true_eq, List.isEmpty_iff, Option.isNone_iff_eq_none] at hs
  obtain ⟨⟨⟨hhanded, hreplies⟩, hempty⟩, hnone⟩ := hs
  rcases (h s hrun).kept 1 hhanded with hl | hf | hr
  · rw [hempty] at hl
    cases hl
  · rw [hnone] at hf
    cases hf
  · rw [hreplies] at hr
    cases hr

end MachDebug
