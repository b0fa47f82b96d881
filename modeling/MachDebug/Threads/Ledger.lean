import MachDebug.Threads.Discipline

/-!
# The ledger of messages and replies

A view of the two threads that follows every message by its serial: where it waits, whether it has
been handed over, and how often it has been replied to. Messages move from the exception port to
the exception thread, from there to the list of the process, and leave the list when it is cleared.

## Main definitions

* `Ledger`: the messages and the replies
* `Ledger.Inv`: every message is in one place, and has at most one reply
* `Traced.ledger`: the ledger of a state

## Main results

* `Ledger.Inv.receive`, `Ledger.Inv.hand`, `Ledger.Inv.push`, `Ledger.Inv.reply`,
  `Ledger.Inv.clear`: the changes of the ledger
* `ledger_quiet`: all other operations leave the ledger alone
-/

namespace MachDebug

open Program

/-- The messages of a session, by their serials. -/
@[ext] structure Ledger where
  queue : List ℕ
  next : ℕ
  fetched : Option ℕ
  inFlight : Option ℕ
  list : List ℕ
  handed : List ℕ
  replies : List ℕ
  replying : Bool

namespace Ledger

/-- The messages that are on their way to a reply. -/
def pending (v : Ledger) : List ℕ :=
  v.list ++ (v.inFlight.toList ++ (v.fetched.toList ++ v.queue))

/-- Every message is in one place, a reply is given once, and only a message of the list has one
while the list is being replied to. -/
structure Inv (v : Ledger) : Prop where
  nodup : v.pending.Nodup
  lt : ∀ n ∈ v.pending, n < v.next
  replied_lt : ∀ n ∈ v.replies, n < v.next
  once : v.replies.Nodup
  apart : ∀ n ∈ v.replies, n ∈ v.pending → v.replying = true ∧ n ∈ v.list
  kept : ∀ n ∈ v.handed, n ∈ v.list ∨ v.inFlight = some n ∨ n ∈ v.replies

/-- What the controller relies on. -/
structure CtlRely (v v' : Ledger) : Prop where
  replying : v'.replying = v.replying
  replies : v'.replies = v.replies
  list : v.replying = true → v'.list = v.list

/-- What the exception thread relies on. -/
structure ExcRely (v v' : Ledger) : Prop where
  inFlight : v'.inFlight = v.inFlight
  fetched : v'.fetched = v.fetched

variable {v v' v'' : Ledger} {n : ℕ}

theorem CtlRely.refl (v : Ledger) : CtlRely v v := ⟨rfl, rfl, fun _ => rfl⟩

theorem CtlRely.trans (h : CtlRely v v') (h' : CtlRely v' v'') : CtlRely v v'' where
  replying := h'.replying.trans h.replying
  replies := h'.replies.trans h.replies
  list hr := (h'.list (h.replying.trans hr)).trans (h.list hr)

theorem ExcRely.refl (v : Ledger) : ExcRely v v := ⟨rfl, rfl⟩

theorem ExcRely.trans (h : ExcRely v v') (h' : ExcRely v' v'') : ExcRely v v'' :=
  ⟨h'.inFlight.trans h.inFlight, h'.fetched.trans h.fetched⟩

/-! ## The changes of a ledger -/

/-- The target side sends a message. -/
theorem Inv.send (h : v.Inv) : Inv { v with queue := v.queue ++ [v.next], next := v.next + 1 } := by
  have hpending : pending { v with queue := v.queue ++ [v.next], next := v.next + 1 } =
      v.pending ++ [v.next] := by simp [pending]
  have hnew : v.next ∉ v.pending := fun hmem => lt_irrefl _ (h.lt _ hmem)
  refine ⟨?_, fun n hn => ?_, fun n hn => Nat.lt_succ_of_lt (h.replied_lt n hn), h.once,
    fun n hn hp => ?_, h.kept⟩
  · rw [hpending]
    exact List.nodup_append.mpr ⟨h.nodup, by simp, by
      rintro a ha b hb rfl
      exact hnew (List.mem_singleton.mp hb ▸ ha)⟩
  · rw [hpending, List.mem_append, List.mem_singleton] at hn
    rcases hn with hn | rfl
    · exact Nat.lt_succ_of_lt (h.lt n hn)
    · exact Nat.lt_succ_self _
  · rw [hpending, List.mem_append, List.mem_singleton] at hp
    rcases hp with hp | rfl
    · exact h.apart n hn hp
    · exact absurd (h.replied_lt _ hn) (lt_irrefl _)

/-- A change that takes messages out of the pending ones only. -/
theorem Inv.sublist (h : v.Inv) (hsub : v'.pending.Sublist v.pending) (hnext : v'.next = v.next)
    (hreplies : v'.replies = v.replies) (hreplying : v'.replying = v.replying)
    (hlist : v'.list = v.list) (hkept : ∀ n ∈ v'.handed,
      n ∈ v'.list ∨ v'.inFlight = some n ∨ n ∈ v'.replies) : v'.Inv where
  nodup := hsub.nodup h.nodup
  lt n hn := hnext ▸ h.lt n (hsub.subset hn)
  replied_lt n hn := hnext ▸ h.replied_lt n (hreplies ▸ hn)
  once := hreplies ▸ h.once
  apart n hn hp := by
    rw [hreplying, hlist]
    exact h.apart n (hreplies ▸ hn) (hsub.subset hp)
  kept := hkept

/-- The exception thread receives the oldest message. -/
theorem Inv.receive (h : v.Inv) {rest : List ℕ} (hq : v.queue = n :: rest) :
    Inv { v with queue := rest, fetched := some n } := by
  refine h.sublist ?_ rfl rfl rfl rfl h.kept
  refine (List.Sublist.refl _).append ((List.Sublist.refl _).append ?_)
  rw [hq]
  exact List.sublist_append_right _ _

/-- The message that was received is handed over. -/
theorem Inv.hand (h : v.Inv) (hf : v.fetched = some n) (hi : v.inFlight = none) :
    Inv { v with fetched := none, inFlight := some n, handed := v.handed ++ [n] } := by
  refine h.sublist ?_ rfl rfl rfl rfl fun m hm => ?_
  · simp [pending, hf, hi]
  · rw [List.mem_append, List.mem_singleton] at hm
    rcases hm with hm | rfl
    · exact (h.kept m hm).imp_right fun h' => h'.imp_left fun h'' => by rw [hi] at h''; cases h''
    · exact .inr (.inl rfl)

/-- The message is queued while the list is not being replied to. -/
theorem Inv.push (h : v.Inv) (hi : v.inFlight = some n) (hr : v.replying = false) :
    Inv { v with list := v.list ++ [n], inFlight := none } := by
  have hpending : pending { v with list := v.list ++ [n], inFlight := none } = v.pending := by
    simp [pending, hi]
  refine ⟨hpending ▸ h.nodup, hpending ▸ h.lt, h.replied_lt, h.once, fun m hm hp => ?_,
    fun m hm => ?_⟩
  -- nothing that is pending has been replied to while no reply loop is under way
  · have hrep := (h.apart m hm (hpending ▸ hp)).1
    rw [hr] at hrep
    cases hrep
  · rcases h.kept m hm with hl | hf | hrep
    · exact .inl (List.mem_append_left _ hl)
    · rw [hi] at hf
      cases hf
      exact .inl (List.mem_append_right _ (List.mem_singleton_self _))
    · exact .inr (.inr hrep)

/-- The controller starts to reply. -/
theorem Inv.loop (h : v.Inv) : Inv { v with replying := true } :=
  ⟨h.nodup, h.lt, h.replied_lt, h.once, fun n hn hp => ⟨rfl, (h.apart n hn hp).2⟩, h.kept⟩

/-- The controller replies to a message of the list. -/
theorem Inv.reply (h : v.Inv) (hr : v.replying = true) (hl : n ∈ v.list) (hn : n ∉ v.replies) :
    Inv { v with replies := v.replies ++ [n] } := by
  refine ⟨h.nodup, h.lt, fun m hm => ?_, ?_, fun m hm hp => ?_, fun m hm => ?_⟩
  · rw [List.mem_append, List.mem_singleton] at hm
    rcases hm with hm | rfl
    · exact h.replied_lt m hm
    · exact h.lt m (List.mem_append_left _ hl)
  · exact List.nodup_append.mpr ⟨h.once, by simp, by
      rintro a ha b hb rfl
      exact hn (List.mem_singleton.mp hb ▸ ha)⟩
  · rw [List.mem_append, List.mem_singleton] at hm
    rcases hm with hm | rfl
    · exact h.apart m hm hp
    · exact ⟨hr, hl⟩
  · exact (h.kept m hm).imp_right fun h' => h'.imp_right fun h'' => List.mem_append_left _ h''

/-- The controller clears a list whose messages have all been replied to. -/
theorem Inv.clear (h : v.Inv) (hall : ∀ n ∈ v.list, n ∈ v.replies) :
    Inv { v with list := [], replying := false } := by
  have hsub : (pending { v with list := [], replying := false }).Sublist v.pending :=
    List.sublist_append_right _ _
  refine ⟨hsub.nodup h.nodup, fun n hn => h.lt n (hsub.subset hn), h.replied_lt, h.once,
    fun n hn hp => ?_, fun n hn => ?_⟩
  -- a message with a reply was in the list, and so nowhere else
  · have hl := (h.apart n hn (hsub.subset hp)).2
    exact absurd rfl ((List.nodup_append.mp h.nodup).2.2 n hl n (by simpa [pending] using hp))
  · rcases h.kept n hn with hl | hf | hrep
    · exact .inr (.inr (hall n hl))
    · exact .inr (.inl hf)
    · exact .inr (.inr hrep)

end Ledger

/-! ## The ledger of a state -/

/-- The ledger of a state. -/
def Traced.ledger (t : Traced) : Ledger where
  queue := t.world.kern.queue.map (·.serial)
  next := t.world.kern.nextSerial
  fetched := t.trace.fetched
  inFlight := t.trace.inFlight.map (·.excMsg.serial)
  list := t.world.proc.mExceptionMessages.map (·.excMsg.serial)
  handed := t.trace.handed
  replies := t.trace.replies
  replying := t.trace.replying

/-- The parts of the world that the ledger shows. -/
def Part.booked : List Part := [.messages, .queue, .replied, .loop]

theorem Trace.observe_booked {β : Type} {o : Op β} (who : Thread) (b : β) (r : Trace)
    (ho : ∀ x ∈ o.part, x ∉ Part.booked) :
    (r.observe who o b).fetched = r.fetched ∧ (r.observe who o b).inFlight = r.inFlight ∧
      (r.observe who o b).handed = r.handed ∧ (r.observe who o b).replies = r.replies ∧
      (r.observe who o b).replying = r.replying := by
  cases o with
  | member o =>
    cases o
    case messages => exact absurd (by decide) (ho _ rfl)
    case pushMessage m => exact absurd (by decide) (ho _ rfl)
    case clearMessages => exact absurd (by decide) (ho _ rfl)
    case setSingleStep v => cases who <;> cases v <;> exact ⟨rfl, rfl, rfl, rfl, rfl⟩
    all_goals cases who <;> exact ⟨rfl, rfl, rfl, rfl, rfl⟩
  | sys o =>
    cases o
    case machMsgSend n e => exact absurd (by decide) (ho _ rfl)
    case machMsgReceive p timeout => exact absurd (by decide) (ho _ rfl)
    all_goals cases who <;> exact ⟨rfl, rfl, rfl, rfl, rfl⟩

/-- An operation on other parts leaves the ledger alone. -/
theorem ledger_quiet {who : Thread} {β : Type} {o : Op β} {t t' : Traced} {b : β}
    (h : (traced who).exec o t = some (b, t')) (ho : ∀ x ∈ o.part, x ∉ Part.booked) :
    t'.ledger = t.ledger := by
  obtain ⟨he, htrace⟩ := traced_exec h
  obtain ⟨hf, hi, hh, hr, hl⟩ := t.trace.observe_booked who b ho
  rw [← htrace] at hf hi hh hr hl
  have hsame (x : Part) (hx : x ∈ Part.booked) : t.world.Same t'.world x :=
    exec_same o he fun hp => ho x hp hx
  ext1
  · exact congrArg (List.map _) (hsame .queue (by decide))
  · exact (exec_follows o he).nextSerial
  · exact hf
  · exact congrArg (Option.map _) hi
  · exact congrArg (List.map _) (hsame .messages (by decide))
  · exact hh
  · exact hr
  · exact hl

/-- A receive that gives a message takes the oldest one; one that gives none takes nothing. -/
theorem receive_queue {port : Port} {timeout : Option ℕ} {k k' : Kernel}
    {r : Except KernReturn ExcMsg} (h : (SysOp.machMsgReceive port timeout).exec k = some (r, k')) :
    match r with
    | .ok m => k.queue = m :: k'.queue
    | .error _ => k'.queue = k.queue := by
  simp only [SysOp.exec, Kernel.issue] at h
  split at h
  · obtain ⟨e, -, he⟩ := Option.map_eq_some_iff.mp h
    cases he
    rfl
  · split at h <;> cases h <;> rfl
  · split at h
    · cases h
      rfl
    · cases h
      assumption

/-- The ledger after a receive. -/
theorem ledger_receive {port : Port} {timeout : Option ℕ} {t t' : Traced}
    {r : Except KernReturn ExcMsg}
    (h : (traced .exception).exec (.sys (.machMsgReceive port timeout)) t = some (r, t')) :
    match r with
    | .ok m => t.ledger.queue = m.serial :: t'.ledger.queue ∧
        t'.ledger = { t.ledger with queue := t'.ledger.queue, fetched := some m.serial }
    | .error _ => t'.ledger = t.ledger := by
  obtain ⟨he, htrace⟩ := traced_exec h
  obtain ⟨hproc, hex⟩ := world_sys_proc he
  have hnext := (sys_follows _ hex).nextSerial
  have hqueue := receive_queue hex
  cases r with
  | ok m =>
    refine ⟨by simp [Traced.ledger, hqueue], ?_⟩
    simp only [Traced.ledger, hproc, htrace, hnext]
    rfl
  | error e =>
    simp only [Traced.ledger, hproc, htrace, hnext, hqueue]
    rfl

end MachDebug
