import MachDebug.Loop.Tape

/-!
# The tracked task

The exception thread has the task of the target in a local variable and in `m_task`, and hands it
to `catch_mach_exception_raise` in the record that `g_message` points to. Whatever messages arrive
and whatever is answered about the task, the two stay equal, and they change only for the message
of an exec that finds the old task gone.

## Main definitions

* `ReportedInvalid task es`: the task was found invalid among these events
* `ExceptionThread.MovedBy sdk task es msg`: the message of an exec was received

## Main results

* `ExceptionThread.Fetched.tracks`: an iteration keeps the two equal
* `ExceptionThread.exceptionThread_tracks`: so does the thread, and when it moves
-/

namespace MachDebug

open Program

/-- `IsValid` has answered that the task is not valid. -/
def ReportedInvalid (task : Port) (es : List Event) : Prop :=
  task = 0 ∨ ∃ kr ≠ 0, .taskInfo task kr ∈ es

theorem Probed.reportedInvalid {task : Port} {es es' : List Event} (h : Probed task es false) :
    ReportedInvalid task (es' ++ es) := by
  generalize hv : false = v at h
  cases h with
  | null => exact .inl rfl
  | asked kr _ =>
    refine .inr ⟨kr, ?_, by simp⟩
    simpa using hv

/-- A task that was found invalid by at most one probe. -/
theorem ReportedInvalid.probed {task : Port} {es : List Event}
    (hes : es = [] ∨ ∃ v, Probed task es v) (h : ReportedInvalid task es) :
    Probed task es false := by
  rcases hes with rfl | ⟨v, hprobed⟩
  · rcases h with rfl | ⟨kr, -, hasked⟩
    · exact .null
    · cases hasked
  · cases hprobed with
    | null => exact .null
    | asked kr hne =>
      rcases h with hnull | ⟨kr', hkr, hasked⟩
      · exact absurd hnull hne
      · obtain rfl : kr' = kr := by simpa using hasked
        have hprobed := Probed.asked kr' hne
        rwa [decide_eq_false hkr] at hprobed

namespace ExceptionThread

/-- The message of an exec was received, and the old task was found invalid. -/
structure MovedBy (sdk : Sdk) (task : Port) (es : List Event) (msg : ExcMsg) : Prop where
  received : ∃ timeout, .receive timeout (.ok msg) ∈ es
  exec : OfExec sdk msg
  invalid : ReportedInvalid task es

variable {sdk : Sdk} {l l' : Locals} {es : List Event} {m : Option Message} {t : Turn}
  {mTask mTask' : Port}

/-- **An iteration keeps** the local variable and `m_task` equal. -/
theorem Fetched.tracks (h : Fetched sdk l l.task es m (.again l') mTask') : mTask' = l'.task := by
  generalize ht : Turn.again l' = t at h
  cases h with
  | portInvalid _ => cases ht
  | cancelled _ => cases ht
  | interruptedPort _ _ => cases ht
  | @interrupted _ _ _ _ v _ _ _ =>
    cases v <;> cases ht
    rfl
  | @timedOut _ _ _ v _ _ _ =>
    cases v <;> cases ht
    rfl
  | failed _ _ _ => cases ht; rfl
  | refused _ _ => cases ht; rfl
  | caught _ _ _ _ _ => cases ht; rfl
  | execed _ _ _ _ _ => cases ht; rfl

/-- `m_task` changes for the message of an exec only. -/
theorem Fetched.movedBy (h : Fetched sdk l mTask es m t mTask') (hne : mTask' ≠ mTask) :
    ∃ msg, MovedBy sdk l.task es msg ∧ mTask' = msg.task := by
  cases h with
  | @execed p q msg _ _ _ hexec _ hprobed _ =>
    exact ⟨msg, ⟨⟨timeout l, by simp [attempt]⟩, hexec, hprobed.reportedInvalid⟩, rfl⟩
  | _ => exact absurd rfl hne

/-- The message of an exec moves `m_task` to its task. -/
theorem Fetched.eq_of_movedBy {msg : ExcMsg} (h : Fetched sdk l mTask es m t mTask')
    (hmoved : MovedBy sdk l.task es msg) : mTask' = msg.task := by
  obtain ⟨⟨wait, hreceived⟩, hexec, hinvalid⟩ := hmoved
  have hprobe {task : Port} {es : List Event} {v : Bool} (h : Probed task es v) :
      .receive wait (.ok msg) ∉ es := by
    cases h <;> simp
  cases h with
  | portInvalid _ => simp at hreceived
  | cancelled _ => simp at hreceived
  | interruptedPort _ _ => simp [attempt] at hreceived
  | interrupted _ _ hprobed => simp [attempt, hprobe hprobed] at hreceived
  | timedOut _ _ hprobed => simp [attempt, hprobe hprobed] at hreceived
  | failed _ _ _ => simp [attempt] at hreceived
  | refused _ hnone =>
    obtain ⟨-, rfl⟩ : wait = timeout l ∧ msg = _ := by simpa [attempt] using hreceived
    rw [hexec.routine] at hnone
    cases hnone
  | @caught p q msg' _ es' _ _ _ hes hnot =>
    have hmem : .receive wait (.ok msg) ∉ es' := by
      rcases hes with rfl | ⟨v, hprobed⟩
      · simp
      · exact hprobe hprobed
    obtain ⟨-, rfl⟩ : wait = timeout l ∧ msg = msg' := by simpa [attempt, hmem] using hreceived
    -- the task was found invalid, so the message would have been that of an exec
    refine absurd hexec (hnot (ReportedInvalid.probed hes ?_))
    rcases hinvalid with hnull | ⟨kr, hkr, hasked⟩
    · exact .inl hnull
    · exact .inr ⟨kr, hkr, by simpa [attempt] using hasked⟩
  | @execed p q msg' _ es' _ _ _ hprobed _ =>
    obtain ⟨-, rfl⟩ : wait = timeout l ∧ msg = msg' := by
      simpa [attempt, hprobe hprobed] using hreceived
    rfl

/-- **The whole thread**: after every number of iterations, the local variable is `m_task`. -/
theorem run_exceptionThread_mTask (sdk : Sdk) (e : Answers) (s : Tape) (n : ℕ) {l : Locals}
    {s₁ : Tape} (h : (exceptionThread sdk n).run (tape e) s = (.done (.again l), s₁)) :
    s₁.mTask = l.task := by
  induction n generalizing l s₁ with
  | zero =>
    cases h
    rfl
  | succ n ih =>
    rw [exceptionThread_succ] at h
    obtain ⟨t, s₂, hrun, hturn⟩ := Prog.run_bind_eq_done _ h
    cases t with
    | exit => cases hturn
    | again l₂ =>
      obtain ⟨es, m, t, hfetched, ⟨-, ht⟩ | ⟨-, -, x, hx⟩⟩ := run_turn e sdk hturn
      · cases ht
        rw [ih hrun] at hfetched
        exact hfetched.tracks
      · cases hx

/-- **Tracking the task.** Whatever is received and answered: at every head of the loop, the local
variable is `m_task`, and an iteration changes `m_task` only to the task of an exec's message that
it has received, after it has found the tracked task invalid. -/
theorem exceptionThread_tracks (sdk : Sdk) (e : Answers) (s : Tape) (n : ℕ) (l : Locals) (s₁ : Tape)
    (h : (exceptionThread sdk n).run (tape e) s = (.done (.again l), s₁)) :
    s₁.mTask = l.task ∧ ∀ o s₂, (turn sdk l).run (tape e) s₁ = (o, s₂) →
      ∃ es, s₂.log = s₁.log ++ es ∧
        (s₂.mTask ≠ s₁.mTask → ∃ msg, MovedBy sdk s₁.mTask es msg ∧ s₂.mTask = msg.task) ∧
        ∀ msg, MovedBy sdk s₁.mTask es msg → s₂.mTask = msg.task := by
  have htask := run_exceptionThread_mTask sdk e s n h
  refine ⟨htask, fun o s₂ hturn => ?_⟩
  obtain ⟨es, m, t, hfetched, hlog⟩ := run_turn e sdk hturn
  -- what is queued is no receive and no answer about the task
  have hqueued {msg : ExcMsg} (ms : List Message) :
      MovedBy sdk l.task (es ++ ms.map .queued) msg ↔ MovedBy sdk l.task es msg := by
    constructor
    · rintro ⟨⟨wait, hreceived⟩, hexec, hinvalid⟩
      exact ⟨⟨wait, by simpa using hreceived⟩, hexec, by simpa [ReportedInvalid] using hinvalid⟩
    · rintro ⟨⟨wait, hreceived⟩, hexec, hinvalid⟩
      exact ⟨⟨wait, by simpa using hreceived⟩, hexec, by simpa [ReportedInvalid] using hinvalid⟩
  obtain ⟨ms, hlog⟩ : ∃ ms : List Message, s₂.log = s₁.log ++ (es ++ ms.map .queued) := by
    rcases hlog with ⟨hlog, -⟩ | ⟨hlog, -⟩
    · exact ⟨_, hlog⟩
    · exact ⟨[], by simpa using hlog⟩
  refine ⟨_, hlog, fun hne => ?_, fun msg hmoved => ?_⟩
  · obtain ⟨msg, hmoved, heq⟩ := hfetched.movedBy hne
    exact ⟨msg, htask ▸ (hqueued ms).mpr hmoved, heq⟩
  · exact hfetched.eq_of_movedBy ((hqueued ms).mp (htask ▸ hmoved))

/-- The first message of task `9` after an exec. -/
def execMessage : ExcMsg := ⟨0, 2405, 9, 11, excSoftware, [excSoftSignal, sigtrap]⟩

/-- The thread starts with task `3`, which is gone, and moves to task `9` in its first iteration. -/
theorem exceptionThread_tracks_exec : ∃ l s₁ s₂ o es,
    (exceptionThread .macos 0).run (tape (.idle (fun _ _ => .ok execMessage) 1)) ⟨0, 3, []⟩ =
      (.done (.again l), s₁) ∧
    (turn .macos l).run (tape (.idle (fun _ _ => .ok execMessage) 1)) s₁ = (o, s₂) ∧
    s₁.mTask = l.task ∧ s₂.mTask = 9 ∧ ∃ msg, MovedBy .macos 3 es msg ∧ s₂.mTask = msg.task := by
  obtain ⟨htask, hturn⟩ := exceptionThread_tracks .macos (.idle (fun _ _ => .ok execMessage) 1)
    ⟨0, 3, []⟩ 0 ⟨3, 0⟩ ⟨1, 3, []⟩ rfl
  obtain ⟨es, -, hmoved, -⟩ := hturn _ _ rfl
  exact ⟨⟨3, 0⟩, ⟨1, 3, []⟩, _, _, es, rfl, rfl, htask, rfl, hmoved (by decide)⟩

end ExceptionThread

end MachDebug
