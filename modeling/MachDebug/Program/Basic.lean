import Mathlib.Logic.Relation

/-!
# Programs over atomic operations

A program issues atomic operations one after another and continues with their answers. It ends
with a value, with an exception, or by aborting on a failed assertion; a busy wait repeats one
operation while it answers `true`. A handler interprets the operations on a state, and may leave
an operation blocked. The same program is run alone (`Prog.run`), or one atomic operation at a
time (`Prog.Step`) so that other parties act in between.

## Main definitions

* `Prog Op ε α`: programs over the operations `Op`, throwing `ε` and returning `α`
* `Handler Op σ`: an interpretation of the operations on the state `σ`
* `Prog.run`: the program run alone until it ends or has to wait
* `Prog.Step`, `Prog.step`: one atomic operation, as a relation and as a function
* `Prog.Uses P p`: every operation that `p` can issue satisfies `P`
* `Prog.Straight p`: `p` has no busy wait
* `Prog.Once P p`: `p` issues one operation in `P` at most

## Main results

* `Prog.run_bind`: running a sequence runs its parts
* `Prog.Uses.run_inv`: a property kept by every operation a program can issue is kept by its run
* `Prog.steps_of_run`: a run that returned is a sequence of steps
* `Prog.Straight.not_waiting`: a program without busy wait and blocked operation does not wait
-/

namespace Program

universe u

/-- A program over the atomic operations `Op`. -/
inductive Prog (Op : Type → Type) (ε α : Type) : Type 1
  | ret (a : α)
  | throw (e : ε)
  | abort
  | op {β : Type} (o : Op β) (k : β → Prog Op ε α)
  | spin (o : Op Bool) (k : Prog Op ε α)

/-- An interpretation of the operations on a state; `none` leaves the operation blocked. -/
structure Handler (Op : Type → Type) (σ : Type u) where
  exec : {β : Type} → Op β → σ → Option (β × σ)

/-- What a run came to: a value, an exception, a failed assertion, or a program that waits. -/
inductive Outcome (Op : Type → Type) (ε α : Type) : Type 1
  | done (a : α)
  | threw (e : ε)
  | aborted
  | waiting (p : Prog Op ε α)

variable {Op : Type → Type} {ε α γ : Type} {σ : Type u}

namespace Prog

/-- Sequencing: the second program continues with the value of the first. -/
def bind : Prog Op ε α → (α → Prog Op ε γ) → Prog Op ε γ
  | .ret a, f => f a
  | .throw e, _ => .throw e
  | .abort, _ => .abort
  | .op o k, f => .op o fun b => (k b).bind f
  | .spin o k, f => .spin o (k.bind f)

instance : Monad (Prog Op ε) where
  pure := .ret
  bind := .bind

/-- Issue one operation. -/
def call {β : Type} (o : Op β) : Prog Op ε β := .op o .ret

/-- A C assertion: the process aborts when the condition is false. -/
def assert (c : Bool) : Prog Op ε Unit := if c then .ret () else .abort

@[simp] theorem pure_eq (a : α) : (pure a : Prog Op ε α) = .ret a := rfl

@[simp] theorem bind_eq (p : Prog Op ε α) (f : α → Prog Op ε γ) : p >>= f = p.bind f := rfl

@[simp] theorem bind_ret (a : α) (f : α → Prog Op ε γ) : (Prog.ret a).bind f = f a := rfl

@[simp] theorem bind_throw (e : ε) (f : α → Prog Op ε γ) : (Prog.throw e).bind f = .throw e := rfl

@[simp] theorem bind_abort (f : α → Prog Op ε γ) : (Prog.abort : Prog Op ε α).bind f = .abort := rfl

@[simp] theorem bind_op {β : Type} (o : Op β) (k : β → Prog Op ε α) (f : α → Prog Op ε γ) :
    (Prog.op o k).bind f = .op o fun b => (k b).bind f := rfl

@[simp] theorem bind_spin (o : Op Bool) (k : Prog Op ε α) (f : α → Prog Op ε γ) :
    (Prog.spin o k).bind f = .spin o (k.bind f) := rfl

@[simp] theorem call_bind {β : Type} (o : Op β) (f : β → Prog Op ε γ) :
    (call o).bind f = .op o f := rfl

@[simp] theorem assert_true : (assert true : Prog Op ε Unit) = .ret () := rfl

@[simp] theorem assert_false : (assert false : Prog Op ε Unit) = .abort := rfl

theorem bind_assoc {δ : Type} (p : Prog Op ε α) (f : α → Prog Op ε γ) (g : γ → Prog Op ε δ) :
    (p.bind f).bind g = p.bind fun a => (f a).bind g := by
  induction p with
  | ret a => rfl
  | throw e => rfl
  | abort => rfl
  | op o k ih => exact congrArg (Prog.op o) (funext ih)
  | spin o k ih => exact congrArg (Prog.spin o) ih

theorem bind_ret_right (p : Prog Op ε α) : p.bind .ret = p := by
  induction p with
  | ret a => rfl
  | throw e => rfl
  | abort => rfl
  | op o k ih => simp only [bind_op, ih]
  | spin o k ih => simp only [bind_spin, ih]

theorem bind_ite (c : Prop) [Decidable c] (p q : Prog Op ε α) (f : α → Prog Op ε γ) :
    (if c then p else q).bind f = if c then p.bind f else q.bind f := by
  split <;> rfl

/-! ## Running alone -/

/-- Run the program alone, until it ends or until an operation blocks or keeps it spinning. -/
def run (H : Handler Op σ) : Prog Op ε α → σ → Outcome Op ε α × σ
  | .ret a, s => (.done a, s)
  | .throw e, s => (.threw e, s)
  | .abort, s => (.aborted, s)
  | .op o k, s =>
    match H.exec o s with
    | none => (.waiting (.op o k), s)
    | some (b, s') => (k b).run H s'
  | .spin o k, s =>
    match H.exec o s with
    | none => (.waiting (.spin o k), s)
    | some (true, s') => (.waiting (.spin o k), s')
    | some (false, s') => k.run H s'

variable (H : Handler Op σ)

@[simp] theorem run_ret (a : α) (s : σ) : (Prog.ret a : Prog Op ε α).run H s = (.done a, s) := rfl

@[simp] theorem run_throw (e : ε) (s : σ) :
    (Prog.throw e : Prog Op ε α).run H s = (.threw e, s) := rfl

@[simp] theorem run_abort (s : σ) : (Prog.abort : Prog Op ε α).run H s = (.aborted, s) := rfl

theorem run_op {β : Type} {o : Op β} {s s' : σ} {b : β} (h : H.exec o s = some (b, s'))
    (k : β → Prog Op ε α) : (Prog.op o k).run H s = (k b).run H s' := by
  simp [run, h]

/-- The rest of a sequence, after the outcome of its first part. -/
def Outcome.andThen (H : Handler Op σ) (f : α → Prog Op ε γ) :
    Outcome Op ε α × σ → Outcome Op ε γ × σ
  | (.done a, s) => (f a).run H s
  | (.threw e, s) => (.threw e, s)
  | (.aborted, s) => (.aborted, s)
  | (.waiting p, s) => (.waiting (p.bind f), s)

/-- **Running a sequence** runs its first part and continues from its outcome. -/
theorem run_bind (p : Prog Op ε α) (f : α → Prog Op ε γ) (s : σ) :
    (p.bind f).run H s = Outcome.andThen H f (p.run H s) := by
  induction p generalizing s with
  | ret a => rfl
  | throw e => rfl
  | abort => rfl
  | op o k ih =>
    simp only [bind_op, run]
    cases H.exec o s with
    | none => rfl
    | some r => exact ih r.1 r.2
  | spin o k ih =>
    simp only [bind_spin, run]
    match H.exec o s with
    | none => rfl
    | some (true, s') => rfl
    | some (false, s') => exact ih s'

theorem run_bind_done {p : Prog Op ε α} {f : α → Prog Op ε γ} {s s' : σ} {a : α}
    (h : p.run H s = (.done a, s')) : (p.bind f).run H s = (f a).run H s' := by
  rw [run_bind, h]; rfl

/-- A sequence that returned was left by its first part with a value. -/
theorem run_bind_eq_done {p : Prog Op ε α} {f : α → Prog Op ε γ} {s s'' : σ} {c : γ}
    (h : (p.bind f).run H s = (.done c, s'')) :
    ∃ a s', p.run H s = (.done a, s') ∧ (f a).run H s' = (.done c, s'') := by
  rw [run_bind] at h
  match hp : p.run H s with
  | (.done a, s') => rw [hp] at h; exact ⟨a, s', rfl, h⟩
  | (.threw e, s') => rw [hp] at h; cases h
  | (.aborted, s') => rw [hp] at h; cases h
  | (.waiting q, s') => rw [hp] at h; cases h

/-- A sequence that waits is waiting in one of its parts. -/
theorem run_bind_eq_waiting {p : Prog Op ε α} {f : α → Prog Op ε γ} {s s'' : σ} {q : Prog Op ε γ}
    (h : (p.bind f).run H s = (.waiting q, s'')) :
    (∃ q', p.run H s = (.waiting q', s'')) ∨
    ∃ a s', p.run H s = (.done a, s') ∧ (f a).run H s' = (.waiting q, s'') := by
  rw [run_bind] at h
  match hp : p.run H s with
  | (.done a, s') => rw [hp] at h; exact .inr ⟨a, s', rfl, h⟩
  | (.threw e, s') => rw [hp] at h; cases h
  | (.aborted, s') => rw [hp] at h; cases h
  | (.waiting q', s') => rw [hp] at h; cases h; exact .inl ⟨q', rfl⟩

/-! ## One operation at a time -/

/-- One atomic operation of the program. -/
inductive Step (H : Handler Op σ) : Prog Op ε α → σ → Prog Op ε α → σ → Prop
  | op {β : Type} {o : Op β} {k : β → Prog Op ε α} {s s' : σ} {b : β} :
      H.exec o s = some (b, s') → Step H (.op o k) s (k b) s'
  | again {o : Op Bool} {k : Prog Op ε α} {s s' : σ} :
      H.exec o s = some (true, s') → Step H (.spin o k) s (.spin o k) s'
  | leave {o : Op Bool} {k : Prog Op ε α} {s s' : σ} :
      H.exec o s = some (false, s') → Step H (.spin o k) s k s'

/-- The atomic operation the program issues next, executed. -/
def step (H : Handler Op σ) : Prog Op ε α → σ → Option (Prog Op ε α × σ)
  | .op o k, s => (H.exec o s).map fun r => (k r.1, r.2)
  | .spin o k, s => (H.exec o s).map fun r => (if r.1 then .spin o k else k, r.2)
  | _, _ => none

variable {H}

/-- The step relation is the graph of the step function. -/
theorem step_iff {p p' : Prog Op ε α} {s s' : σ} :
    p.Step H s p' s' ↔ p.step H s = some (p', s') := by
  constructor
  · rintro (h | h | h) <;> simp [step, h]
  · intro h
    cases p with
    | ret a => cases h
    | throw e => cases h
    | abort => cases h
    | op o k =>
      obtain ⟨r, hr, he⟩ := Option.map_eq_some_iff.mp h
      cases he
      exact .op hr
    | spin o k =>
      obtain ⟨⟨b, t⟩, hr, he⟩ := Option.map_eq_some_iff.mp h
      cases b <;> cases he
      · exact .leave hr
      · exact .again hr

/-- **A run that returned** is a sequence of steps. -/
theorem steps_of_run {p : Prog Op ε α} {s t : σ} {a : α} (h : p.run H s = (.done a, t)) :
    Relation.ReflTransGen (fun x y : Prog Op ε α × σ => x.1.Step H x.2 y.1 y.2)
      (p, s) (.ret a, t) := by
  induction p generalizing s with
  | ret b => cases h; exact .refl
  | throw e => cases h
  | abort => cases h
  | op o k ih =>
    cases he : H.exec o s with
    | none => simp [run, he] at h
    | some r =>
      rw [run_op H he] at h
      exact .head (.op he) (ih r.1 h)
  | spin o k ih =>
    match he : H.exec o s with
    | none => simp [run, he] at h
    | some (true, s') => simp [run, he] at h
    | some (false, s') =>
      simp only [run, he] at h
      exact .head (.leave he) (ih h)

/-! ## The operations a program can issue -/

/-- Every operation that the program can issue satisfies `P`. -/
def Uses (P : {β : Type} → Op β → Prop) : Prog Op ε α → Prop
  | .ret _ => True
  | .throw _ => True
  | .abort => True
  | .op o k => P o ∧ ∀ b, (k b).Uses P
  | .spin o k => P o ∧ k.Uses P

variable {P Q : {β : Type} → Op β → Prop}

@[simp] theorem uses_ret (a : α) : (Prog.ret a : Prog Op ε α).Uses P := trivial

@[simp] theorem uses_throw (e : ε) : (Prog.throw e : Prog Op ε α).Uses P := trivial

@[simp] theorem uses_abort : (Prog.abort : Prog Op ε α).Uses P := trivial

@[simp] theorem uses_op {β : Type} (o : Op β) (k : β → Prog Op ε α) :
    (Prog.op o k).Uses P ↔ P o ∧ ∀ b, (k b).Uses P := Iff.rfl

@[simp] theorem uses_spin (o : Op Bool) (k : Prog Op ε α) :
    (Prog.spin o k).Uses P ↔ P o ∧ k.Uses P := Iff.rfl

@[simp] theorem uses_assert (c : Bool) : (assert c : Prog Op ε Unit).Uses P := by
  cases c <;> trivial

theorem uses_true (p : Prog Op ε α) : p.Uses fun _ => True := by
  induction p with
  | ret a => trivial
  | throw e => trivial
  | abort => trivial
  | op o k ih => exact ⟨trivial, ih⟩
  | spin o k ih => exact ⟨trivial, ih⟩

theorem Uses.bind {p : Prog Op ε α} {f : α → Prog Op ε γ} (hp : p.Uses P)
    (hf : ∀ a, (f a).Uses P) : (p.bind f).Uses P := by
  induction p with
  | ret a => exact hf a
  | throw e => trivial
  | abort => trivial
  | op o k ih => exact ⟨hp.1, fun b => ih b (hp.2 b)⟩
  | spin o k ih => exact ⟨hp.1, ih hp.2⟩

theorem Uses.mono {p : Prog Op ε α} (h : ∀ {β : Type} (o : Op β), P o → Q o) (hp : p.Uses P) :
    p.Uses Q := by
  induction p with
  | ret a => trivial
  | throw e => trivial
  | abort => trivial
  | op o k ih => exact ⟨h o hp.1, fun b => ih b (hp.2 b)⟩
  | spin o k ih => exact ⟨h o hp.1, ih hp.2⟩

/-- The program has no busy wait. -/
def Straight : Prog Op ε α → Prop
  | .ret _ => True
  | .throw _ => True
  | .abort => True
  | .op _ k => ∀ b, (k b).Straight
  | .spin _ _ => False

theorem Straight.bind {p : Prog Op ε α} {f : α → Prog Op ε γ} (hp : p.Straight)
    (hf : ∀ a, (f a).Straight) : (p.bind f).Straight := by
  induction p with
  | ret a => exact hf a
  | throw e => trivial
  | abort => trivial
  | op o k ih => exact fun b => ih b (hp b)
  | spin o k ih => exact hp.elim

/-- A program without busy wait whose operations never block does not wait. -/
theorem Straight.not_waiting {p : Prog Op ε α} (hs : p.Straight) (hp : p.Uses P)
    (hP : ∀ {β : Type} (o : Op β), P o → ∀ s, H.exec o s ≠ none) (s : σ) (q : Prog Op ε α) (t : σ) :
    p.run H s ≠ (.waiting q, t) := by
  induction p generalizing s with
  | ret a => simp
  | throw e => simp
  | abort => simp
  | op o k ih =>
    cases he : H.exec o s with
    | none => exact absurd he (hP o hp.1 s)
    | some r =>
      rw [run_op H he]
      exact ih r.1 (hs r.1) (hp.2 r.1) r.2
  | spin o k ih => exact hs.elim

/-- A property of states that every operation of the program keeps is kept by one step, and the
rest of the program issues no other operations. -/
theorem Uses.step_inv {I : σ → Prop}
    (hI : ∀ {β : Type} (o : Op β), P o → ∀ s b s', H.exec o s = some (b, s') → I s → I s')
    {p p' : Prog Op ε α} {s s' : σ} (hp : p.Uses P) (h : p.Step H s p' s') (hs : I s) :
    I s' ∧ p'.Uses P := by
  cases h with
  | op he => exact ⟨hI _ hp.1 _ _ _ he hs, hp.2 _⟩
  | again he => exact ⟨hI _ hp.1 _ _ _ he hs, hp⟩
  | leave he => exact ⟨hI _ hp.1 _ _ _ he hs, hp.2⟩

/-- The program issues one operation in `P` at most. -/
def Once (P : {β : Type} → Op β → Prop) : Prog Op ε α → Prop
  | .ret _ => True
  | .throw _ => True
  | .abort => True
  | .op o k => (∀ b, (k b).Uses fun o => ¬ P o) ∨ (¬ P o ∧ ∀ b, (k b).Once P)
  | .spin o k => ¬ P o ∧ k.Once P

theorem Uses.once {p : Prog Op ε α} (hp : p.Uses fun o => ¬ P o) : p.Once P := by
  induction p with
  | ret a => trivial
  | throw e => trivial
  | abort => trivial
  | op o k ih => exact .inl hp.2
  | spin o k ih => exact ⟨hp.1, ih hp.2⟩

/-- A program without operations in `P`, and then one with one at most. -/
theorem Uses.bind_once {p : Prog Op ε α} {f : α → Prog Op ε γ} (hp : p.Uses fun o => ¬ P o)
    (hf : ∀ a, (f a).Once P) : (p.bind f).Once P := by
  induction p with
  | ret a => exact hf a
  | throw e => trivial
  | abort => trivial
  | op o k ih => exact .inr ⟨hp.1, fun b => ih b (hp.2 b)⟩
  | spin o k ih => exact ⟨hp.1, ih hp.2⟩

/-- A step issues an operation outside `P`, or the only one in `P`. -/
theorem Once.step {p p' : Prog Op ε α} {s s' : σ} (hp : p.Once P) (h : p.Step H s p' s') :
    ∃ (β : Type) (o : Op β) (b : β), H.exec o s = some (b, s') ∧
      ((p'.Uses fun o => ¬ P o) ∨ (¬ P o ∧ p'.Once P)) := by
  cases h with
  | op he => exact ⟨_, _, _, he, hp.imp (· _) fun hp => ⟨hp.1, hp.2 _⟩⟩
  | again he => exact ⟨_, _, _, he, .inr ⟨hp.1, hp⟩⟩
  | leave he => exact ⟨_, _, _, he, .inr hp⟩

/-- **Frame rule**: a property of states that every operation of the program keeps is kept by its
run. -/
theorem Uses.run_inv {I : σ → Prop}
    (hI : ∀ {β : Type} (o : Op β), P o → ∀ s b s', H.exec o s = some (b, s') → I s → I s')
    {p : Prog Op ε α} (hp : p.Uses P) {s : σ} (hs : I s) : I (p.run H s).2 := by
  induction p generalizing s with
  | ret a => exact hs
  | throw e => exact hs
  | abort => exact hs
  | op o k ih =>
    simp only [run]
    match he : H.exec o s with
    | none => exact hs
    | some (b, s') => exact ih b (hp.2 b) (hI o hp.1 s b s' he hs)
  | spin o k ih =>
    simp only [run]
    match he : H.exec o s with
    | none => exact hs
    | some (true, s') => exact hI o hp.1 s _ s' he hs
    | some (false, s') => exact ih hp.2 (hI o hp.1 s _ s' he hs)

end Prog

end Program
