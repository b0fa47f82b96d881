import Mathlib.Order.Basic

/-!
# Computations that may not return

A computation on a state either returns a value and a new state, or does not return at all. A
postcondition is about the returns: it holds after a computation when every return satisfies it.
That the computation does return is said separately.

## Main definitions

* `Partial σ α`: computations on a state of type `σ`
* `Partial.Post p Q s`: every return of `p` from `s` satisfies `Q`
* `Partial.Returns p Q s`: `p` returns from `s`, with `Q`
* `Partial.Sim R p s q t`: `q` returns from `t` whenever `p` returns from `s`

## Main results

* `Partial.Post.bind`, `Partial.Returns.bind`: sequencing
* `Partial.Keeps.bind`: a preorder on states that both parts follow is followed by the sequence
* `Partial.Sim.bind`: a simulation of the parts is one of the sequence
-/

namespace Program

universe u

/-- A computation on a state of type `σ` that may not return. -/
abbrev Partial (σ : Type u) := StateT σ Option

namespace Partial

variable {σ : Type u} {α β : Type u}

/-- The computation that does not return. -/
def diverge : Partial σ α := fun _ => none

/-- Every return of the computation from `s` satisfies `Q`. -/
def Post (p : Partial σ α) (Q : α → σ → Prop) (s : σ) : Prop :=
  ∀ a s', p.run s = some (a, s') → Q a s'

namespace Post

variable {s : σ}

theorem ret {a : α} {Q : α → σ → Prop} (h : Q a s) : Post (pure a) Q s := by
  intro b s' hrun
  cases hrun
  exact h

theorem diverge {Q : α → σ → Prop} : Post Partial.diverge Q s := by
  intro a s' hrun
  cases hrun

/-- **Sequencing**: the first computation may return wherever the second satisfies `Q`. -/
theorem bind {p : Partial σ α} {f : α → Partial σ β} {Q : β → σ → Prop}
    (h : Post p (fun a => Post (f a) Q) s) : Post (p >>= f) Q s := by
  intro b s' hrun
  rw [StateT.run_bind] at hrun
  obtain ⟨⟨a, t⟩, hp, hf⟩ := Option.bind_eq_some_iff.mp hrun
  exact h a t hp b s' hf

/-- A computation that must not return does not. -/
theorem run_eq_none {p : Partial σ α} (h : Post p (fun _ _ => False) s) : p.run s = none :=
  Option.eq_none_iff_forall_ne_some.mpr fun r hr => h r.1 r.2 hr

theorem mono {p : Partial σ α} {Q Q' : α → σ → Prop} (h : Post p Q s)
    (hQ : ∀ a t, Q a t → Q' a t) : Post p Q' s :=
  fun a s' hrun => hQ a s' (h a s' hrun)

theorem ite {c : Prop} [Decidable c] {p q : Partial σ α} {Q : α → σ → Prop}
    (hp : c → Post p Q s) (hq : ¬ c → Post q Q s) : Post (if c then p else q) Q s := by
  split
  · exact hp ‹_›
  · exact hq ‹_›

end Post

/-- The computation returns from `s`, and the return satisfies `Q`. -/
def Returns (p : Partial σ α) (Q : α → σ → Prop) (s : σ) : Prop :=
  ∃ a s', p.run s = some (a, s') ∧ Q a s'

namespace Returns

variable {s : σ}

theorem ret {a : α} {Q : α → σ → Prop} (h : Q a s) : Returns (pure a) Q s := ⟨a, s, rfl, h⟩

/-- **Sequencing**: the first computation returns where the second returns with `Q`. -/
theorem bind {p : Partial σ α} {f : α → Partial σ β} {Q : β → σ → Prop}
    (h : Returns p (fun a => Returns (f a) Q) s) : Returns (p >>= f) Q s := by
  obtain ⟨a, t, hp, b, s', hf, hQ⟩ := h
  refine ⟨b, s', ?_, hQ⟩
  rw [StateT.run_bind, hp]
  exact hf

theorem mono {p : Partial σ α} {Q Q' : α → σ → Prop} (h : Returns p Q s)
    (hQ : ∀ a t, Q a t → Q' a t) : Returns p Q' s := by
  obtain ⟨a, s', hrun, ha⟩ := h
  exact ⟨a, s', hrun, hQ a s' ha⟩

theorem ite {c : Prop} [Decidable c] {p q : Partial σ α} {Q : α → σ → Prop}
    (hp : c → Returns p Q s) (hq : ¬ c → Returns q Q s) : Returns (if c then p else q) Q s := by
  split
  · exact hp ‹_›
  · exact hq ‹_›

/-- A computation returns in one way at most. -/
theorem post {p : Partial σ α} {Q : α → σ → Prop} (h : Returns p Q s) : Post p Q s := by
  obtain ⟨a, s', hrun, ha⟩ := h
  intro b t hrun'
  obtain ⟨rfl, rfl⟩ := Prod.mk.inj (Option.some.inj (hrun.symm.trans hrun'))
  exact ha

/-- What holds after every return holds after the return there is. -/
theorem and_post {p : Partial σ α} {Q Q' : α → σ → Prop} (h : Returns p Q s) (h' : Post p Q' s) :
    Returns p (fun a t => Q a t ∧ Q' a t) s := by
  obtain ⟨a, s', hrun, ha⟩ := h
  exact ⟨a, s', hrun, ha, h' a s' hrun⟩

end Returns

/-- Every return of the computation is related to the state it started in. -/
def Keeps (R : σ → σ → Prop) (p : Partial σ α) : Prop :=
  ∀ s, Post p (fun _ s' => R s s') s

namespace Keeps

variable {R : σ → σ → Prop}

theorem ret [Std.Refl R] (a : α) : Keeps R (pure a : Partial σ α) :=
  fun s => .ret (refl_of R s)

theorem bind [IsTrans σ R] {p : Partial σ α} {f : α → Partial σ β} (hp : Keeps R p)
    (hf : ∀ a, Keeps R (f a)) : Keeps R (p >>= f) :=
  fun s => .bind <| (hp s).mono fun a t hst => (hf a t).mono fun _ _ htu => trans_of R hst htu

theorem ite {c : Prop} [Decidable c] {p q : Partial σ α} (hp : Keeps R p) (hq : Keeps R q) :
    Keeps R (if c then p else q) :=
  fun s => .ite (fun _ => hp s) fun _ => hq s

end Keeps

/-- **Simulation**: whenever `p` returns from `s`, `q` returns from `t`, with a related return. -/
def Sim {τ : Type u} (R : α → σ → β → τ → Prop) (p : Partial σ α) (s : σ) (q : Partial τ β)
    (t : τ) : Prop :=
  Post p (fun a s' => Returns q (R a s') t) s

namespace Sim

variable {τ γ δ : Type u} {s : σ} {t : τ} {R : α → σ → β → τ → Prop}

theorem ret {a : α} {b : β} (h : R a s b t) : Sim R (pure a) s (pure b) t := Post.ret (.ret h)

theorem diverge {q : Partial τ β} : Sim R (Partial.diverge : Partial σ α) s q t := Post.diverge

/-- **Sequencing**: what comes next is simulated from every two related returns. -/
theorem bind {p : Partial σ α} {q : Partial τ β} {f : α → Partial σ γ} {g : β → Partial τ δ}
    {R' : γ → σ → δ → τ → Prop} (h : Sim R p s q t)
    (hf : ∀ a s' b t', R a s' b t' → Sim R' (f a) s' (g b) t') :
    Sim R' (p >>= f) s (q >>= g) t := by
  refine Post.bind <| Post.mono h ?_
  rintro a s' ⟨b, t', hrun, hR⟩
  exact Post.mono (hf a s' b t' hR) fun c u hc => .bind ⟨b, t', hrun, hc⟩

/-- The simulating computation may go on after the simulated one has returned. -/
theorem bind_right {p : Partial σ α} {q : Partial τ β} {g : β → Partial τ δ}
    {R' : α → σ → δ → τ → Prop} (h : Sim R p s q t)
    (hg : ∀ a s' b t', R a s' b t' → Returns (g b) (R' a s') t') : Sim R' p s (q >>= g) t := by
  refine Post.mono h ?_
  rintro a s' ⟨b, t', hrun, hR⟩
  exact .bind ⟨b, t', hrun, hg a s' b t' hR⟩

/-- What holds after every return of the simulating computation. -/
theorem and_post {p : Partial σ α} {q : Partial τ β} {Q : β → τ → Prop} (h : Sim R p s q t)
    (hQ : Post q Q t) : Sim (fun a s' b t' => R a s' b t' ∧ Q b t') p s q t :=
  Post.mono h fun _ _ hq => hq.and_post hQ

theorem ite {c : Prop} [Decidable c] {p p' : Partial σ α} {q q' : Partial τ β}
    (h : c → Sim R p s q t) (h' : ¬ c → Sim R p' s q' t) :
    Sim R (if c then p else p') s (if c then q else q') t := by
  split
  · exact h ‹_›
  · exact h' ‹_›

end Sim

end Partial

end Program
