import Mathlib.Data.List.Pairwise
import Mathlib.Data.Nat.Notation
import Mathlib.Logic.Relation

/-!
# A relay

A relay takes messages off a line, in the order in which they arrive there. It refuses a message,
or holds it, and sooner or later releases everything that it holds. Whatever the order of its
steps, the messages stay in the order of their arrival.

## Main definitions

* `Relay α`: the messages on the line, held, and released
* `Relay.trail`: all messages, those that have gone furthest first
* `Relay.Act`, `Relay.Step`: what a relay may do, and the step that does it
* `Relay.Runs`: the runs

## Main results

* `Relay.Runs.pairwise`: the messages stay in the order of their arrival
* `Relay.Runs.released_prefix`: a release is final
-/

namespace Program

universe u

/-- The messages of a relay. -/
structure Relay (α : Type u) where
  incoming : List α
  held : List α
  released : List α

namespace Relay

variable {α : Type u}

/-- All messages, those that have gone furthest first. -/
def trail (r : Relay α) : List α := r.released ++ r.held ++ r.incoming

/-- Everything that is held is released. -/
def release (r : Relay α) : Relay α :=
  { r with held := [], released := r.released ++ r.held }

@[simp] theorem trail_release (r : Relay α) : r.release.trail = r.trail := by
  simp [trail, release]

/-- What a relay may do. -/
inductive Act (α : Type u)
  | send (x : α)
  | hold (x : α)
  | refuse (x : α)
  | release
  | rest

variable [LT α]

/-- A step of a relay. A message that is sent comes after all others, and the first message on the
line is the next one to be held or refused. -/
inductive Step (r : Relay α) : Act α → Relay α → Prop
  | send {x : α} : (∀ y ∈ r.trail, y < x) →
      Step r (.send x) { r with incoming := r.incoming ++ [x] }
  | hold {x : α} {xs : List α} : r.incoming = x :: xs →
      Step r (.hold x) { r with incoming := xs, held := r.held ++ [x] }
  | refuse {x : α} {xs : List α} : r.incoming = x :: xs →
      Step r (.refuse x) { r with incoming := xs }
  | release : Step r .release r.release
  | rest : Step r .rest r

/-- The runs of a relay. -/
def Runs : Relay α → Relay α → Prop := Relation.ReflTransGen fun r r' => ∃ a, Step r a r'

variable {r r' : Relay α} {a : Act α}

/-- What a step does to the trail: a message that comes after all others is added at the end, or
messages are left out. -/
theorem Step.trail (h : Step r a r') :
    (∃ x, (∀ y ∈ r.trail, y < x) ∧ r'.trail = r.trail ++ [x]) ∨
      List.Sublist r'.trail r.trail := by
  cases h with
  | @send x hx => exact .inl ⟨x, hx, by simp [Relay.trail]⟩
  | @hold x xs he => exact .inr (by simp [Relay.trail, he])
  | @refuse x xs he =>
    refine .inr ?_
    simp only [Relay.trail, he]
    exact (List.Sublist.refl _).append (List.sublist_cons_self x xs)
  | release => exact .inr (by simp)
  | rest => exact .inr (.refl _)

/-- **The messages stay in the order of their arrival.** -/
theorem Runs.pairwise (h : Runs r r') (hr : r.trail.Pairwise (· < ·)) :
    r'.trail.Pairwise (· < ·) := by
  induction h with
  | refl => exact hr
  | tail _ hstep ih =>
    obtain ⟨a, hstep⟩ := hstep
    rcases hstep.trail with ⟨x, hx, he⟩ | hsub
    · rw [he, List.pairwise_append]
      refine ⟨ih, List.pairwise_singleton _ _, fun y hy z hz => ?_⟩
      rw [List.mem_singleton.mp hz]
      exact hx y hy
    · exact ih.sublist hsub

/-- **A release is final**: what has been released stays, in its order, in front of what is released
later. -/
theorem Runs.released_prefix (h : Runs r r') : r.released <+: r'.released := by
  induction h with
  | refl => exact List.prefix_rfl
  | tail _ hstep ih =>
    obtain ⟨a, hstep⟩ := hstep
    cases hstep with
    | release => exact ih.trans (List.prefix_append _ _)
    | send _ => exact ih
    | hold _ => exact ih
    | refuse _ => exact ih
    | rest => exact ih

end Relay

end Program
