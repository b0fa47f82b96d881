import MachDebug.Program.Partial
import Mathlib.Logic.Relation

/-!
# Loops

A loop repeats its body, which goes on with new loop variables or breaks with a result. Fuel bounds
the number of iterations: a loop that uses it up does not return. A loop makes progress when a
measure of its variables grows in every iteration that goes on, up to a bound; then it returns, and
the bound says how much fuel that takes. A loop whose body always goes on does not return.

## Main definitions

* `Partial.loop body fuel a`: the loop from the variables `a`
* `Partial.Next body p q`: an iteration that goes on, from one loop head to the next
* `Partial.Reached body p q`: the loop head `q` is reached from `p`
* `Partial.Progresses body μ bound a s`: the loop returns, and every iteration makes progress

## Main results

* `Partial.Reached.inv`: an invariant of the body holds at every loop head
* `Partial.loop_post`: what holds after a break holds after the loop
* `Partial.loop_returns`: a loop that makes progress returns
-/

namespace Program

universe u

namespace Partial

variable {σ α β : Type u}

/-- The loop from the variables `a`: the body goes on with new variables, or breaks with a
result. -/
def loop (body : α → Partial σ (α ⊕ β)) : ℕ → α → Partial σ β
  | 0, _ => diverge
  | fuel + 1, a => body a >>= Sum.elim (loop body fuel) pure

/-- An iteration that goes on. A loop head is the variables and the state there. -/
def Next (body : α → Partial σ (α ⊕ β)) (p q : α × σ) : Prop :=
  (body p.1).run p.2 = some (.inl q.1, q.2)

/-- The loop heads that are reached. -/
abbrev Reached (body : α → Partial σ (α ⊕ β)) : α × σ → α × σ → Prop :=
  Relation.ReflTransGen (Next body)

/-- **Progress**: the loop returns, and every iteration that goes on makes the measure larger, up
to the bound. -/
structure Progresses (body : α → Partial σ (α ⊕ β)) (μ : α → ℕ) (bound : ℕ) (a : α) (s : σ) :
    Prop where
  returns : ∃ fuel b s', (loop body fuel a).run s = some (b, s')
  increases : ∀ p q, Reached body (a, s) p → Next body p q → μ p.1 < μ q.1 ∧ μ q.1 ≤ bound

variable {body : α → Partial σ (α ⊕ β)} {I : α → σ → Prop} {μ : α → ℕ} {bound : ℕ}
  {Q : β → σ → Prop} {a : α} {s : σ}

/-- What holds after an iteration that goes on. -/
theorem Next.post {p q : α × σ} (h : Next body p q) {A : α → σ → Prop}
    (hbody : Post (body p.1) (Sum.elim A Q) p.2) : A q.1 q.2 :=
  hbody _ _ h

/-- **An invariant** of the body holds at every loop head that is reached. -/
theorem Reached.inv {p q : α × σ} (h : Reached body p q)
    (hbody : ∀ a s, I a s → Post (body a) (Sum.elim I fun _ _ => True) s) (hp : I p.1 p.2) :
    I q.1 q.2 := by
  induction h with
  | refl => exact hp
  | tail _ hnext ih => exact hnext.post (hbody _ _ ih)

/-- **What holds after a break** holds after the loop. When the body never breaks, the loop does not
return: this is the case that `Q` is never true. -/
theorem loop_post (hbody : ∀ a s, I a s → Post (body a) (Sum.elim I Q) s) (fuel : ℕ)
    (ha : I a s) : Post (loop body fuel a) Q s := by
  induction fuel generalizing a s with
  | zero => exact .diverge
  | succ fuel ih =>
    refine .bind <| (hbody a s ha).mono ?_
    intro r t ht
    cases r with
    | inl a' => exact ih ht
    | inr b => exact .ret ht

/-- **A loop that makes progress returns**, with more fuel than there is left to go. -/
theorem loop_returns (hbody : ∀ a s, I a s → Returns (body a)
      (Sum.elim (fun a' s' => I a' s' ∧ μ a < μ a' ∧ μ a' ≤ bound) Q) s)
    {fuel : ℕ} (hfuel : bound - μ a < fuel) (ha : I a s) : Returns (loop body fuel a) Q s := by
  induction fuel generalizing a s with
  | zero => exact absurd hfuel (Nat.not_lt_zero _)
  | succ fuel ih =>
    refine .bind <| (hbody a s ha).mono ?_
    intro r t ht
    cases r with
    | inl a' =>
      obtain ⟨hI, hlt, hle⟩ := ht
      exact ih (by omega) hI
    | inr b => exact .ret ht

/-- The invariant rule for progress. -/
theorem Progresses.of_inv (hbody : ∀ a s, I a s → Returns (body a)
      (Sum.elim (fun a' s' => I a' s' ∧ μ a < μ a' ∧ μ a' ≤ bound) fun _ _ => True) s)
    (ha : I a s) : Progresses body μ bound a s := by
  refine ⟨⟨bound - μ a + 1, ?_⟩, fun p q hp hq => ?_⟩
  · obtain ⟨b, s', hrun, -⟩ := loop_returns hbody (Nat.lt_succ_self _) ha
    exact ⟨b, s', hrun⟩
  · have hinv : I p.1 p.2 := by
      refine hp.inv (fun a s hI => ?_) ha
      refine (hbody a s hI).post.mono ?_
      intro r t ht
      cases r with
      | inl a' => exact ht.1
      | inr b => trivial
    exact (hq.post (hbody _ _ hinv).post).2

end Partial

end Program
