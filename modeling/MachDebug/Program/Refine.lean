import MachDebug.Program.Partial

/-!
# Simulation of an abstract machine

An abstract machine answers requests one after the other. A computation simulates it when every
request, made in related states, returns the answer of the machine and leaves related states. Then
every sequence of requests is answered as by the machine.

## Main definitions

* `answers step t as`: the answers of the machine to a sequence of requests
* `Partial.Simulates R A step f`: the computation `f` simulates the machine on the requests in `A`

## Main results

* `Partial.Simulates.mapM`: a sequence of requests is answered as by the machine
-/

namespace Program

universe u v w

/-- The answers of a machine to a sequence of requests, and its state after them. -/
def answers {τ : Type v} {α : Type w} {β : Type u} (step : τ → α → β × τ) :
    τ → List α → List β × τ
  | t, [] => ([], t)
  | t, a :: as =>
    ((step t a).1 :: (answers step (step t a).2 as).1, (answers step (step t a).2 as).2)

namespace Partial

variable {σ β : Type u} {τ : Type v} {α : Type w}

/-- The computation answers the requests in `A` as the machine does, in states related by `R`. -/
def Simulates (R : τ → σ → Prop) (A : α → Prop) (step : τ → α → β × τ) (f : α → Partial σ β) :
    Prop :=
  ∀ a, A a → ∀ t s, R t s → Returns (f a) (fun b s' => b = (step t a).1 ∧ R (step t a).2 s') s

/-- **Sequences of requests** are answered as by the machine. -/
theorem Simulates.mapM {R : τ → σ → Prop} {A : α → Prop} {step : τ → α → β × τ}
    {f : α → Partial σ β} (h : Simulates R A step f) (as : List α) (has : ∀ a ∈ as, A a) {t : τ}
    {s : σ} (hR : R t s) :
    Returns (as.mapM f)
      (fun bs s' => bs = (answers step t as).1 ∧ R (answers step t as).2 s') s := by
  induction as generalizing t s with
  | nil =>
    rw [List.mapM_nil]
    exact .ret ⟨rfl, hR⟩
  | cons a as ih =>
    rw [List.mapM_cons]
    refine .bind <| (h a (has a (List.mem_cons_self ..)) t s hR).mono ?_
    rintro b s₁ ⟨rfl, hR₁⟩
    refine .bind <| (ih (fun x hx => has x (List.mem_cons_of_mem _ hx)) hR₁).mono ?_
    rintro bs s₂ ⟨rfl, hR₂⟩
    exact .ret ⟨rfl, hR₂⟩

end Partial

end Program
