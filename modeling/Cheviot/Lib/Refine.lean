import Mathlib.Init

/-!
# Refinement of one transition system by another

A system is a relation between a state, what can be seen of a step from it, and
the state after the step.

* `Runs` — what can be seen of a whole run.
* `Simulates` — every step of a system is one of its specification, up to a
  relation between the states of the two.
* `Simulates.run` — so is every run: nothing can be seen of it that the
  specification does not allow.
-/

namespace Cheviot.Refine

variable {σ α ε : Type} {step : σ → ε → σ → Prop} {spec : α → ε → α → Prop} {rep : σ → α → Prop}

/-- From `s₀` the steps lead to a state, and `es` is what can be seen of them. -/
inductive Runs (step : σ → ε → σ → Prop) (s₀ : σ) : List ε → σ → Prop where
  | start : Runs step s₀ [] s₀
  | step {es : List ε} {e : ε} {s s' : σ} (h : Runs step s₀ es s) (hstep : step s e s') :
      Runs step s₀ (es ++ [e]) s'

/-- From related states, a step can be followed by one of the specification of which the same
can be seen. -/
def Simulates (step : σ → ε → σ → Prop) (spec : α → ε → α → Prop) (rep : σ → α → Prop) : Prop :=
  ∀ s a e s', rep s a → step s e s' → ∃ a', spec a e a' ∧ rep s' a'

/-- Nothing can be seen of a run that the specification does not allow. -/
theorem Simulates.run (h : Simulates step spec rep) {s₀ s : σ} {a₀ : α} {es : List ε}
    (h₀ : rep s₀ a₀) (hrun : Runs step s₀ es s) : ∃ a, Runs spec a₀ es a ∧ rep s a := by
  induction hrun with
  | start => exact ⟨a₀, .start, h₀⟩
  | step _ hstep ih =>
    obtain ⟨a, hspec, hrep⟩ := ih
    obtain ⟨a', hnext, hrep'⟩ := h _ a _ _ hrep hstep
    exact ⟨a', hspec.step hnext, hrep'⟩

end Cheviot.Refine
