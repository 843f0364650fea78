import Mathlib.Init

/-!
# Computations that may fail: partial correctness

`Ends x P` says that `P` holds of the value of `x`, should `x` have one. `Follows
x y P` says besides that `y` then has the same value: the two may differ only
where `x` fails. Both go step by step along a sequence.

* `Ends.bind`, `Follows.bind` — the rule of sequence.
* `Ends.follows`, `Follows.ends` — a computation follows itself.
-/

namespace Cheviot.Run

variable {ε α β : Type}

/-- Whatever value `x` ends with satisfies `P`. -/
def Ends (x : Except ε α) (P : α → Prop) : Prop := ∀ a, x = .ok a → P a

/-- Whatever value `x` ends with, `y` ends with it too, and it satisfies `P`. -/
def Follows (x y : Except ε α) (P : α → Prop) : Prop := ∀ a, x = .ok a → y = .ok a ∧ P a

/-- A value that a computation ends with is one that it ends with. -/
theorem Ends.self (x : Except ε α) : Ends x fun a => x = .ok a := fun _ h => h

theorem Ends.ok {P : α → Prop} {a : α} (h : P a) : Ends (.ok a : Except ε α) P := by
  intro b hb
  cases hb
  exact h

theorem Ends.pure {P : α → Prop} {a : α} (h : P a) : Ends (pure a : Except ε α) P := Ends.ok h

theorem Ends.error {P : α → Prop} (e : ε) : Ends (.error e : Except ε α) P :=
  fun _ h => (nomatch h)

theorem Ends.mono {x : Except ε α} {P Q : α → Prop} (h : Ends x P) (hpq : ∀ a, P a → Q a) :
    Ends x Q := fun a ha => hpq a (h a ha)

theorem Ends.bind {x : Except ε α} {f : α → Except ε β} {P : α → Prop} {Q : β → Prop}
    (h : Ends x P) (hf : ∀ a, P a → Ends (f a) Q) : Ends (x >>= f) Q := by
  intro b hb
  cases x with
  | error e => cases hb
  | ok a => exact hf a (h a rfl) b hb

theorem Follows.ok {P : α → Prop} {a : α} (h : P a) : Follows (.ok a : Except ε α) (.ok a) P := by
  intro b hb
  cases hb
  exact ⟨rfl, h⟩

theorem Follows.pure {P : α → Prop} {a : α} (h : P a) :
    Follows (pure a : Except ε α) (pure a) P := Follows.ok h

theorem Follows.bind {x y : Except ε α} {f g : α → Except ε β} {P : α → Prop} {Q : β → Prop}
    (h : Follows x y P) (hf : ∀ a, P a → Follows (f a) (g a) Q) :
    Follows (x >>= f) (y >>= g) Q := by
  intro b hb
  cases x with
  | error e => cases hb
  | ok a =>
    obtain ⟨hy, ha⟩ := h a rfl
    rw [hy]
    exact hf a ha b hb

theorem Follows.mono {x y : Except ε α} {P Q : α → Prop} (h : Follows x y P)
    (hpq : ∀ a, P a → Q a) : Follows x y Q := fun a ha => (h a ha).imp id (hpq a)

/-- The value is one that the computation ends with. -/
theorem Follows.self {x y : Except ε α} {P : α → Prop} (h : Follows x y P) :
    Follows x y fun a => x = .ok a ∧ P a := fun a ha => ⟨(h a ha).1, ha, (h a ha).2⟩

/-- A computation follows itself. -/
theorem Ends.follows {x : Except ε α} {P : α → Prop} (h : Ends x P) : Follows x x P :=
  fun a ha => ⟨ha, h a ha⟩

theorem Follows.ends {x y : Except ε α} {P : α → Prop} (h : Follows x y P) : Ends x P :=
  fun a ha => (h a ha).2

end Cheviot.Run
