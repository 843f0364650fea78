import Mathlib.Algebra.BigOperators.Group.Finset.Basic
import Mathlib.Algebra.Order.BigOperators.Group.Finset

/-!
# Scans of a ring

The numbers below `n`, one behind the other and round, from a start: the first that has
a property, and the best of those that have it.

* `CyclicFirst` — the first in cyclic order from a start.
* `cyclicFirst_iff` — what a scan from 0 finds, as seen from another start.
* `Best` — the best of what a scan has seen so far, with one lemma for each step.
* `exists_ge_average` — some number is not below the average.
-/

namespace Cheviot.Scan

/-! ## The first -/

section First

variable {p : Nat → Prop} {n start g : Nat}

/-- `g` has `p`, and none of the numbers from `start` round to `g` has. -/
def CyclicFirst (p : Nat → Prop) (n start g : Nat) : Prop :=
  ∃ k, k < n ∧ g = (start + k) % n ∧ p g ∧ ∀ j, j < k → ¬ p ((start + j) % n)

/-- Once round, every number comes up. -/
theorem exists_cyclic (hg : g < n) (start : Nat) : ∃ k, k < n ∧ (start + k) % n = g := by
  have hn : 0 < n := Nat.zero_lt_of_lt hg
  have hlt : start % n < n := Nat.mod_lt start hn
  refine ⟨(g + (n - start % n)) % n, Nat.mod_lt _ hn, ?_⟩
  have hround : start % n + (g + (n - start % n)) = g + n := by omega
  rw [Nat.add_mod_mod, ← Nat.mod_add_mod, hround, Nat.add_mod_right, Nat.mod_eq_of_lt hg]

/-- The first from 0 on is the first from `start` on if and only if one of the two parts
of the ring has none. -/
theorem cyclicFirst_iff (hstart : start < n) (hg : g < n) (hp : p g)
    (hfirst : ∀ h, h < g → ¬ p h) :
    CyclicFirst p n start g ↔
      (∀ h, h < start → ¬ p h) ∨ ∀ h, start ≤ h → h < n → ¬ p h := by
  constructor
  · rintro ⟨k, hk, hgk, -, hnone⟩
    by_cases hwrap : start + k < n
    · left
      intro h hh
      rw [Nat.mod_eq_of_lt hwrap] at hgk
      exact hfirst h (by omega)
    · -- the scan has passed the end of the ring
      right
      intro h hlo hhi
      have hnot := hnone (h - start) (by omega)
      rwa [show start + (h - start) = h from by omega, Nat.mod_eq_of_lt hhi] at hnot
  · rintro (hbelow | habove)
    · have hle : start ≤ g := Nat.le_of_not_lt fun hlt => hbelow g hlt hp
      refine ⟨g - start, by omega, ?_, hp, ?_⟩
      · rw [show start + (g - start) = g from by omega, Nat.mod_eq_of_lt hg]
      · intro j hj
        rw [Nat.mod_eq_of_lt (by omega)]
        exact hfirst _ (by omega)
    · have hlt : g < start := Nat.lt_of_not_le fun hle => habove g hle hg hp
      refine ⟨n - start + g, by omega, ?_, hp, ?_⟩
      · rw [show start + (n - start + g) = g + n from by omega, Nat.add_mod_right,
          Nat.mod_eq_of_lt hg]
      · intro j hj
        by_cases hwrap : start + j < n
        · rw [Nat.mod_eq_of_lt hwrap]
          exact habove _ (by omega) hwrap
        · rw [Nat.mod_eq_sub_mod (by omega), Nat.mod_eq_of_lt (by omega)]
          exact hfirst _ (by omega)

end First

/-! ## The best -/

section Best

variable {α : Type} {seen seen' p : α → Prop} {key : α → Nat} {b x : α} {r : Option α}

/-- `r` has the largest key of what was seen and has `p`; `none` if there is no such thing. -/
def Best (seen p : α → Prop) (key : α → Nat) : Option α → Prop
  | none => ∀ x, seen x → ¬ p x
  | some b => (seen b ∧ p b) ∧ ∀ x, seen x → p x → key x ≤ key b

theorem Best.congr (h : Best seen p key r) (hseen : ∀ x, seen' x ↔ seen x) :
    Best seen' p key r := by
  rwa [show seen' = seen from funext fun x => propext (hseen x)]

/-- Something without `p` comes up. -/
theorem Best.skip (h : Best seen p key r) (hx : ¬ p x) :
    Best (fun y => seen y ∨ y = x) p key r := by
  cases r with
  | none =>
    rintro y (hy | rfl)
    · exact h y hy
    · exact hx
  | some b =>
    refine ⟨⟨.inl h.1.1, h.1.2⟩, ?_⟩
    rintro y (hy | rfl) hpy
    · exact h.2 y hy hpy
    · exact absurd hpy hx

/-- The first thing with `p` comes up. -/
theorem Best.start (h : Best seen p key none) (hx : p x) :
    Best (fun y => seen y ∨ y = x) p key (some x) := by
  refine ⟨⟨.inr rfl, hx⟩, ?_⟩
  rintro y (hy | rfl) hpy
  · exact absurd hpy (h y hy)
  · exact Nat.le_refl _

/-- Something better comes up. -/
theorem Best.better (h : Best seen p key (some b)) (hx : p x) (hlt : key b < key x) :
    Best (fun y => seen y ∨ y = x) p key (some x) := by
  refine ⟨⟨.inr rfl, hx⟩, ?_⟩
  rintro y (hy | rfl) hpy
  · exact Nat.le_trans (h.2 y hy hpy) (Nat.le_of_lt hlt)
  · exact Nat.le_refl _

/-- Something comes up that is no better. -/
theorem Best.worse (h : Best seen p key (some b)) (hle : key x ≤ key b) :
    Best (fun y => seen y ∨ y = x) p key (some b) := by
  refine ⟨⟨.inl h.1.1, h.1.2⟩, ?_⟩
  rintro y (hy | rfl) hpy
  · exact h.2 y hy hpy
  · exact hle

end Best

/-! ## The average -/

open Finset in
/-- If not all are 0, then one that is not 0 reaches the average. -/
theorem exists_ge_average {n : Nat} {f : Nat → Nat} (hne : ∃ g, g < n ∧ f g ≠ 0) :
    ∃ g, g < n ∧ f g ≠ 0 ∧ (∑ h ∈ range n, f h) / n ≤ f g := by
  obtain ⟨g, hg, hfg⟩ := hne
  by_contra hnone
  have hlt : ∀ h, h < n → f h ≠ 0 → f h < (∑ h ∈ range n, f h) / n :=
    fun h hh h0 => Nat.lt_of_not_le fun hle => hnone ⟨h, hh, h0, hle⟩
  have hpos : 0 < (∑ h ∈ range n, f h) / n := Nat.zero_lt_of_lt (hlt g hg hfg)
  have hsum : ∑ h ∈ range n, f h < ∑ _h ∈ range n, (∑ h ∈ range n, f h) / n := by
    apply sum_lt_sum_of_nonempty ⟨g, mem_range.mpr hg⟩
    intro h hh
    by_cases h0 : f h = 0
    · rw [h0]
      exact hpos
    · exact hlt h (mem_range.mp hh) h0
  rw [sum_const_nat fun _ _ => rfl, card_range] at hsum
  exact absurd (Nat.mul_div_le (∑ h ∈ range n, f h) n) (Nat.not_le_of_lt hsum)

end Cheviot.Scan
