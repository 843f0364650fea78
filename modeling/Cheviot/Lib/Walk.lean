import Mathlib.Combinatorics.Pigeonhole
import Mathlib.Data.Finset.Card
import Mathlib.Logic.Function.Iterate

/-!
# Walks and where they end

A walk goes on from a place to the next one for as long as the places are good. It ends
within `n` steps, or it comes around: it stands at a good place for a second time.

* `EndsWithin`, `ComesAround` — the two.
* `Reaches` — the walk comes to a place of a kind, over good ones.
* `endsWithin_iff` — with `n` good places or fewer to go to, it is one or the other.
* `marks_endsWithin` — a walk that marks the places behind it ends, where a mark ends it.
-/

namespace Cheviot.Walk

open Function

variable {α σ : Type} {f : α → α} {P : α → Prop} {x : α} {n m : Nat}

/-- One of the first `n` steps from `x` leads to a place that is not good, or `x` is none. -/
def EndsWithin (f : α → α) (P : α → Prop) (n : Nat) (x : α) : Prop :=
  ∃ k, k ≤ n ∧ ¬ P (f^[k] x)

/-- The walk from `x` comes to the same place twice, and the places up to there are good. -/
def ComesAround (f : α → α) (P : α → Prop) (x : α) : Prop :=
  ∃ j k, j < k ∧ f^[j] x = f^[k] x ∧ ∀ m, m < k → P (f^[m] x)

/-- The walk from `x` comes to a place in `Q`, and the places up to there are good. -/
def Reaches (f : α → α) (P Q : α → Prop) (x : α) : Prop :=
  ∃ n, (∀ m, m < n → P (f^[m] x)) ∧ Q (f^[n] x)

theorem EndsWithin.of_not (h : ¬ P x) (n : Nat) : EndsWithin f P n x :=
  ⟨0, Nat.zero_le n, h⟩

/-- A good place to begin with is one step of the walk. -/
theorem endsWithin_succ (h : P x) : EndsWithin f P (n + 1) x ↔ EndsWithin f P n (f x) := by
  constructor
  · intro hends
    obtain ⟨k, hk, hend⟩ := hends
    cases k with
    | zero => exact absurd h hend
    | succ k => exact ⟨k, Nat.le_of_succ_le_succ hk, hend⟩
  · intro hends
    obtain ⟨k, hk, hend⟩ := hends
    exact ⟨k + 1, Nat.succ_le_succ hk, hend⟩

theorem not_endsWithin_zero (h : P x) : ¬ EndsWithin f P 0 x := by
  intro hends
  obtain ⟨k, hk, hend⟩ := hends
  rw [Nat.le_zero.mp hk] at hend
  exact hend h

/-- A walk stays where every step from a good place leads to one. -/
theorem not_endsWithin_of_inv {I : α → Prop} (hI : ∀ x, I x → P x ∧ I (f x)) (h : I x) (n : Nat) :
    ¬ EndsWithin f P n x := by
  have hall : ∀ k, I (f^[k] x) := by
    intro k
    induction k with
    | zero => exact h
    | succ k ih =>
      rw [iterate_succ_apply']
      exact (hI _ ih).2
  intro hends
  obtain ⟨k, -, hend⟩ := hends
  exact hend (hI _ (hall k)).1

/-! ## Reaching a place -/

section Reaches

variable {Q R : α → Prop}

theorem Reaches.of (h : Q x) : Reaches f P Q x :=
  ⟨0, fun _ hm => absurd hm (Nat.not_lt_zero _), h⟩

/-- A good place in front. -/
theorem Reaches.step (h : P x) (hrest : Reaches f P Q (f x)) : Reaches f P Q x := by
  obtain ⟨n, hgood, hend⟩ := hrest
  refine ⟨n + 1, fun m hm => ?_, hend⟩
  cases m with
  | zero => exact h
  | succ m => exact hgood m (Nat.lt_of_succ_lt_succ hm)

theorem Reaches.mono (h : Reaches f P Q x) (hQ : ∀ y, Q y → R y) : Reaches f P R x := by
  obtain ⟨n, hgood, hend⟩ := h
  exact ⟨n, hgood, hQ _ hend⟩

end Reaches

/-- Two of `n` numbers that a map sends to fewer than `n` places go to the same one. -/
theorem exists_lt_eq {S : Finset α} {g : Nat → α} (hcard : S.card < n)
    (hmaps : ∀ k, k < n → g k ∈ S) : ∃ j k, j < k ∧ k < n ∧ g j = g k := by
  classical
  obtain ⟨a, ha, b, hb, hne, heq⟩ := Finset.exists_ne_map_eq_of_card_lt_of_maps_to
    (show S.card < (Finset.range n).card by rwa [Finset.card_range])
    (fun k hk => hmaps k (Finset.mem_range.mp hk))
  rw [Finset.mem_range] at ha hb
  rcases Nat.lt_or_gt_of_ne hne with hlt | hlt
  · exact ⟨a, b, hlt, hb, heq⟩
  · exact ⟨b, a, hlt, ha, heq.symm⟩

/-! ## A walk that comes around -/

/-- The places of a walk that comes around are those up to there. -/
theorem ComesAround.good (h : ComesAround f P x) (m : Nat) : P (f^[m] x) := by
  obtain ⟨j, k, hjk, heq, hgood⟩ := h
  have hback : ∃ i, i < k ∧ f^[m] x = f^[i] x := by
    induction m with
    | zero => exact ⟨0, Nat.zero_lt_of_lt hjk, rfl⟩
    | succ m ih =>
      obtain ⟨i, hi, him⟩ := ih
      rw [iterate_succ_apply', him, ← iterate_succ_apply' f i x]
      by_cases hlast : i + 1 = k
      · subst hlast
        exact ⟨j, hjk, heq.symm⟩
      · exact ⟨i + 1, by omega, rfl⟩
  obtain ⟨i, hi, him⟩ := hback
  rw [him]
  exact hgood i hi

/-- Where there are no more than `n` good places to come to, a walk ends within `n` steps
exactly if it does not come around. -/
theorem endsWithin_iff {S : Finset α} (hS : ∀ k, P (f^[k] x) → f^[k] x ∈ S) (hcard : S.card ≤ n) :
    EndsWithin f P n x ↔ ¬ ComesAround f P x := by
  constructor
  · intro hends haround
    obtain ⟨k, -, hend⟩ := hends
    exact hend (haround.good k)
  · intro hnot
    by_contra hstays
    have hgood : ∀ k, k < n + 1 → P (f^[k] x) := by
      intro k hk
      by_contra hend
      exact hstays ⟨k, Nat.le_of_lt_succ hk, hend⟩
    obtain ⟨j, k, hjk, hk, heq⟩ := exists_lt_eq (Nat.lt_succ_of_le hcard)
      fun k hk => hS k (hgood k hk)
    exact hnot ⟨j, k, hjk, heq, fun m hm => hgood m (by omega)⟩

/-! ## A walk that marks -/

/-- A walk that closes each place as it leaves it (`C`), where a closed place stays closed and
leads to no good one: it ends after the places there are, with the one it begins at and the
one it comes back to. -/
theorem marks_endsWithin {mark : σ → α → σ} {next : σ → α → α} {C : σ → α → Prop}
    {S : Finset α} (hmark : ∀ s c, C (mark s c) c)
    (hkeep : ∀ s c d, C s c → C (mark s d) c)
    (hclosed : ∀ s c, C s c → ¬ P (next s c)) (hS : ∀ s c, P (next s c) → next s c ∈ S)
    (hcard : S.card + 2 ≤ n) (s : σ) (c : α) :
    EndsWithin (fun w : σ × α => (mark w.1 w.2, next w.1 w.2)) (fun w => P w.2) n (s, c) := by
  set step := fun w : σ × α => (mark w.1 w.2, next w.1 w.2) with hstep
  have hnext : ∀ k, step^[k + 1] (s, c) =
      (mark (step^[k] (s, c)).1 (step^[k] (s, c)).2,
        next (step^[k] (s, c)).1 (step^[k] (s, c)).2) :=
    fun k => iterate_succ_apply' step k (s, c)
  by_contra hstays
  have hgood : ∀ k, k ≤ n → P (step^[k] (s, c)).2 := by
    intro k hk
    by_contra hend
    exact hstays ⟨k, hk, hend⟩
  obtain ⟨j, k, hjk, hk, heq⟩ := exists_lt_eq (g := fun k => (step^[k + 1] (s, c)).2)
    (Nat.lt_succ_self S.card) (by
      intro k hk
      have hg := hgood (k + 1) (by omega)
      rw [hnext k] at hg
      rw [hnext k]
      exact hS _ _ hg)
  -- the place has been closed when the walk was there first, and it has been since
  have hsince : ∀ i, C (step^[j + 2 + i] (s, c)).1 (step^[j + 1] (s, c)).2 := by
    intro i
    induction i with
    | zero =>
      rw [Nat.add_zero, hnext (j + 1)]
      exact hmark _ _
    | succ i ih =>
      rw [← Nat.add_assoc, hnext (j + 2 + i)]
      exact hkeep _ _ _ ih
  have hthen := hsince (k - (j + 1))
  rw [show j + 2 + (k - (j + 1)) = k + 1 by omega, show (step^[j + 1] (s, c)).2 =
    (step^[k + 1] (s, c)).2 from heq] at hthen
  have hend := hclosed _ _ hthen
  have hg := hgood (k + 2) (by omega)
  rw [hnext (k + 1)] at hg
  exact hend hg

end Cheviot.Walk
