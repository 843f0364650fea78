import Mathlib.Data.List.Infix

/-!
# Listings in pages

A list is handed out in pages: each call gives a part of what is left, and nothing only when
nothing is left.

* `Lists` — some pages list something, as far as they go.
* `Lists.cons` — one more call in front of them.
* `Lists.reaches_end` — with more pages than entries, they list all of it.
-/

namespace Cheviot.Pages

variable {ε : Type}

/-- The pages list `live`: there is something in each of them up to the end and nothing from
then on, and one behind the other they are `live`, or a beginning of it. -/
structure Lists (live : List ε) (pages : List (List ε)) : Prop where
  front : ∃ front back, pages = front ++ back ∧ (∀ p ∈ front, p ≠ []) ∧ ∀ p ∈ back, p = []
  part : pages.flatten <+: live
  ended : [] ∈ pages → pages.flatten = live

theorem Lists.nil (live : List ε) : Lists live [] where
  front := ⟨[], [], rfl, fun _ h => (nomatch h), fun _ h => (nomatch h)⟩
  part := List.nil_prefix
  ended := fun h => nomatch h

/-- A page that takes some of what is left, or finds that nothing is. -/
theorem Lists.cons {taken rest : List ε} {pages : List (List ε)} (h : Lists rest pages)
    (hstop : taken = [] → rest = []) : Lists (taken ++ rest) (taken :: pages) := by
  by_cases hnil : taken = []
  · -- nothing is left for the other pages either
    obtain rfl := hnil
    obtain rfl := hstop rfl
    have hnone := List.prefix_nil.mp h.part
    refine ⟨⟨[], [] :: pages, rfl, fun _ hp => (nomatch hp), fun p hp => ?_⟩, ?_, fun _ => hnone⟩
    · rcases List.mem_cons.mp hp with rfl | hp
      · rfl
      · exact List.flatten_eq_nil_iff.mp hnone p hp
    · exact h.part
  · obtain ⟨front, back, rfl, hfront, hback⟩ := h.front
    refine ⟨⟨taken :: front, back, rfl, fun p hp => ?_, hback⟩, ?_, fun hmem => ?_⟩
    · rcases List.mem_cons.mp hp with rfl | hp
      · exact hnil
      · exact hfront p hp
    · rw [List.flatten_cons]
      exact (List.prefix_append_right_inj taken).mpr h.part
    · rw [List.flatten_cons, h.ended ((List.mem_cons.mp hmem).resolve_left (Ne.symm hnil))]

/-- Pages with something in each are no more than their entries. -/
theorem length_le_flatten {pages : List (List ε)} (h : ∀ p ∈ pages, p ≠ []) :
    pages.length ≤ pages.flatten.length := by
  induction pages with
  | nil => exact Nat.le_refl 0
  | cons p pages ih =>
    have hp := List.length_pos_of_ne_nil (h p (List.mem_cons_self ..))
    have hrest := ih fun q hq => h q (List.mem_cons_of_mem _ hq)
    rw [List.flatten_cons, List.length_append, List.length_cons]
    omega

/-- With more pages than entries the end is reached. -/
theorem Lists.reaches_end {live : List ε} {pages : List (List ε)} (h : Lists live pages)
    (hlen : live.length < pages.length) : [] ∈ pages := by
  by_contra hnot
  have hsome := length_le_flatten fun p hp heq => hnot (heq ▸ hp)
  have hle := h.part.length_le
  omega

end Cheviot.Pages
