import Cheviot.Lib.Bytes
import Mathlib.Data.List.Pairwise

/-!
# Copying the members of a record

A record is copied member by member from one buffer to another, each at its own offset
from a base; the bytes of a member may be turned round on the way. What no member covers
stays as it is.

* `copyAll_member`, `copyAll_other` — what a copy leaves at each place.
* `copyAll_through` — by way of another buffer nothing is turned round.
* `copyAll_copyAll` — there and back again leaves every byte as it was.
* `copyAll_back` — and so does the way round, of what the members cover.
-/

namespace Cheviot.Members

open Cheviot.Bytes

/-- A member: its offset and length, and whether its bytes are turned round. -/
structure Member where
  off : Nat
  len : Nat
  swaps : Bool
  deriving DecidableEq, Repr

/-- Two members do not overlap. -/
def Apart (m k : Member) : Prop := m.off + m.len ≤ k.off ∨ k.off + k.len ≤ m.off

instance (m k : Member) : Decidable (Apart m k) := inferInstanceAs (Decidable (_ ∨ _))

/-- The member `n` further on. -/
def Member.shift (n : Nat) (m : Member) : Member := { m with off := n + m.off }

/-- Where byte `j` of a member comes from. -/
def Member.place (swap : Bool) (m : Member) (j : Nat) : Nat :=
  if swap && m.swaps then m.len - 1 - j else j

/-- One member copied from `src` at `s` to `dest` at `d`. -/
def copy (swap : Bool) (m : Member) (dest : Buf) (d : Nat) (src : Buf) (s : Nat) : Buf := fun x =>
  if d + m.off ≤ x ∧ x < d + m.off + m.len then
    src (s + m.off + m.place swap (x - (d + m.off)))
  else dest x

/-- All members copied, one after the other. -/
def copyAll (swap : Bool) (ms : List Member) (dest : Buf) (d : Nat) (src : Buf) (s : Nat) : Buf :=
  ms.foldl (fun b m => copy swap m b d src s) dest

section Copy

variable {swap : Bool} {m : Member} {ms : List Member} {dest src : Buf} {d s x j : Nat}

theorem place_swaps (swap : Bool) (off len j : Nat) :
    (Member.mk off len true).place swap j = if swap then len - 1 - j else j := by
  rw [Member.place, Bool.and_true]

theorem place_plain (swap : Bool) (off len j : Nat) :
    (Member.mk off len false).place swap j = j := by
  rw [Member.place, Bool.and_false]
  rfl

theorem place_lt (hj : j < m.len) : m.place swap j < m.len := by
  unfold Member.place
  split <;> omega

/-- Turning round twice is nothing. -/
theorem place_place (hj : j < m.len) : m.place swap (m.place swap j) = j := by
  unfold Member.place
  split <;> omega

theorem copy_member (hj : j < m.len) :
    copy swap m dest d src s (d + m.off + j) = src (s + m.off + m.place swap j) := by
  unfold copy
  rw [if_pos ⟨by omega, by omega⟩, Nat.add_sub_cancel_left]

theorem copy_other (hx : ¬ (d + m.off ≤ x ∧ x < d + m.off + m.len)) :
    copy swap m dest d src s x = dest x := if_neg hx

theorem copyAll_cons : copyAll swap (m :: ms) dest d src s =
    copyAll swap ms (copy swap m dest d src s) d src s := rfl

theorem copyAll_append (ms ks : List Member) : copyAll swap (ms ++ ks) dest d src s =
    copyAll swap ks (copyAll swap ms dest d src s) d src s := List.foldl_append

/-- What no member covers stays. -/
theorem copyAll_other (hx : ∀ m ∈ ms, ¬ (d + m.off ≤ x ∧ x < d + m.off + m.len)) :
    copyAll swap ms dest d src s x = dest x := by
  induction ms generalizing dest with
  | nil => rfl
  | cons k ms ih =>
    rw [copyAll_cons, ih fun m hm => hx m (List.mem_cons_of_mem k hm)]
    exact copy_other (hx k List.mem_cons_self)

/-- What a member covers is copied, once. -/
theorem copyAll_member (hms : ms.Pairwise Apart) (hm : m ∈ ms) (hj : j < m.len) :
    copyAll swap ms dest d src s (d + m.off + j) = src (s + m.off + m.place swap j) := by
  induction ms generalizing dest with
  | nil => exact absurd hm List.not_mem_nil
  | cons k ms ih =>
    rw [List.pairwise_cons] at hms
    rw [copyAll_cons]
    rcases List.mem_cons.mp hm with rfl | hm
    · rw [copyAll_other fun k hk => ?_]
      · exact copy_member hj
      · rcases hms.1 k hk with hle | hle <;> omega
    · exact ih hms.2 hm

/-- Members further on are the same members from a base further on. -/
theorem copyAll_shift (n : Nat) : copyAll swap (ms.map (Member.shift n)) dest d src s =
    copyAll swap ms dest (d + n) src (s + n) := by
  unfold copyAll
  rw [List.foldl_map]
  congr 1
  funext b m
  funext x
  show (if d + (n + m.off) ≤ x ∧ x < d + (n + m.off) + m.len then
    src (s + (n + m.off) + m.place swap (x - (d + (n + m.off)))) else b x) = _
  rw [← Nat.add_assoc d, ← Nat.add_assoc s]
  rfl

theorem place_false : m.place false j = j := rfl

/-- By way of another buffer the members arrive as they were. -/
theorem copyAll_through (hms : ms.Pairwise Apart) (dest mem src : Buf) (d t s : Nat) :
    copyAll swap ms dest d (copyAll swap ms mem t src s) t = copyAll false ms dest d src s := by
  funext x
  by_cases hx : ∃ m ∈ ms, d + m.off ≤ x ∧ x < d + m.off + m.len
  · obtain ⟨m, hm, hlo, hhi⟩ := hx
    obtain ⟨j, rfl⟩ : ∃ j, x = d + m.off + j := ⟨x - (d + m.off), by omega⟩
    have hj : j < m.len := by omega
    calc copyAll swap ms dest d (copyAll swap ms mem t src s) t (d + m.off + j)
        = copyAll swap ms mem t src s (t + m.off + m.place swap j) := copyAll_member hms hm hj
      _ = src (s + m.off + m.place swap (m.place swap j)) := copyAll_member hms hm (place_lt hj)
      _ = src (s + m.off + m.place false j) := by rw [place_place hj, place_false]
      _ = copyAll false ms dest d src s (d + m.off + j) := (copyAll_member hms hm hj).symm
  · -- a byte of no member, which neither copy touches
    have hout : ∀ m ∈ ms, ¬ (d + m.off ≤ x ∧ x < d + m.off + m.len) :=
      fun m hm hin => hx ⟨m, hm, hin⟩
    rw [copyAll_other hout, copyAll_other hout]

/-- Members copied to where they are, as they are. -/
theorem copyAll_self (disk : Buf) (d : Nat) : copyAll false ms disk d disk d = disk := by
  induction ms with
  | nil => rfl
  | cons m ms ih =>
    have hself : copy false m disk d disk d = disk := by
      funext x
      unfold copy
      split
      next hx => rw [place_false, Nat.add_sub_cancel' hx.1]
      · rfl
    rw [copyAll_cons, hself, ih]

/-- There and back again, nothing has changed. -/
theorem copyAll_copyAll (hms : ms.Pairwise Apart) (disk mem : Buf) (d s : Nat) :
    copyAll swap ms disk d (copyAll swap ms mem s disk d) s = disk :=
  (copyAll_through hms disk mem disk d s d).trans (copyAll_self disk d)

/-- Back and there again, what the members cover has not changed, wherever it goes. -/
theorem copyAll_back (swap : Bool) (hms : ms.Pairwise Apart) (disk mem mem' : Buf) (d s : Nat)
    (hm : m ∈ ms) (hj : j < m.len) :
    copyAll swap ms mem' s (copyAll swap ms disk d mem s) d (s + m.off + j) =
      mem (s + m.off + j) := by
  rw [copyAll_member hms hm hj, copyAll_member hms hm (place_lt hj), place_place hj]

end Copy

/-! ## Arrays of records -/

/-- The members of `n` records of one size, one behind the other. -/
def arrayMembers (ms : List Member) (size n : Nat) : List Member :=
  (List.range n).flatMap fun i => ms.map (Member.shift (size * i))

section Array

variable {swap : Bool} {m : Member} {ms : List Member} {dest src : Buf} {size n i : Nat}

theorem mem_arrayMembers :
    m ∈ arrayMembers ms size n ↔ ∃ i, i < n ∧ ∃ k ∈ ms, k.shift (size * i) = m := by
  unfold arrayMembers
  simp only [List.mem_flatMap, List.mem_range, List.mem_map]

/-- The members of an array are apart, if those of a record are and lie within its size. -/
theorem arrayMembers_apart (hms : ms.Pairwise Apart) (hsize : ∀ m ∈ ms, m.off + m.len ≤ size) :
    (arrayMembers ms size n).Pairwise Apart := by
  unfold arrayMembers
  rw [List.pairwise_flatMap]
  constructor
  · intro i hi
    rw [List.pairwise_map]
    refine hms.imp fun {m k} h => ?_
    unfold Apart Member.shift at *
    dsimp only
    omega
  · refine List.pairwise_lt_range.imp fun {i k} hik => ?_
    intro x hx y hy
    obtain ⟨a, ha, rfl⟩ := List.mem_map.mp hx
    obtain ⟨b, hb, rfl⟩ := List.mem_map.mp hy
    have hend := hsize a ha
    have hmul : size * (i + 1) ≤ size * k := Nat.mul_le_mul_left size hik
    rw [Nat.mul_add, Nat.mul_one] at hmul
    left
    unfold Member.shift
    dsimp only
    omega

/-- An array is copied record by record. -/
theorem copyAll_array (swap : Bool) (ms : List Member) (size n : Nat) (dest src : Buf) :
    copyAll swap (arrayMembers ms size n) dest 0 src 0 =
      (List.range n).foldl (fun b i => copyAll swap ms b (size * i) src (size * i)) dest := by
  unfold arrayMembers
  generalize List.range n = l
  induction l generalizing dest with
  | nil => rfl
  | cons i l ih =>
    rw [List.flatMap_cons, copyAll_append, copyAll_shift, ih, List.foldl_cons, Nat.zero_add]

end Array

end Cheviot.Members
