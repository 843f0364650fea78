import Mathlib.Data.List.Nodup

/-!
# Segments of a memory, laid end to end

A memory has segments of one size that do not overlap, each at its own place. A list of
segments is an array of its own (`laid`), whatever order they stand in.

* `laid_congr`, `laid_append` — what the array depends on.
* `laid_piece`, `laid_other` — what becomes of it when a piece of one segment is written.
* `ReadOff` — what a reader finds of an array that may have an end.
-/

namespace Cheviot.Segments

section Laid

variable {ι α : Type} (start : ι → Nat) (size : Nat)

/-- The segments of `cs`, one behind the other. -/
def laid (mem : Nat → α) (cs : List ι) (x : Nat) : Option α :=
  cs[x / size]?.map fun c => mem (start c + x % size)

/-- Two of the segments do not overlap. -/
def Apart (c d : ι) : Prop := start c + size ≤ start d ∨ start d + size ≤ start c

variable {start} {size} {mem mem' : Nat → α} {cs ds : List ι} {c : ι} {p n x : Nat}

/-- A piece of a segment has its places one behind the other. -/
theorem div_mod_of_piece (hpiece : p % size + n ≤ size) {j : Nat} (hj : j < n) :
    (p + j) / size = p / size ∧ (p + j) % size = p % size + j := by
  have hlt : p % size + j < size := by omega
  have hsplit : p + j = p % size + j + size * (p / size) := by
    have := Nat.mod_add_div p size
    omega
  rw [hsplit, Nat.add_mul_div_left _ _ (by omega), Nat.add_mul_mod_self_left,
    Nat.div_eq_of_lt hlt, Nat.mod_eq_of_lt hlt]
  exact ⟨Nat.zero_add _, rfl⟩

theorem laid_congr (hsize : 0 < size)
    (h : ∀ c ∈ cs, ∀ k, k < size → mem' (start c + k) = mem (start c + k)) (x : Nat) :
    laid start size mem' cs x = laid start size mem cs x := by
  unfold laid
  cases hc : cs[x / size]? with
  | none => rfl
  | some c =>
    have hmem : c ∈ cs := List.mem_of_getElem? hc
    rw [Option.map_some, Option.map_some, h c hmem _ (Nat.mod_lt x hsize)]

/-- The segments behind do not matter. -/
theorem laid_append (hx : x < cs.length * size) :
    laid start size mem (cs ++ ds) x = laid start size mem cs x := by
  have hdiv : x / size < cs.length := Nat.div_lt_of_lt_mul (by rwa [Nat.mul_comm] at hx)
  unfold laid
  rw [List.getElem?_append_left hdiv]

/-- A place of the array is one of its segments'. -/
theorem exists_segment (hx : x < cs.length * size) : ∃ c, cs[x / size]? = some c ∧ c ∈ cs := by
  have hdiv : x / size < cs.length := Nat.div_lt_of_lt_mul (by rwa [Nat.mul_comm] at hx)
  exact ⟨cs[x / size], List.getElem?_eq_getElem hdiv, List.getElem_mem hdiv⟩

/-- A piece of a segment is a piece of the array. -/
theorem laid_piece (hc : cs[p / size]? = some c) (hpiece : p % size + n ≤ size) {j : Nat}
    (hj : j < n) : laid start size mem cs (p + j) = some (mem (start c + p % size + j)) := by
  obtain ⟨hdiv, hmod⟩ := div_mod_of_piece hpiece hj
  unfold laid
  rw [hdiv, hmod, hc, Option.map_some, Nat.add_assoc]

/-- Where a piece of a segment is written, the rest of the array stays. -/
theorem laid_other (hsize : 0 < size) (hnodup : cs.Nodup)
    (hapart : ∀ d ∈ cs, d ≠ c → Apart start size c d) (hc : cs[p / size]? = some c)
    (hpiece : p % size + n ≤ size)
    (hmem : ∀ a, a < start c + p % size ∨ start c + p % size + n ≤ a → mem' a = mem a)
    (hx : x < p ∨ p + n ≤ x) : laid start size mem' cs x = laid start size mem cs x := by
  have hlt := Nat.mod_lt x hsize
  unfold laid
  cases hd : cs[x / size]? with
  | none => rfl
  | some d =>
    rw [Option.map_some, Option.map_some, hmem]
    by_cases hdc : d = c
    · -- the place is in the same segment, in front of the piece or behind it
      subst hdc
      have hdiv : x / size = p / size := by
        obtain ⟨h1, hd'⟩ := List.getElem?_eq_some_iff.mp hd
        obtain ⟨h2, hc'⟩ := List.getElem?_eq_some_iff.mp hc
        exact (hnodup.getElem_inj_iff).mp (hd'.trans hc'.symm)
      have hp := Nat.mod_add_div p size
      have hx' := Nat.mod_add_div x size
      rw [hdiv] at hx'
      omega
    · rcases hapart d (List.mem_of_getElem? hd) hdc with hlo | hhi
      · exact .inr (by omega)
      · exact .inl (by omega)

end Laid

section ReadOff

variable {α : Type} {f : Nat → Option α} {p n m : Nat} {l l' : List α}

/-- The list is what a reader finds from `p` on, for `n` places, if the array goes so far. -/
structure ReadOff (f : Nat → Option α) (p n : Nat) (l : List α) : Prop where
  le : l.length ≤ n
  get : ∀ k (hk : k < l.length), f (p + k) = some l[k]
  stop : l.length < n → f (p + l.length) = none

theorem ReadOff.zero (f : Nat → Option α) (p : Nat) : ReadOff f p 0 [] :=
  ⟨Nat.le_refl 0, fun _ hk => absurd hk (Nat.not_lt_zero _), fun h => absurd h (Nat.lt_irrefl 0)⟩

theorem ReadOff.ended (h : f p = none) (n : Nat) : ReadOff f p n [] :=
  ⟨Nat.zero_le n, fun _ hk => absurd hk (Nat.not_lt_zero _), fun _ => h⟩

/-- A reader goes on behind what has been read. -/
theorem ReadOff.append (hm : l.length ≤ n) (hget : ∀ k (hk : k < l.length), f (p + k) = some l[k])
    (h : ReadOff f (p + l.length) (n - l.length) l') : ReadOff f p n (l ++ l') := by
  have hle := h.le
  refine ⟨by rw [List.length_append]; omega, fun k hk => ?_, fun hlt => ?_⟩
  · by_cases hfirst : k < l.length
    · rw [List.getElem_append_left hfirst]
      exact hget k hfirst
    · rw [List.length_append] at hk
      have hrest := h.get (k - l.length) (by omega)
      rw [List.getElem_append_right (Nat.le_of_not_lt hfirst), ← hrest]
      congr 1
      omega
  · rw [List.length_append] at hlt ⊢
    rw [← Nat.add_assoc]
    exact h.stop (by omega)

/-- A reader finds a given list exactly if this is what the array has. -/
theorem ReadOff.eq_iff (h : ReadOff f p n l) (hlen : l'.length = n) :
    l = l' ↔ ∀ k (hk : k < l'.length), f (p + k) = some l'[k] := by
  constructor
  · intro heq
    subst heq
    exact h.get
  · intro hall
    have hfull : l.length = n := by
      by_contra hne
      have hle := h.le
      have hlt : l.length < n := by omega
      have hbyte := hall l.length (by omega)
      rw [h.stop hlt] at hbyte
      cases hbyte
    apply List.ext_getElem (hfull.trans hlen.symm)
    intro k hk hk'
    have hbyte := h.get k hk
    rw [hall k hk'] at hbyte
    exact (Option.some.inj hbyte).symm

end ReadOff

end Cheviot.Segments
