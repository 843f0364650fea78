import Mathlib.Tactic.Common
import Mathlib.Data.List.Induction

/-!
# Forests of pointer blocks

A block map is a forest: each root holds a block number, a block holds block
numbers again down to a fixed depth, and 0 stands for no block. `ptr r p` is the
block number found from root `r` along the path of indices `p`; a path shorter
than the depth of its root leads to an interior block, a path of full length to
a leaf.

`Unshared` says that no block is reachable from two places. Under it the
changes a program makes to a forest are local:

* `ptr_congr` — a change of the memory that no interior block sees changes no
  place at all;
* `ptr_set`, `ptr_setRoot` — writing a block with no entries, or null, into an entry
  changes the place of that entry and what was below it (`setAt`);
* `unshared_of_set` — and keeps the forest unshared, when the block is a fresh one.
-/

namespace Cheviot.Forest

variable {α ρ : Type}

/-- The shape of a forest: how many levels of blocks hang off a root before the
leaves, and how many entries a block has. -/
structure Shape (ρ : Type) where
  depth : ρ → Nat
  width : Nat

/-- The entry `i` of block `b`; null has only null entries. -/
def child (entry : α → Nat → Nat) (mem : Nat → α) (b i : Nat) : Nat :=
  if b = 0 then 0 else entry (mem b) i

/-- The block found along the path `p` from the block `b`. -/
def follow (entry : α → Nat → Nat) (mem : Nat → α) (b : Nat) (p : List Nat) : Nat :=
  p.foldl (child entry mem) b

/-- The block found along the path `p` from the root `r`. -/
def ptr (entry : α → Nat → Nat) (mem : Nat → α) (root : ρ → Nat) (r : ρ) (p : List Nat) : Nat :=
  follow entry mem (root r) p

/-- `p` is a path into the forest below `r`. -/
def Place (sh : Shape ρ) (r : ρ) (p : List Nat) : Prop :=
  p.length ≤ sh.depth r ∧ ∀ i ∈ p, i < sh.width

/-- No block is reachable from two places below the live roots. -/
def Unshared (sh : Shape ρ) (live : ρ → Prop) (entry : α → Nat → Nat) (mem : Nat → α)
    (root : ρ → Nat) : Prop :=
  ∀ r p r' p', live r → live r' → Place sh r p → Place sh r' p' →
    ptr entry mem root r p = ptr entry mem root r' p' → ptr entry mem root r p ≠ 0 →
    r = r' ∧ p = p'

variable {sh : Shape ρ} {live : ρ → Prop} {entry : α → Nat → Nat} {mem mem' : Nat → α}
  {root root' : ρ → Nat}

@[simp] theorem ptr_nil (r : ρ) : ptr entry mem root r [] = root r := rfl

theorem ptr_concat (r : ρ) (p : List Nat) (i : Nat) :
    ptr entry mem root r (p ++ [i]) = child entry mem (ptr entry mem root r p) i := by
  rw [ptr, follow, List.foldl_append]
  rfl

theorem ptr_append (r : ρ) (p q : List Nat) :
    ptr entry mem root r (p ++ q) = follow entry mem (ptr entry mem root r p) q := by
  rw [ptr, follow, List.foldl_append]
  rfl

theorem follow_null (p : List Nat) : follow entry mem 0 p = 0 := by
  induction p with
  | nil => rfl
  | cons i p ih => exact ih

theorem Place.init {r : ρ} {p : List Nat} {i : Nat} (h : Place sh r (p ++ [i])) :
    Place sh r p ∧ p.length < sh.depth r ∧ i < sh.width := by
  obtain ⟨hlen, hmem⟩ := h
  rw [List.length_append, List.length_singleton] at hlen
  exact ⟨⟨by omega, fun j hj => hmem j (List.mem_append_left _ hj)⟩, by omega,
    hmem i (List.mem_append_right _ (List.mem_singleton.mpr rfl))⟩

theorem Place.left {r : ρ} {p q : List Nat} (h : Place sh r (p ++ q)) : Place sh r p := by
  obtain ⟨hlen, hmem⟩ := h
  rw [List.length_append] at hlen
  exact ⟨by omega, fun j hj => hmem j (List.mem_append_left _ hj)⟩

theorem Place.initial {r : ρ} {p q : List Nat} (h : Place sh r q) (hp : p <+: q) :
    Place sh r p := by
  obtain ⟨t, rfl⟩ := hp
  exact h.left

theorem Place.concat {r : ρ} {p : List Nat} {i : Nat} (h : Place sh r p)
    (hlen : p.length < sh.depth r) (hi : i < sh.width) : Place sh r (p ++ [i]) := by
  refine ⟨by rw [List.length_append, List.length_singleton]; omega, fun j hj => ?_⟩
  rcases List.mem_append.mp hj with hj | hj
  · exact h.2 j hj
  · exact (List.mem_singleton.mp hj) ▸ hi

/-- A place is empty when the place above it is. -/
theorem ptr_concat_of_null {r : ρ} {p : List Nat} (h : ptr entry mem root r p = 0) (i : Nat) :
    ptr entry mem root r (p ++ [i]) = 0 := by
  rw [ptr_concat, child, if_pos h]

theorem ptr_concat_of_ne {r : ρ} {p : List Nat} (h : ptr entry mem root r p ≠ 0) (i : Nat) :
    ptr entry mem root r (p ++ [i]) = entry (mem (ptr entry mem root r p)) i := by
  rw [ptr_concat, child, if_neg h]

/-- Two memories that give the interior blocks below `r` the same entries give
every place below `r` the same block. -/
theorem ptr_congr {r : ρ} (hroot : root' r = root r)
    (hmem : ∀ q, Place sh r q → q.length < sh.depth r → ptr entry mem root r q ≠ 0 →
      ∀ j, j < sh.width →
        entry (mem' (ptr entry mem root r q)) j = entry (mem (ptr entry mem root r q)) j)
    {p : List Nat} (hp : Place sh r p) :
    ptr entry mem' root' r p = ptr entry mem root r p := by
  induction p using List.reverseRecOn with
  | nil => exact hroot
  | append_singleton q j ih =>
    obtain ⟨hq, hlen, hj⟩ := hp.init
    rw [ptr_concat, ptr_concat, ih hq]
    by_cases hnull : ptr entry mem root r q = 0
    · rw [child, child, if_pos hnull, if_pos hnull]
    · rw [child, child, if_neg hnull, if_neg hnull, hmem q hq hlen hnull j hj]

/-- A forest whose places all keep their blocks stays unshared. -/
theorem unshared_congr (hu : Unshared sh live entry mem root)
    (h : ∀ r p, live r → Place sh r p →
      ptr entry mem' root' r p = ptr entry mem root r p) :
    Unshared sh live entry mem' root' := by
  intro r p r' p' hr hr' hp hp' heq hne
  rw [h r p hr hp] at heq hne
  rw [h r' p' hr' hp'] at heq
  exact hu r p r' p' hr hr' hp hp' heq hne

section Set

variable [DecidableEq ρ] {r₀ : ρ} {p₀ : List Nat} {i n : Nat}

/-- What is found after place `p₀` below `r₀` has received the block `n`, which leads
nowhere yet: `n` there, nothing below, and the same as before elsewhere. -/
def setAt (r₀ : ρ) (p₀ : List Nat) (n : Nat) (at' : ρ → List Nat → Nat) (r : ρ) (p : List Nat) :
    Nat :=
  if r = r₀ ∧ p₀ <+: p then (if p = p₀ then n else 0) else at' r p

theorem setAt_self (at' : ρ → List Nat → Nat) : setAt r₀ p₀ n at' r₀ p₀ = n := by
  unfold setAt
  rw [if_pos ⟨rfl, List.prefix_rfl⟩, if_pos rfl]

theorem setAt_below (at' : ρ → List Nat → Nat) {p : List Nat} (h : p₀ <+: p) (hne : p ≠ p₀) :
    setAt r₀ p₀ n at' r₀ p = 0 := by
  unfold setAt
  rw [if_pos ⟨rfl, h⟩, if_neg hne]

theorem setAt_of_not (at' : ρ → List Nat → Nat) {r : ρ} {p : List Nat}
    (h : ¬ (r = r₀ ∧ p₀ <+: p)) : setAt r₀ p₀ n at' r p = at' r p := if_neg h

/-- Where nothing was found, nothing was found below. -/
theorem setAt_of_null {r : ρ} {p : List Nat} (h : ptr entry mem root r₀ p₀ = 0) :
    setAt r₀ p₀ n (ptr entry mem root) r p =
      if r = r₀ ∧ p = p₀ then n else ptr entry mem root r p := by
  unfold setAt
  by_cases hin : r = r₀ ∧ p₀ <+: p
  · obtain ⟨rfl, q, rfl⟩ := hin
    rw [if_pos ⟨rfl, List.prefix_append p₀ q⟩, ptr_append, h, follow_null]
    by_cases hp : p₀ ++ q = p₀
    · rw [if_pos hp, if_pos ⟨rfl, hp⟩]
    · rw [if_neg hp, if_neg fun he => hp he.2]
  · rw [if_neg hin, if_neg]
    intro ⟨hr, hp⟩
    exact hin ⟨hr, hp ▸ List.prefix_rfl⟩

/-- Writing a block that leads nowhere, or null, into an entry changes the place of
that entry and what was below it. -/
theorem ptr_set (hu : Unshared sh live entry mem root) (hr₀ : live r₀)
    (hp₀ : Place sh r₀ (p₀ ++ [i])) (hparent : ptr entry mem root r₀ p₀ ≠ 0)
    (hroot : ∀ r, live r → root' r = root r)
    (hwrite : ∀ j, j < sh.width → entry (mem' (ptr entry mem root r₀ p₀)) j =
      if j = i then n else entry (mem (ptr entry mem root r₀ p₀)) j)
    (hmem : ∀ r q, live r → Place sh r q → q.length < sh.depth r →
      ptr entry mem root r q ≠ 0 → ptr entry mem root r q ≠ ptr entry mem root r₀ p₀ →
      ∀ j, j < sh.width →
        entry (mem' (ptr entry mem root r q)) j = entry (mem (ptr entry mem root r q)) j)
    (hclear : n ≠ 0 → p₀.length + 1 < sh.depth r₀ → ∀ j, j < sh.width → entry (mem' n) j = 0)
    {r : ρ} {p : List Nat} (hr : live r) (hp : Place sh r p) :
    ptr entry mem' root' r p = setAt r₀ (p₀ ++ [i]) n (ptr entry mem root) r p := by
  have hplace := hp₀.init.1
  induction p using List.reverseRecOn with
  | nil =>
    rw [setAt_of_not _ (by simp)]
    exact hroot r hr
  | append_singleton q j ih =>
    obtain ⟨hq, hlen, hj⟩ := hp.init
    rw [ptr_concat, ih hq]
    by_cases hin : r = r₀ ∧ p₀ ++ [i] <+: q
    · -- below the new block, which has no entries
      obtain ⟨rfl, hpre⟩ := hin
      have hlt : q ++ [j] ≠ p₀ ++ [i] := by
        intro he
        have := hpre.length_le
        rw [← he, List.length_append, List.length_singleton] at this
        omega
      rw [setAt_below _ (hpre.trans (List.prefix_append q [j])) hlt]
      by_cases hnew : q = p₀ ++ [i]
      · subst hnew
        rw [List.length_append, List.length_singleton] at hlen
        rw [setAt_self, child]
        by_cases hn : n = 0
        · rw [if_pos hn]
        · rw [if_neg hn, hclear hn hlen j hj]
      · rw [setAt_below _ hpre hnew]
        rfl
    · rw [setAt_of_not _ hin]
      -- from here on the entry written is at most the last one of the path
      have hlast : r = r₀ ∧ p₀ ++ [i] <+: q ++ [j] ↔ r = r₀ ∧ q = p₀ ∧ j = i := by
        constructor
        · intro ⟨hr, hpre⟩
          rcases List.prefix_concat_iff.mp hpre with he | hpre
          · obtain ⟨hq, hj⟩ := List.append_inj' he rfl
            exact ⟨hr, hq.symm, by simpa using hj.symm⟩
          · exact absurd ⟨hr, hpre⟩ hin
        · intro ⟨hr, hq, hj⟩
          rw [hq, hj]
          exact ⟨hr, List.prefix_rfl⟩
      by_cases hnull : ptr entry mem root r q = 0
      · rw [child, if_pos hnull, setAt_of_not, ptr_concat_of_null hnull]
        intro h
        obtain ⟨rfl, rfl, -⟩ := hlast.mp h
        exact hparent hnull
      · rw [child, if_neg hnull]
        -- the block that is written to is at one place only
        by_cases hsame : ptr entry mem root r q = ptr entry mem root r₀ p₀
        · obtain ⟨rfl, rfl⟩ := hu r q r₀ p₀ hr hr₀ hq hplace hsame hnull
          rw [hwrite j hj]
          by_cases hji : j = i
          · rw [if_pos hji, hji, setAt_self]
          · rw [if_neg hji, setAt_of_not, ptr_concat_of_ne hnull]
            intro h
            exact hji (hlast.mp h).2.2
        · rw [hmem r q hr hq hlen hnull hsame j hj, setAt_of_not, ptr_concat_of_ne hnull]
          intro h
          obtain ⟨rfl, rfl, -⟩ := hlast.mp h
          exact hsame rfl

/-- Writing a block that leads nowhere, or null, into a root changes what is found from
that root and no other. -/
theorem ptr_setRoot (live : ρ → Prop) (r₀ : ρ)
    (hroot : ∀ r, live r → root' r = if r = r₀ then n else root r)
    (hmem : ∀ r q, live r → Place sh r q → q.length < sh.depth r →
      ptr entry mem root r q ≠ 0 → ∀ j, j < sh.width →
        entry (mem' (ptr entry mem root r q)) j = entry (mem (ptr entry mem root r q)) j)
    (hclear : n ≠ 0 → 0 < sh.depth r₀ → ∀ j, j < sh.width → entry (mem' n) j = 0)
    {r : ρ} {p : List Nat} (hr : live r) (hp : Place sh r p) :
    ptr entry mem' root' r p = setAt r₀ [] n (ptr entry mem root) r p := by
  induction p using List.reverseRecOn with
  | nil =>
    rw [ptr_nil, hroot r hr, setAt]
    by_cases h : r = r₀
    · rw [if_pos h, if_pos ⟨h, List.prefix_rfl⟩, if_pos rfl]
    · rw [if_neg h, if_neg fun he => h he.1, ptr_nil]
  | append_singleton q j ih =>
    obtain ⟨hq, hlen, hj⟩ := hp.init
    rw [ptr_concat, ih hq]
    by_cases h : r = r₀
    · subst h
      have hbelow : setAt r [] n (ptr entry mem root) r (q ++ [j]) = 0 :=
        setAt_below _ List.nil_prefix (by simp)
      rw [hbelow]
      by_cases hnew : q = []
      · subst hnew
        rw [setAt_self, child]
        by_cases hn : n = 0
        · rw [if_pos hn]
        · rw [if_neg hn, hclear hn hlen j hj]
      · rw [setAt_below _ List.nil_prefix hnew]
        rfl
    · rw [setAt_of_not _ fun he => h he.1, setAt_of_not _ fun he => h he.1]
      by_cases hnull : ptr entry mem root r q = 0
      · rw [child, if_pos hnull, ptr_concat_of_null hnull]
      · rw [child, if_neg hnull, ptr_concat_of_ne hnull, hmem r q hr hq hlen hnull j hj]

/-- A forest stays unshared when a place of it receives a fresh block or none. -/
theorem unshared_of_set (hu : Unshared sh live entry mem root)
    (hfresh : n ≠ 0 → ∀ r p, live r → Place sh r p → ptr entry mem root r p ≠ n)
    (hset : ∀ r p, live r → Place sh r p →
      ptr entry mem' root' r p = setAt r₀ p₀ n (ptr entry mem root) r p) :
    Unshared sh live entry mem' root' := by
  -- what is found is the new block at its place, or was found there before
  have hcases : ∀ r p, live r → Place sh r p → ptr entry mem' root' r p ≠ 0 →
      (r = r₀ ∧ p = p₀ ∧ ptr entry mem' root' r p = n) ∨
        ptr entry mem' root' r p = ptr entry mem root r p := by
    intro r p hr hp hne
    rw [hset r p hr hp, setAt] at hne ⊢
    by_cases hin : r = r₀ ∧ p₀ <+: p
    · rw [if_pos hin] at hne ⊢
      by_cases he : p = p₀
      · rw [if_pos he]
        exact .inl ⟨hin.1, he, rfl⟩
      · rw [if_neg he] at hne
        exact absurd rfl hne
    · rw [if_neg hin]
      exact .inr rfl
  intro r p r' p' hr hr' hp hp' heq hne
  have hn : ∀ r p, live r → Place sh r p → ptr entry mem root r p = n → n ≠ 0 → False :=
    fun r p hr hp he hn0 => hfresh hn0 r p hr hp he
  rcases hcases r p hr hp hne with ⟨h1, h2, h3⟩ | h
  · rcases hcases r' p' hr' hp' (heq ▸ hne) with ⟨h1', h2', -⟩ | h'
    · exact ⟨h1.trans h1'.symm, h2.trans h2'.symm⟩
    · exact (hn r' p' hr' hp' (h'.symm.trans (heq.symm.trans h3)) (h3 ▸ hne)).elim
  · rcases hcases r' p' hr' hp' (heq ▸ hne) with ⟨-, -, h3'⟩ | h'
    · exact (hn r p hr hp (h.symm.trans (heq.trans h3')) (by rw [← h3', ← heq]; exact hne)).elim
    · exact hu r p r' p' hr hr' hp hp' (h.symm.trans (heq.trans h')) (h ▸ hne)

end Set

end Cheviot.Forest
