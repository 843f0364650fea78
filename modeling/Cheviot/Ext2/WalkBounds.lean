import Cheviot.Ext2.HostsAgree
import Cheviot.Ext2.DirBlock

/-!
# Walks over arbitrary bytes

What the walks over a directory block do when the block holds anything at all. None of
them checks the length of a record before it goes by it, except for the 0 that
`seek_to_valid_dirent` panics at.

A walk over records is a loop of `Lib.Loop` whose step looks at some bytes of a record and stops
at some records. `LooksAt` says which, once for each of the walks, and what follows from it is
proved once for all of them.

* `matchName_inside`, `matchName_outside` — which bytes of a name a comparison looks at.
* `walkBlock_safe_iff` — a walk over the records of a block ends inside the block if and
  only if each record that it comes to is inside as far as it is looked at, and is not of
  length 0 where the walk goes on.
* `seek_safe_iff`, `fill_safe_iff` — the same for the loops of `get_dirents`.
* `blockWalk_safe_iff` — all walks.

Mirroring notes:
- A record header is inside the block as a whole or not at all.
- `seek_to_valid_dirent` and `fill_dirent_buf` are one walk, as in `get_dirents`.
-/

namespace Cheviot.Ext2

open Cheviot.Bytes Cheviot.Loop

/-- A computation ends well or in a panic, and has not looked outside the block. -/
def Safe {α : Type} (x : Except Fault α) : Prop := ∀ e, x = .error e → ∃ msg, e = .panic msg

section Safe

variable {α β : Type} {a : α}

theorem safe_ok : Safe (.ok a : Except Fault α) := fun _ h => nomatch h

theorem safe_panic (msg : String) : Safe (.error (.panic msg) : Except Fault α) := by
  intro e h
  cases h
  exact ⟨msg, rfl⟩

theorem not_safe_outOfBounds : ¬ Safe (.error .outOfBounds : Except Fault α) := by
  intro h
  obtain ⟨msg, hmsg⟩ := h _ rfl
  cases hmsg

theorem not_safe_hang : ¬ Safe (.error .hang : Except Fault α) := by
  intro h
  obtain ⟨msg, hmsg⟩ := h _ rfl
  cases hmsg

theorem safe_error_iff {e : Fault} :
    Safe (.error e : Except Fault α) ↔ ∃ msg, e = .panic msg := by
  constructor
  · exact fun h => h e rfl
  · rintro ⟨msg, rfl⟩
    exact safe_panic msg

theorem safe_map {x : Except Fault α} (f : α → β) : Safe (x.map f) ↔ Safe x := by
  cases x with
  | error e => exact safe_error_iff.trans safe_error_iff.symm
  | ok a => exact iff_of_true safe_ok safe_ok

end Safe

/-! ## Names -/

/-- The record at `o` has the name, or none. -/
def NameMatches (b : Buf) (o : Nat) (name : List UInt8) : Prop :=
  nameLen b o = 0 ∨ getBytes b (o + minDirEntrySize) (nameLen b o) = name

instance (b : Buf) (o : Nat) (name : List UInt8) : Decidable (NameMatches b o name) :=
  inferInstanceAs (Decidable (_ ∨ _))

/-- As far as the name in the record at `o` is like another one, it is inside the block. -/
def NameInside (v : Volume) (b : Buf) (o : Nat) (name : List UInt8) : Prop :=
  ∀ j, j < nameLen b o → j < name.length →
    getBytes b (o + minDirEntrySize) j = name.take j → o + minDirEntrySize + j < v.blockSize

section Names

variable {v : Volume} {b : Buf} {o : Nat} {name : List UInt8}

/-- `strcmp_nz` looks at the bytes up to the first difference. -/
theorem strcmpNzLoop_inside (size n : Nat) : ∀ (o : Nat) (s2 : List UInt8),
    (∀ j, j < n → j < s2.length → getBytes b o j = s2.take j → o + j < size) →
    strcmpNzLoop size b n o s2 = .ok (decide (getBytes b o n = s2)) := by
  induction n with
  | zero =>
    intro o s2 _
    cases s2 with
    | nil => rfl
    | cons c s2 => rfl
  | succ n ih =>
    intro o s2 hin
    cases s2 with
    | nil =>
      rw [getBytes_cons, strcmpNzLoop]
      simp
    | cons c s2 =>
      have hfirst : o < size := hin 0 (Nat.succ_pos n) (Nat.succ_pos _) rfl
      rw [getBytes_cons, strcmpNzLoop, if_neg (by omega)]
      by_cases hc : b o = c
      · rw [if_pos hc, ih (o + 1) s2 fun j hj hlen heq => ?_]
        · simp [hc]
        · have := hin (j + 1) (by omega) (Nat.succ_lt_succ hlen)
            (by rw [getBytes_cons, hc, heq]; rfl)
          omega
      · rw [if_neg hc]
        simp [hc]

theorem strcmpNzLoop_outside (size n : Nat) : ∀ (o : Nat) (s2 : List UInt8) (j : Nat),
    j < n → j < s2.length → getBytes b o j = s2.take j → size ≤ o + j →
    strcmpNzLoop size b n o s2 = .error .outOfBounds := by
  induction n with
  | zero => exact fun _ _ _ h => absurd h (Nat.not_lt_zero _)
  | succ n ih =>
    intro o s2 j hj hlen heq hout
    cases s2 with
    | nil => exact absurd hlen (Nat.not_lt_zero _)
    | cons c s2 =>
      rw [strcmpNzLoop]
      by_cases hfirst : size ≤ o
      · rw [if_pos hfirst]
      · rw [if_neg hfirst]
        obtain ⟨k, rfl⟩ := Nat.exists_eq_succ_of_ne_zero (show j ≠ 0 by omega)
        rw [getBytes_cons, List.take_succ_cons, List.cons.injEq] at heq
        rw [if_pos heq.1]
        exact ih (o + 1) s2 k (by omega) (Nat.lt_of_succ_lt_succ hlen) heq.2 (by omega)

/-- A comparison that stays inside the block tells whether the names match. -/
theorem matchName_inside (h : NameInside v b o name) :
    matchName v b o name = .ok (decide (NameMatches b o name)) := by
  unfold matchName strcmpNz
  by_cases h0 : nameLen b o = 0
  · have hmatch : NameMatches b o name := .inl h0
    rw [if_pos h0, decide_eq_true hmatch]
  · have hmatch : NameMatches b o name ↔
        getBytes b (o + minDirEntrySize) (nameLen b o) = name := or_iff_right h0
    rw [if_neg h0, strcmpNzLoop_inside _ _ _ _ h, decide_eq_decide.mpr hmatch]

theorem matchName_outside (h : ¬ NameInside v b o name) :
    matchName v b o name = .error .outOfBounds := by
  unfold NameInside at h
  push Not at h
  obtain ⟨j, hj, hlen, heq, hout⟩ := h
  unfold matchName strcmpNz
  rw [if_neg (by omega)]
  exact strcmpNzLoop_outside _ _ _ _ j hj hlen heq hout

end Names

/-! ## One block -/

/-- The records of a block that a walk comes to: the first, and one record length behind
each that it goes past the next. -/
inductive Reaches (v : Volume) (b : Buf) (passes : Nat → Prop) : Nat → Prop
  | first : Reaches v b passes 0
  | next {o : Nat} (h : Reaches v b passes o) (hin : o + minDirEntrySize ≤ v.blockSize)
      (hpass : passes o) : Reaches v b passes (nextPos v.beCpu b o)

/-- Each record that the walk comes to is inside the block, as far as it is looked at, and
is not of length 0 where the walk goes past it. -/
def Inside (v : Volume) (b : Buf) (inside stops : Nat → Prop) : Prop :=
  ∀ o, Reaches v b (fun o => inside o ∧ ¬ stops o) o → o < v.blockSize →
    o + minDirEntrySize ≤ v.blockSize ∧ inside o ∧ (¬ stops o → recLen v.beCpu b o ≠ 0)

/-- What a walk does at a record, by what it looks at and where it stops. -/
def LooksAt {α : Type} (v : Volume) (body : Option Nat → Nat → Except Fault (Option α))
    (inside stops : Nat → Prop) : Prop :=
  ∀ prev o, o + minDirEntrySize ≤ v.blockSize →
    (inside o → stops o → ∃ a, body prev o = .ok (some a)) ∧
    (inside o → ¬ stops o → body prev o = .ok none) ∧
    (¬ inside o → body prev o = .error .outOfBounds)

section Block

variable {α : Type} {v : Volume} {b : Buf} {body : Option Nat → Nat → Except Fault (Option α)}
  {inside stops : Nat → Prop}

/-- Where the walk goes past a record. -/
theorem LooksAt.pass_iff (h : LooksAt v body inside stops) {o : Nat}
    (hin : o + minDirEntrySize ≤ v.blockSize) (prev : Option Nat) :
    body prev o = .ok none ↔ inside o ∧ ¬ stops o := by
  obtain ⟨hstop, hpass, hout⟩ := h prev o hin
  constructor
  · intro hnone
    by_cases hi : inside o
    · refine ⟨hi, fun hs => ?_⟩
      obtain ⟨a, ha⟩ := hstop hi hs
      rw [ha] at hnone
      cases hnone
    · rw [hout hi] at hnone
      cases hnone
  · exact fun ⟨hi, hs⟩ => hpass hi hs

theorem LooksAt.safe_iff (h : LooksAt v body inside stops) {o : Nat}
    (hin : o + minDirEntrySize ≤ v.blockSize) (prev : Option Nat) :
    Safe (body prev o) ↔ inside o := by
  obtain ⟨hstop, hpass, hout⟩ := h prev o hin
  by_cases hi : inside o
  · refine iff_of_true ?_ hi
    by_cases hs : stops o
    · obtain ⟨a, ha⟩ := hstop hi hs
      rw [ha]
      exact safe_ok
    · rw [hpass hi hs]
      exact safe_ok
  · rw [hout hi]
    exact iff_of_false not_safe_outOfBounds hi

/-- The states of the loop are the records that the walk comes to. -/
theorem comes_iff_reaches (h : LooksAt v body inside stops) (o : Nat) :
    (∃ prev, Comes (recordStep v b body) (none, 0) (prev, o)) ↔
      ∃ o', Reaches v b (fun o => inside o ∧ ¬ stops o) o' ∧ o = min o' v.blockSize := by
  constructor
  · intro ⟨prev, hcomes⟩
    generalize ht : (prev, o) = t at hcomes
    induction hcomes generalizing prev o with
    | refl =>
      cases ht
      exact ⟨0, .first, (Nat.zero_min _).symm⟩
    | @tail u w _ hstep ih =>
      subst ht
      obtain ⟨hin, hpass, heq⟩ := recordStep_inl hstep
      obtain ⟨o', hreach, ho'⟩ := ih u.2 u.1 rfl
      have hsame : u.2 = o' := by
        rw [minDirEntrySize] at hin
        omega
      rw [hsame] at hin hpass heq
      have ho : o = min (nextPos v.beCpu b o') v.blockSize := (Prod.mk.inj heq).2
      exact ⟨_, hreach.next hin ((h.pass_iff hin u.1).mp hpass), ho⟩
  · rintro ⟨o', hreach, rfl⟩
    induction hreach with
    | first => exact ⟨none, by rw [Nat.zero_min]⟩
    | @next o' _ hin hpass ih =>
      obtain ⟨prev, hcomes⟩ := ih
      rw [Nat.min_eq_left (by rw [minDirEntrySize] at hin; omega)] at hcomes
      exact ⟨_, hcomes.tail (recordStep_pass hin ((h.pass_iff hin prev).mpr hpass))⟩

/-- From a record of length 0 that the walk goes past it never gets away. -/
theorem record_stuck (h : LooksAt v body inside stops) {prev : Option Nat} {o : Nat}
    (hin : o + minDirEntrySize ≤ v.blockSize) (hpass : body prev o = .ok none)
    (hlen : nextPos v.beCpu b o = o) {t : Option Nat × Nat}
    (ht : Comes (recordStep v b body) (prev, o) t) : t.2 = o ∧ body t.1 o = .ok none := by
  have hboth := (h.pass_iff hin prev).mp hpass
  induction ht with
  | refl => exact ⟨rfl, hpass⟩
  | @tail u w _ hstep ih =>
    obtain ⟨prev', o'⟩ := u
    obtain ⟨rfl, -⟩ := ih
    obtain ⟨-, -, heq⟩ := recordStep_inl hstep
    rw [heq]
    refine ⟨?_, (h.pass_iff hin _).mpr hboth⟩
    show min (nextPos v.beCpu b o') v.blockSize = o'
    rw [hlen]
    exact Nat.min_eq_left (by omega)

theorem LooksAt.recordStep_less (h : LooksAt v body inside stops) (s t : Option Nat × Nat)
    (hstep : recordStep v b body s = .inl t) :
    v.blockSize - t.2 < v.blockSize - s.2 ∨
      ∀ u, Comes (recordStep v b body) s u → ∃ w, recordStep v b body u = .inl w := by
  obtain ⟨prev, o⟩ := s
  obtain ⟨hin, hpass, rfl⟩ := recordStep_inl hstep
  by_cases hlen : nextPos v.beCpu b o = o
  · refine .inr fun u hu => ?_
    obtain ⟨ho, hpass'⟩ := record_stuck h hin hpass hlen hu
    obtain ⟨prev', o'⟩ := u
    have ho : o' = o := ho
    subst ho
    exact ⟨_, recordStep_pass hin hpass'⟩
  · have hge := nextPos_ge v.beCpu b o
    rw [minDirEntrySize] at hin
    refine .inl ?_
    show v.blockSize - min (nextPos v.beCpu b o) v.blockSize < v.blockSize - o
    omega

/-- A walk over the records of a block is safe if and only if these are inside. -/
theorem walkBlock_safe_iff (h : LooksAt v body inside stops) :
    Safe (walkBlock v b body) ↔ Inside v b inside stops := by
  -- whether a record leads on is a matter of its length, on any host
  have hlen : ∀ o, nextPos v.beCpu b o = o ↔ recLen v.beCpu b o = 0 := by
    intro o
    rw [nextPos_stuck, recLen_host v.beCpu]
  rw [walkBlock_eq_run]
  refine (run_good_iff (μ := fun t : Option Nat × Nat => v.blockSize - t.2) (n := v.blockSize + 1)
    not_safe_hang h.recordStep_less (Nat.lt_succ_self _)).trans ?_
  constructor
  · intro hall o hreach ho
    -- what the walk does at a record it comes to, it must do well
    obtain ⟨prev, hcomes⟩ := (comes_iff_reaches h o).mpr ⟨o, hreach, by omega⟩
    obtain ⟨hdone, hgo⟩ := hall _ hcomes
    have hin : o + minDirEntrySize ≤ v.blockSize := by
      by_contra hout
      exact not_safe_outOfBounds (hdone _ (recordStep_header prev ho (by omega)))
    have hinside : inside o := by
      rw [← h.safe_iff hin prev]
      by_cases hpass : body prev o = .ok none
      · rw [hpass]
        exact safe_ok
      · exact hdone _ (recordStep_stop hin hpass)
    refine ⟨hin, hinside, fun hs h0 => ?_⟩
    -- a length of 0 leads nowhere, and the walk would not end
    have hless := hgo _ (recordStep_pass hin ((h.pass_iff hin prev).mpr ⟨hinside, hs⟩))
    have hstuck : min (nextPos v.beCpu b o) v.blockSize = o := by
      rw [(hlen o).mpr h0]
      omega
    rw [hstuck] at hless
    exact Nat.lt_irrefl _ hless
  · intro hall t ht
    obtain ⟨prev, o⟩ := t
    obtain ⟨o', hreach, ho'⟩ := (comes_iff_reaches h o).mp ⟨prev, ht⟩
    rcases Nat.lt_or_ge o v.blockSize with ho | hend
    · have hsame : o' = o := by omega
      rw [hsame] at hreach
      obtain ⟨hin, hinside, hgo⟩ := hall o hreach ho
      refine ⟨fun r hr => ?_, fun u hu => ?_⟩
      · by_cases hpass : body prev o = .ok none
        · rw [recordStep_pass hin hpass] at hr
          cases hr
        · rw [recordStep_stop hin hpass] at hr
          rw [← Sum.inr.inj hr]
          exact (h.safe_iff hin prev).mpr hinside
      · obtain ⟨-, hpass, rfl⟩ := recordStep_inl hu
        -- otherwise what is left of the block gets smaller
        have hne : nextPos v.beCpu b o ≠ o := fun h0 =>
          hgo ((h.pass_iff hin prev).mp hpass).2 ((hlen o).mp h0)
        have hge := nextPos_ge v.beCpu b o
        show v.blockSize - min (nextPos v.beCpu b o) v.blockSize < v.blockSize - o
        omega
    · rw [recordStep_end prev hend]
      refine ⟨fun r hr => ?_, fun u hu => nomatch hu⟩
      rw [← Sum.inr.inj hr]
      exact safe_ok

end Block

/-! ## Seeking and copying -/

/-- `seek_to_valid_dirent` goes past the record at `o`, which it takes to be at `scan`. -/
def SeekPasses (v : Volume) (b : Buf) (pos scan o : Nat) : Prop :=
  scan + recLen v.beCpu b o ≤ pos ∧ nextPos v.beCpu b o < v.blockSize

/-- The records that `seek_to_valid_dirent` comes to, and where it takes them to be. -/
inductive SeekReaches (v : Volume) (b : Buf) (pos : Nat) : Nat → Nat → Prop
  | first : SeekReaches v b pos 0 0
  | next {scan o : Nat} (h : SeekReaches v b pos scan o) (hin : o + minDirEntrySize ≤ v.blockSize)
      (hpass : SeekPasses v b pos scan o) (hlen : recLen v.beCpu b o ≠ 0) :
      SeekReaches v b pos (scan + recLen v.beCpu b o) (nextPos v.beCpu b o)

/-- The records that `fill_dirent_buf` comes to, with the buffer at each. -/
inductive FillReaches (v : Volume) (b : Buf) (size o₀ : Nat) (db₀ : DirentBuf) :
    Nat → DirentBuf → Prop
  | first : FillReaches v b size o₀ db₀ o₀ db₀
  | next {o : Nat} {db db' : DirentBuf} (h : FillReaches v b size o₀ db₀ o db)
      (hin : o + minDirEntrySize ≤ v.blockSize) (hcopy : copyDirent v b size db o = some db') :
      FillReaches v b size o₀ db₀ (nextPos v.beCpu b o) db'

/-- Each record that `fill_dirent_buf` comes to is inside the block, with its name where
there is room for it in the buffer, and is not a free one of length 0. -/
def FillInside (v : Volume) (b : Buf) (size o₀ : Nat) (db₀ : DirentBuf) : Prop :=
  ∀ o db, FillReaches v b size o₀ db₀ o db → o < v.blockSize →
    o + minDirEntrySize ≤ v.blockSize ∧
    (dIno v.beCpu b o ≠ 0 → db.position + direntReclen v (nameLen b o) ≤ size →
      o + minDirEntrySize + nameLen b o ≤ v.blockSize) ∧
    (dIno v.beCpu b o = 0 → recLen v.beCpu b o ≠ 0)

section Dirents

variable {v : Volume} {b : Buf} {pos size : Nat}

theorem seekStep_out {scan o : Nat} (h : v.blockSize < o + minDirEntrySize) :
    seekStep v b pos (scan, o) = .inr (.error .outOfBounds) := if_pos h

theorem seekStep_stop {scan o : Nat} (hin : o + minDirEntrySize ≤ v.blockSize)
    (h : ¬ SeekPasses v b pos scan o) : seekStep v b pos (scan, o) = .inr (.ok (scan, o)) := by
  have hstop : ¬ (scan + recLen v.beCpu b o ≤ pos ∧ nextPos v.beCpu b o < v.blockSize) := h
  rw [seekStep, if_neg (by omega), if_neg hstop]

theorem seekStep_zero {scan o : Nat} (hin : o + minDirEntrySize ≤ v.blockSize)
    (h : SeekPasses v b pos scan o) (hlen : recLen v.beCpu b o = 0) :
    seekStep v b pos (scan, o) =
      .inr (.error (.panic "extfs: readdir dirent record length is 0")) := by
  have hpass : scan + recLen v.beCpu b o ≤ pos ∧ nextPos v.beCpu b o < v.blockSize := h
  rw [seekStep, if_neg (by omega), if_pos hpass, if_pos hlen]

theorem seekStep_pass {scan o : Nat} (hin : o + minDirEntrySize ≤ v.blockSize)
    (h : SeekPasses v b pos scan o) (hlen : recLen v.beCpu b o ≠ 0) :
    seekStep v b pos (scan, o) = .inl (scan + recLen v.beCpu b o, nextPos v.beCpu b o) := by
  have hpass : scan + recLen v.beCpu b o ≤ pos ∧ nextPos v.beCpu b o < v.blockSize := h
  rw [seekStep, if_neg (by omega), if_pos hpass, if_neg hlen]

theorem seek_shrinks (s t : Nat × Nat) (h : seekStep v b pos s = .inl t) :
    v.blockSize - t.2 < v.blockSize - s.2 :=
  seekStep_less s t (show seekStep (v.host v.beCpu) b pos s = .inl t from h)

theorem comes_iff_seekReaches (scan o : Nat) :
    Comes (seekStep v b pos) (0, 0) (scan, o) ↔ SeekReaches v b pos scan o := by
  constructor
  · intro h
    generalize ht : (scan, o) = t at h
    induction h generalizing scan o with
    | refl =>
      cases ht
      exact .first
    | @tail u w _ hstep ih =>
      subst ht
      obtain ⟨scan', o'⟩ := u
      have hreach := ih scan' o' rfl
      rcases Nat.lt_or_ge v.blockSize (o' + minDirEntrySize) with hout | hin
      · rw [seekStep_out hout] at hstep
        cases hstep
      · by_cases hpass : SeekPasses v b pos scan' o'
        · by_cases hlen : recLen v.beCpu b o' = 0
          · rw [seekStep_zero hin hpass hlen] at hstep
            cases hstep
          · rw [seekStep_pass hin hpass hlen] at hstep
            cases hstep
            exact hreach.next hin hpass hlen
        · rw [seekStep_stop hin hpass] at hstep
          cases hstep
  · intro h
    induction h with
    | first => exact .refl
    | next _ hin hpass hlen ih => exact ih.tail (seekStep_pass hin hpass hlen)

/-- The record that `seek_to_valid_dirent` stops at. -/
theorem seekLoop_ok_iff (scan o : Nat) :
    seekLoop v b pos (v.blockSize + 1) 0 0 = .ok (scan, o) ↔
      SeekReaches v b pos scan o ∧ o + minDirEntrySize ≤ v.blockSize ∧
        ¬ SeekPasses v b pos scan o := by
  rw [seekLoop_eq_run]
  constructor
  · intro h
    obtain ⟨⟨scan', o'⟩, hcomes, hdone⟩ := done_of_run h fun h => nomatch h
    have hreach := (comes_iff_seekReaches scan' o').mp hcomes
    rcases Nat.lt_or_ge v.blockSize (o' + minDirEntrySize) with hout | hin
    · rw [seekStep_out hout] at hdone
      cases hdone
    · by_cases hpass : SeekPasses v b pos scan' o'
      · by_cases hlen : recLen v.beCpu b o' = 0
        · rw [seekStep_zero hin hpass hlen] at hdone
          cases hdone
        · rw [seekStep_pass hin hpass hlen] at hdone
          cases hdone
      · rw [seekStep_stop hin hpass] at hdone
        cases hdone
        exact ⟨hreach, hin, hpass⟩
  · intro ⟨hreach, hin, hstop⟩
    exact run_of_comes (μ := fun t : Nat × Nat => v.blockSize - t.2)
      (fun s t h => .inl (seek_shrinks s t h)) (Nat.lt_succ_self _)
      ((comes_iff_seekReaches scan o).mpr hreach) (seekStep_stop hin hstop)

/-- `seek_to_valid_dirent` is safe if and only if the records that it comes to are inside
the block. -/
theorem seek_safe_iff : Safe (seekLoop v b pos (v.blockSize + 1) 0 0) ↔
    ∀ scan o, SeekReaches v b pos scan o → o + minDirEntrySize ≤ v.blockSize := by
  rw [seekLoop_eq_run]
  refine (run_good_iff (μ := fun t : Nat × Nat => v.blockSize - t.2) (n := v.blockSize + 1)
    not_safe_hang (fun s t h => .inl (seek_shrinks s t h)) (Nat.lt_succ_self _)).trans ?_
  constructor
  · intro h scan o hreach
    by_contra hout
    exact not_safe_outOfBounds ((h _ ((comes_iff_seekReaches scan o).mpr hreach)).1 _
      (seekStep_out (by omega)))
  · intro h t ht
    obtain ⟨scan, o⟩ := t
    have hin := h scan o ((comes_iff_seekReaches scan o).mp ht)
    refine ⟨fun r hr => ?_, fun u hu => seek_shrinks _ u hu⟩
    by_cases hpass : SeekPasses v b pos scan o
    · by_cases hlen : recLen v.beCpu b o = 0
      · rw [seekStep_zero hin hpass hlen] at hr
        cases hr
        exact safe_panic _
      · rw [seekStep_pass hin hpass hlen] at hr
        cases hr
    · rw [seekStep_stop hin hpass] at hr
      cases hr
      exact safe_ok

theorem fillStep_inside {o : Nat} {db db' : DirentBuf} (hin : o + minDirEntrySize ≤ v.blockSize)
    (hcopy : copyDirent v b size db o = some db') :
    fillStep v b size (o, db) = .inl (nextPos v.beCpu b o, db') := by
  show fillStep (v.host v.beCpu) b size (o, db) = _
  exact fillStep_go hin hcopy

theorem comes_iff_fillReaches {o₀ : Nat} {db₀ : DirentBuf} (o : Nat) (db : DirentBuf) :
    Comes (fillStep v b size) (o₀, db₀) (o, db) ↔ FillReaches v b size o₀ db₀ o db := by
  constructor
  · intro h
    generalize ht : (o, db) = t at h
    induction h generalizing o db with
    | refl =>
      cases ht
      exact .first
    | @tail u w _ hstep ih =>
      subst ht
      have hstep : fillStep (v.host v.beCpu) b size (u.1, u.2) = .inl (o, db) := hstep
      obtain ⟨hin, db', hcopy, heq⟩ := fillStep_inl hstep
      cases heq
      exact (ih u.1 u.2 rfl).next hin hcopy
  · intro h
    induction h with
    | first => exact .refl
    | next _ hin hcopy ih => exact ih.tail (fillStep_inside hin hcopy)

/-- The buffer takes a record if it has room for one of that length, whatever is in it. -/
theorem direntBufAdd_eq_none (db : DirentBuf) (o : Nat) :
    direntBufAdd v db size
        ⟨(dIno false b o).toNat, getBytes b (o + minDirEntrySize) (nameLen b o)⟩ = none ↔
      ¬ db.position + direntReclen v (nameLen b o) ≤ size := by
  unfold direntBufAdd
  dsimp only
  rw [getBytes_length]
  split
  next hfit => exact iff_of_false (Option.some_ne_none _) (not_not_intro hfit)
  next hfull => exact iff_of_true rfl hfull

/-- Where a record stops the loop it is not outside the block. -/
theorem fillStep_safe {o : Nat} {db : DirentBuf} (ho : o < v.blockSize)
    (hin : o + minDirEntrySize ≤ v.blockSize)
    (hname : dIno v.beCpu b o ≠ 0 → db.position + direntReclen v (nameLen b o) ≤ size →
      o + minDirEntrySize + nameLen b o ≤ v.blockSize) :
    ∀ r, fillStep v b size (o, db) = .inr r → Safe r := by
  intro r hr
  cases hcopy : copyDirent v b size db o with
  | some db' =>
    have hstep := fillStep_inside hin hcopy
    rw [hstep] at hr
    cases hr
  | none =>
    simp only [fillStep, if_pos ho, if_neg (Nat.not_lt.mpr hin), hcopy] at hr
    cases hadd : direntBufAdd v db size
        ⟨(dIno false b o).toNat, getBytes b (o + minDirEntrySize) (nameLen b o)⟩ with
    | none =>
      rw [hadd] at hr
      cases hr
      exact safe_ok
    | some db' =>
      -- there is room for the name, so it is inside the block
      exfalso
      have hfit : db.position + direntReclen v (nameLen b o) ≤ size := by
        by_contra hfull
        rw [(direntBufAdd_eq_none db o).mpr hfull] at hadd
        cases hadd
      unfold copyDirent at hcopy
      by_cases h0 : dIno false b o = 0
      · rw [if_pos h0] at hcopy
        cases hcopy
      · have hle := hname (by rw [ne_eq, dIno_eq_zero]; exact h0) hfit
        rw [if_neg h0, if_neg (by omega), hadd] at hcopy
        cases hcopy

/-- `fill_dirent_buf` is safe if and only if the records that it copies are inside the block. -/
theorem fill_safe_iff (o₀ : Nat) (db₀ : DirentBuf) :
    Safe (fillDirentBuf v b size (v.blockSize + size + 1) o₀ db₀) ↔
      FillInside v b size o₀ db₀ := by
  have hn : fillLeft v size (o₀, db₀) < v.blockSize + size + 1 := by
    unfold fillLeft
    dsimp only
    omega
  rw [fillDirentBuf_eq_run]
  refine (run_good_iff (μ := fillLeft v size) not_safe_hang ?_ hn).trans ?_
  · intro s t h
    obtain ⟨o, db⟩ := s
    have hstep : fillStep (v.host v.beCpu) b size (o, db) = .inl t := h
    rcases fillStep_less hstep with hlt | ⟨hin, hcopy, hlen⟩
    · exact .inl hlt
    · refine .inr fun u hu => ?_
      have hu : Comes (fillStep (v.host v.beCpu) b size) (o, db) u := hu
      rw [fill_stuck hin hcopy hlen hu]
      exact ⟨t, h⟩
  constructor
  · intro h o db hreach ho
    obtain ⟨hdone, hgo⟩ := h _ ((comes_iff_fillReaches o db).mpr hreach)
    -- each record that it comes to has its header inside
    have hin : o + minDirEntrySize ≤ v.blockSize := by
      by_contra hout
      refine not_safe_outOfBounds (hdone _ ?_)
      rw [fillStep, if_pos ho, if_pos (by omega)]
    refine ⟨hin, fun hlive hfit => ?_, fun hfree h0 => ?_⟩
    · by_contra hout
      rw [ne_eq, dIno_eq_zero] at hlive
      -- and its name, if it is copied
      have hcopy : copyDirent v b size db o = none := by
        unfold copyDirent
        rw [if_neg hlive, if_pos (by omega)]
      have hadd := mt (direntBufAdd_eq_none db o).mp (not_not_intro hfit)
      obtain ⟨db', hdb'⟩ := Option.ne_none_iff_exists'.mp hadd
      refine not_safe_outOfBounds (hdone (.error .outOfBounds) ?_)
      simp only [fillStep, if_pos ho, if_neg (Nat.not_lt.mpr hin), hcopy, hdb']
    · rw [dIno_eq_zero] at hfree
      rw [recLen_host] at h0
      -- and a length, if it is gone past
      have hcopy : copyDirent v b size db o = some db := if_pos hfree
      have hstep := fillStep_inside hin hcopy
      rw [(nextPos_stuck v.beCpu b o).mpr h0] at hstep
      exact Nat.lt_irrefl _ (hgo _ hstep)
  · intro h t ht
    obtain ⟨o, db⟩ := t
    have hreach := (comes_iff_fillReaches o db).mp ht
    rcases Nat.lt_or_ge o v.blockSize with ho | hend
    · obtain ⟨hin, hname, hfree⟩ := h o db hreach ho
      refine ⟨fillStep_safe ho hin hname, fun u hu => ?_⟩
      have hu : fillStep (v.host v.beCpu) b size (o, db) = .inl u := hu
      rcases fillStep_less hu with hlt | ⟨-, hcopy, hlen⟩
      · exact hlt
      · -- a free record that is gone past has a length
        exfalso
        rcases copyDirent_less hcopy with ⟨h0, -⟩ | hlt
        · exact hfree ((dIno_eq_zero v.beCpu b o).mpr h0) (by rw [recLen_host]; exact hlen)
        · exact Nat.lt_irrefl _ hlt
    · have hdone : fillStep v b size (o, db) = .inr (.ok (false, o, db)) :=
        if_neg (Nat.not_lt.mpr hend)
      rw [hdone]
      refine ⟨fun r hr => ?_, fun u hu => by cases hu⟩
      rw [← Sum.inr.inj hr]
      exact safe_ok

/-- What `get_dirents` does with one block. -/
def listBlock (v : Volume) (b : Buf) (pos size : Nat) (db : DirentBuf) : Except Fault Unit := do
  match ← seekToValidDirent v b pos with
  | none => return ()
  | some o => (fillDirentBuf v b size (v.blockSize + size + 1) o db).map fun _ => ()

/-- The records that the seek comes to are inside the block, and so are those that are
copied from the one that it stops at on. -/
def ListInside (v : Volume) (b : Buf) (pos size : Nat) (db : DirentBuf) : Prop :=
  ∀ scan o, SeekReaches v b pos scan o → o + minDirEntrySize ≤ v.blockSize ∧
    (¬ SeekPasses v b pos scan o → scan < v.blockSize → FillInside v b size o db)

/-- Seeking and copying are safe if and only if the records are inside the block. -/
theorem list_safe_iff (pos size : Nat) (db : DirentBuf) :
    Safe (listBlock v b pos size db) ↔ ListInside v b pos size db := by
  have hseek := @seek_safe_iff v b pos
  unfold listBlock ListInside seekToValidDirent
  cases hrun : seekLoop v b pos (v.blockSize + 1) 0 0 with
  | error e =>
    rw [hrun] at hseek
    -- no record is come to that the seek stops at
    have hnone : ∀ scan o, SeekReaches v b pos scan o → o + minDirEntrySize ≤ v.blockSize →
        SeekPasses v b pos scan o := by
      intro scan o hreach hin
      by_contra hstop
      rw [(seekLoop_ok_iff scan o).mpr ⟨hreach, hin, hstop⟩] at hrun
      cases hrun
    have hsafe : Safe (Except.error e : Except Fault Unit) ↔
        Safe (Except.error e : Except Fault (Nat × Nat)) := safe_error_iff.trans safe_error_iff.symm
    refine Iff.trans hsafe (hseek.trans ?_)
    constructor
    · intro h scan o hreach
      have hin := h scan o hreach
      exact ⟨hin, fun hstop => absurd (hnone scan o hreach hin) hstop⟩
    · exact fun h scan o hreach => (h scan o hreach).1
  | ok r =>
    obtain ⟨scan, o⟩ := r
    rw [hrun] at hseek
    have hinside := hseek.mp safe_ok
    obtain ⟨hreach, hin, hstop⟩ := (seekLoop_ok_iff scan o).mp hrun
    -- the record that the seek stops at is the only one
    have hone : ∀ scan' o', SeekReaches v b pos scan' o' → ¬ SeekPasses v b pos scan' o' →
        scan' = scan ∧ o' = o := by
      intro scan' o' hreach' hstop'
      have hrun' := (seekLoop_ok_iff scan' o').mpr ⟨hreach', hinside _ _ hreach', hstop'⟩
      rw [hrun] at hrun'
      cases hrun'
      exact ⟨rfl, rfl⟩
    have hbound : (∀ scan o, SeekReaches v b pos scan o → o + minDirEntrySize ≤ v.blockSize ∧
        (¬ SeekPasses v b pos scan o → scan < v.blockSize → FillInside v b size o db)) ↔
        (scan < v.blockSize → FillInside v b size o db) := by
      constructor
      · exact fun h => (h scan o hreach).2 hstop
      · intro h scan' o' hreach'
        refine ⟨hinside _ _ hreach', fun hstop' => ?_⟩
        obtain ⟨rfl, rfl⟩ := hone scan' o' hreach' hstop'
        exact h
    rw [hbound]
    dsimp only [bind, Except.bind, pure, Except.pure]
    by_cases hend : v.blockSize ≤ scan
    · rw [if_pos hend]
      exact iff_of_true safe_ok fun h => absurd h (by omega)
    · rw [if_neg hend, imp_iff_right (by omega : scan < v.blockSize)]
      exact (safe_map _).trans (fill_safe_iff o db)

end Dirents

/-! ## The walks -/

/-- The record at `o` is in use. -/
def InUse (v : Volume) (b : Buf) (o : Nat) : Prop := dIno v.beCpu b o ≠ 0

/-- `delete_dir_entry` puts the inode number inside the block, if it puts it anywhere. -/
def KeepsInoInside (v : Volume) (b : Buf) (o : Nat) : Prop :=
  v.sizeofIno ≤ nameLen b o →
    o + minDirEntrySize + (nameLen b o - v.sizeofIno) + 4 ≤ v.blockSize

/-- A free record with room for `required` bytes. -/
def FreeFor (v : Volume) (b : Buf) (required o : Nat) : Prop :=
  dIno v.beCpu b o = 0 ∧ required ≤ recLen v.beCpu b o

/-- Behind its name the record has room for `required` bytes, or is taken to have as it is
shorter than its name. -/
def TailFor (v : Volume) (b : Buf) (required o : Nat) : Prop :=
  recLen v.beCpu b o < dirEntrySize (nameLen b o) ∨
    required ≤ recLen v.beCpu b o - dirEntrySize (nameLen b o)

/-- Where the record that is split off begins. -/
def splitAt (v : Volume) (b : Buf) (o : Nat) : Nat :=
  o + (bswap2 v.beCpu (UInt16.ofNat (dirEntrySize (nameLen b o)))).toNat

section Looks

variable {v : Volume} {b : Buf}

/-- `lookup_dir_block` at a record. -/
theorem lookup_looks (name : List UInt8) :
    LooksAt v (fun _ o =>
      if dIno v.beCpu b o ≠ 0 then do
        if ← matchName v b o name then return some (bswap4 v.beCpu (dIno v.beCpu b o)).toNat
        else return none
      else .ok none)
      (fun o => InUse v b o → NameInside v b o name)
      (fun o => InUse v b o ∧ NameMatches b o name) := by
  intro _ o _
  dsimp only
  by_cases huse : dIno v.beCpu b o ≠ 0
  · rw [if_pos huse]
    refine ⟨fun hin hstop => ?_, fun hin hgo => ?_, fun hout => ?_⟩
    · rw [bind_of_ok (matchName_inside (hin huse)), decide_eq_true hstop.2]
      exact ⟨_, rfl⟩
    · rw [bind_of_ok (matchName_inside (hin huse)), decide_eq_false fun h => hgo ⟨huse, h⟩]
      rfl
    · rw [matchName_outside fun h => hout fun _ => h]
      rfl
  · rw [if_neg huse]
    exact ⟨fun _ h => absurd h.1 huse, fun _ _ => rfl, fun h => absurd (fun h => absurd h huse) h⟩

/-- `is_dir_block_empty` at a record. -/
theorem empty_looks :
    LooksAt v (fun _ o =>
      if dIno v.beCpu b o ≠ 0 then do
        if ← matchName v b o [0x2E] then return none
        else if ← matchName v b o [0x2E, 0x2E] then return none
        else return some ()
      else .ok none)
      (fun o => InUse v b o → NameInside v b o [0x2E] ∧
        (¬ NameMatches b o [0x2E] → NameInside v b o [0x2E, 0x2E]))
      (fun o => InUse v b o ∧ ¬ NameMatches b o [0x2E] ∧ ¬ NameMatches b o [0x2E, 0x2E]) := by
  intro _ o _
  dsimp only
  by_cases huse : dIno v.beCpu b o ≠ 0
  · rw [if_pos huse]
    refine ⟨fun hin hstop => ?_, fun hin hgo => ?_, fun hout => ?_⟩
    · -- it is neither of the two names, and is found
      obtain ⟨h1, h2⟩ := hin huse
      rw [bind_of_ok (matchName_inside h1), decide_eq_false hstop.2.1]
      refine ⟨(), ?_⟩
      show (matchName v b o [0x2E, 0x2E] >>= _) = _
      rw [bind_of_ok (matchName_inside (h2 hstop.2.1)), decide_eq_false hstop.2.2]
      rfl
    · obtain ⟨h1, h2⟩ := hin huse
      rw [bind_of_ok (matchName_inside h1)]
      -- it is one of them, and is gone past
      by_cases hdot : NameMatches b o [0x2E]
      · rw [decide_eq_true hdot]
        rfl
      · have hdots : NameMatches b o [0x2E, 0x2E] := by
          by_contra hno
          exact hgo ⟨huse, hdot, hno⟩
        rw [decide_eq_false hdot]
        show (matchName v b o [0x2E, 0x2E] >>= _) = _
        rw [bind_of_ok (matchName_inside (h2 hdot)), decide_eq_true hdots]
        rfl
    · -- a name that is compared leaves the block
      by_cases h1 : NameInside v b o [0x2E]
      · rw [bind_of_ok (matchName_inside h1)]
        by_cases hdot : NameMatches b o [0x2E]
        · exact absurd (fun _ => ⟨h1, fun h => absurd hdot h⟩) hout
        · rw [decide_eq_false hdot]
          show (matchName v b o [0x2E, 0x2E] >>= _) = _
          rw [matchName_outside fun h2 => hout fun _ => ⟨h1, fun _ => h2⟩]
          rfl
      · rw [matchName_outside h1]
        rfl
  · rw [if_neg huse]
    exact ⟨fun _ h => absurd h.1 huse, fun _ _ => rfl, fun h => absurd (fun h => absurd h huse) h⟩

/-- `search_block_and_delete` at a record. -/
theorem delete_looks (name : List UInt8) :
    LooksAt v (fun prev o =>
      if dIno v.beCpu b o ≠ 0 then do
        if ← matchName v b o name then return some (← clearDirent v b o prev)
        else return none
      else .ok none)
      (fun o => InUse v b o → NameInside v b o name ∧
        (NameMatches b o name → KeepsInoInside v b o))
      (fun o => InUse v b o ∧ NameMatches b o name) := by
  intro prev o _
  -- clearing the inode number writes `sizeof (ino_t)` bytes
  have hclear : KeepsInoInside v b o → ∃ b', clearDirent v b o prev = .ok b' := by
    intro h
    unfold clearDirent
    dsimp only
    rw [if_neg fun hout => absurd (h hout.1) (by omega)]
    cases prev with
    | none => exact ⟨_, rfl⟩
    | some p => exact ⟨_, rfl⟩
  have hout : ¬ KeepsInoInside v b o → clearDirent v b o prev = .error .outOfBounds := by
    intro h
    unfold KeepsInoInside at h
    push Not at h
    unfold clearDirent
    dsimp only
    rw [if_pos ⟨h.1, h.2⟩]
  dsimp only
  by_cases huse : dIno v.beCpu b o ≠ 0
  · rw [if_pos huse]
    refine ⟨fun hin hstop => ?_, fun hin hgo => ?_, fun hno => ?_⟩
    · obtain ⟨h1, h2⟩ := hin huse
      obtain ⟨b', hb'⟩ := hclear (h2 hstop.2)
      rw [bind_of_ok (matchName_inside h1), decide_eq_true hstop.2]
      exact ⟨b', bind_of_ok hb' _⟩
    · rw [bind_of_ok (matchName_inside (hin huse).1), decide_eq_false fun h => hgo ⟨huse, h⟩]
      rfl
    · by_cases h1 : NameInside v b o name
      · -- the name is inside, so it is the clearing that is not
        have hmatch : NameMatches b o name := by
          by_contra hmatch
          exact hno fun _ => ⟨h1, fun h => absurd h hmatch⟩
        rw [bind_of_ok (matchName_inside h1), decide_eq_true hmatch]
        show (clearDirent v b o prev >>= _) = _
        rw [hout fun h2 => hno fun _ => ⟨h1, fun _ => h2⟩]
        rfl
      · rw [matchName_outside h1]
        rfl
  · rw [if_neg huse]
    exact ⟨fun _ h => absurd h.1 huse, fun _ _ => rfl, fun h => absurd (fun h => absurd h huse) h⟩

/-- `find_dirent_free_space` at a record. -/
theorem space_looks (required : Nat) :
    LooksAt v (fun _ o =>
      let len := recLen v.beCpu b o
      let actualSize := dirEntrySize (nameLen b o)
      if dIno v.beCpu b o = 0 ∧ required ≤ len then .ok (some (b, o))
      else if len < actualSize ∨ required ≤ len - actualSize then (shrinkDirEntry v b o).map some
      else .ok none)
      (fun o => ¬ FreeFor v b required o → TailFor v b required o →
        splitAt v b o + minDirEntrySize ≤ v.blockSize)
      (fun o => FreeFor v b required o ∨ TailFor v b required o) := by
  intro _ o _
  dsimp only
  -- the length that is set when the record is cut off is the one that leads to its rest
  have hnext : nextPos v.beCpu (st16 v.beCpu b (o + 4)
      (bswap2 v.beCpu (UInt16.ofNat (dirEntrySize (nameLen b o))))) o = splitAt v b o := by
    unfold nextPos splitAt
    rw [ld16_st16]
  by_cases hfree : FreeFor v b required o
  · have hfree' : dIno v.beCpu b o = 0 ∧ required ≤ recLen v.beCpu b o := hfree
    rw [if_pos hfree']
    exact ⟨fun _ _ => ⟨_, rfl⟩, fun _ h => absurd (.inl hfree) h,
      fun h => absurd (fun h => absurd hfree h) h⟩
  · have hfree' : ¬ (dIno v.beCpu b o = 0 ∧ required ≤ recLen v.beCpu b o) := hfree
    rw [if_neg hfree']
    by_cases htail : TailFor v b required o
    · have htail' : recLen v.beCpu b o < dirEntrySize (nameLen b o) ∨
          required ≤ recLen v.beCpu b o - dirEntrySize (nameLen b o) := htail
      rw [if_pos htail']
      unfold shrinkDirEntry
      dsimp only
      rw [hnext]
      -- the record is cut off, and what is left of it gets a header
      refine ⟨fun hin _ => ?_, fun _ h => absurd (.inr htail) h, fun hout => ?_⟩
      · have := hin hfree htail
        rw [if_neg (by omega)]
        exact ⟨_, rfl⟩
      · rw [if_pos (by
          by_contra hle
          exact hout fun _ _ => by omega)]
        rfl
    · have htail' : ¬ (recLen v.beCpu b o < dirEntrySize (nameLen b o) ∨
          required ≤ recLen v.beCpu b o - dirEntrySize (nameLen b o)) := htail
      rw [if_neg htail']
      exact ⟨fun _ h => absurd h (not_or_intro hfree htail), fun _ _ => rfl,
        fun h => absurd (fun _ h => absurd h htail) h⟩

end Looks

/-- The walks over a block of a directory, with what they are given. -/
inductive BlockWalk where
  | lookup (name : List UInt8)
  | space (required : Nat)
  | delete (name : List UInt8)
  | empty
  | list (pos size : Nat) (db : DirentBuf)

/-- How a walk ends. -/
def BlockWalk.outcome (v : Volume) (b : Buf) : BlockWalk → Except Fault Unit
  | lookup name => (lookupDirBlock v b name).map fun _ => ()
  | space required => (findDirentFreeSpace v b required).map fun _ => ()
  | delete name => (searchBlockAndDelete v b name).map fun _ => ()
  | empty => (isDirBlockEmpty v b).map fun _ => ()
  | list pos size db => listBlock v b (pos % v.blockSize) size db

/-- The records that the walk comes to are inside the block, as far as it looks at them,
and it does not go on from one of length 0. -/
def BlockWalk.Bounded (v : Volume) (b : Buf) : BlockWalk → Prop
  | lookup name => Inside v b (fun o => InUse v b o → NameInside v b o name)
      (fun o => InUse v b o ∧ NameMatches b o name)
  | space required => Inside v b (fun o => ¬ FreeFor v b required o → TailFor v b required o →
        splitAt v b o + minDirEntrySize ≤ v.blockSize)
      (fun o => FreeFor v b required o ∨ TailFor v b required o)
  | delete name => Inside v b (fun o => InUse v b o → NameInside v b o name ∧
        (NameMatches b o name → KeepsInoInside v b o))
      (fun o => InUse v b o ∧ NameMatches b o name)
  | empty => Inside v b (fun o => InUse v b o → NameInside v b o [0x2E] ∧
        (¬ NameMatches b o [0x2E] → NameInside v b o [0x2E, 0x2E]))
      (fun o => InUse v b o ∧ ¬ NameMatches b o [0x2E] ∧ ¬ NameMatches b o [0x2E, 0x2E])
  | list pos size db => ListInside v b (pos % v.blockSize) size db

/-- Whatever is in the block, a walk ends or panics without having looked or stored
outside it if and only if the records that it comes to are inside. -/
theorem blockWalk_safe_iff (v : Volume) (b : Buf) (w : BlockWalk) :
    Safe (w.outcome v b) ↔ w.Bounded v b := by
  cases w with
  | lookup name => exact (safe_map _).trans (walkBlock_safe_iff (lookup_looks name))
  | space required => exact (safe_map _).trans (walkBlock_safe_iff (space_looks required))
  | delete name => exact (safe_map _).trans (walkBlock_safe_iff (delete_looks name))
  | empty =>
    refine (safe_map _).trans (Iff.trans ?_ (walkBlock_safe_iff empty_looks))
    exact safe_map Option.isNone
  | list pos size db => exact list_safe_iff (pos % v.blockSize) size db

/-- A block of zeros is a record of length 0, which a lookup never gets past. -/
theorem lookup_zeros_hangs : ¬ Safe (BlockWalk.outcome sampleVolume zeroed (.lookup [0x61])) := by
  have hrun : faultOf (BlockWalk.outcome sampleVolume zeroed (.lookup [0x61])) = some .hang := by
    decide +kernel
  intro h
  cases hout : BlockWalk.outcome sampleVolume zeroed (.lookup [0x61]) with
  | error e =>
    rw [hout] at hrun
    obtain ⟨msg, hmsg⟩ := h e hout
    rw [hmsg] at hrun
    cases hrun
  | ok r =>
    rw [hout] at hrun
    cases hrun

end Cheviot.Ext2
