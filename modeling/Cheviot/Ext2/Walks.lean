import Cheviot.Lib.Loop
import Cheviot.Ext2.Dir

/-!
# The records a walk over a directory goes through

The loops of `Dir` as loops over explicit states: `walkRecords` over the record it
is at and the one before (`recordStep`), `walkBlocks` over the position in the
directory (`blockStep`). `walkedRecords` and `walkedBlocks` are the states they go
through.

`CameTo` says the same in terms of the directory alone: the records from the first
on, as far as `pass` lets the walk go past them, one record length after the other,
the lengths as they are stored.
-/

namespace Cheviot.Ext2

open Cheviot.Bytes Cheviot.Loop

/-! ## One block -/

section Records

variable {α : Type}

/-- One round of `walkRecords`. All offsets from the end of the block on are one. -/
def recordStep (v : Volume) (b : Buf) (body : Option Nat → Nat → Except Fault (Option α)) :
    Option Nat × Nat → (Option Nat × Nat) ⊕ Except Fault (Option α)
  | (prev, o) =>
    if o < v.blockSize then
      if v.blockSize < o + minDirEntrySize then .inr (.error .outOfBounds)
      else
        match body prev o with
        | .ok none => .inl (some o, min (nextPos v.beCpu b o) v.blockSize)
        | r => .inr r
    else .inr (.ok none)

/-- The records of a block that a walk goes through, each with the one before. -/
def walkedRecords (v : Volume) (b : Buf) (body : Option Nat → Nat → Except Fault (Option α)) :
    List (Option Nat × Nat) :=
  visited (recordStep v b body) (v.blockSize + 1) (none, 0)

variable {v : Volume} {b : Buf} {body : Option Nat → Nat → Except Fault (Option α)}
  {prev : Option Nat} {o : Nat}

theorem recordStep_end (prev : Option Nat) (h : v.blockSize ≤ o) :
    recordStep v b body (prev, o) = .inr (.ok none) := if_neg (by omega)

theorem recordStep_header (prev : Option Nat) (h : o < v.blockSize)
    (hout : v.blockSize < o + minDirEntrySize) :
    recordStep v b body (prev, o) = .inr (.error .outOfBounds) := by
  rw [recordStep, if_pos h, if_pos hout]

theorem recordStep_pass (hin : o + minDirEntrySize ≤ v.blockSize) (h : body prev o = .ok none) :
    recordStep v b body (prev, o) = .inl (some o, min (nextPos v.beCpu b o) v.blockSize) := by
  rw [recordStep, if_pos (by rw [minDirEntrySize] at hin; omega), if_neg (by omega), h]

theorem recordStep_stop (hin : o + minDirEntrySize ≤ v.blockSize) (h : body prev o ≠ .ok none) :
    recordStep v b body (prev, o) = .inr (body prev o) := by
  rw [recordStep, if_pos (by rw [minDirEntrySize] at hin; omega), if_neg (by omega)]
  cases hb : body prev o with
  | error e => rfl
  | ok r =>
    cases r with
    | none => exact absurd hb h
    | some a => rfl

/-- A round goes on only from a record that `body` goes past. -/
theorem recordStep_inl {t : Option Nat × Nat} (h : recordStep v b body (prev, o) = .inl t) :
    o + minDirEntrySize ≤ v.blockSize ∧ body prev o = .ok none ∧
      t = (some o, min (nextPos v.beCpu b o) v.blockSize) := by
  rcases Nat.lt_or_ge o v.blockSize with ho | ho
  · rcases Nat.lt_or_ge v.blockSize (o + minDirEntrySize) with hout | hin
    · rw [recordStep_header prev ho hout] at h
      cases h
    · by_cases hb : body prev o = .ok none
      · rw [recordStep_pass hin hb] at h
        cases h
        exact ⟨hin, hb, rfl⟩
      · rw [recordStep_stop hin hb] at h
        cases h
  · rw [recordStep_end prev ho] at h
    cases h

/-- The loop over the records of a block. -/
theorem walkRecords_eq_run (fuel : Nat) (prev : Option Nat) (o : Nat) :
    walkRecords v b body fuel prev o =
      run (.error .hang) (recordStep v b body) fuel (prev, min o v.blockSize) := by
  induction fuel generalizing prev o with
  | zero => rfl
  | succ fuel ih =>
    rw [walkRecords]
    rcases Nat.lt_or_ge o v.blockSize with ho | ho
    · rw [if_pos ho, Nat.min_eq_left (by omega)]
      rcases Nat.lt_or_ge v.blockSize (o + minDirEntrySize) with hout | hin
      · rw [if_pos hout, run_done (recordStep_header prev ho hout)]
      · rw [if_neg (by omega)]
        by_cases hb : body prev o = .ok none
        · rw [run_next (recordStep_pass hin hb), bind_of_ok hb]
          exact ih _ _
        · rw [run_done (recordStep_stop hin hb)]
          cases hr : body prev o with
          | error e => rfl
          | ok r =>
            cases r with
            | none => exact absurd hr hb
            | some a => rfl
    · rw [if_neg (by omega), Nat.min_eq_right ho, run_done (recordStep_end prev (Nat.le_refl _))]

theorem walkBlock_eq_run : walkBlock v b body =
    run (.error .hang) (recordStep v b body) (v.blockSize + 1) (none, 0) := by
  rw [walkBlock, walkRecords_eq_run, Nat.zero_min]

end Records

/-! ## All blocks -/

section Blocks

variable {α : Type}

/-- One round of `walkBlocks`, at a position of the directory. -/
def blockStep (v : Volume) (blk : Nat → Buf) (odi : OndiskInode) (hole : String)
    (body : Nat → Except Fault (Option α)) (pos : Nat) : Nat ⊕ Except Fault (Option α) :=
  if pos < odi.size.toNat then
    let block := readMapEntry v blk odi pos
    if block = noBlock then .inr (.error (.panic hole))
    else
      match body block with
      | .ok none => .inl (pos + v.blockSize)
      | r => .inr r
  else .inr (.ok none)

/-- The positions that a walk over the blocks of a directory goes through. -/
def walkedBlocks (v : Volume) (blk : Nat → Buf) (odi : OndiskInode) (hole : String)
    (body : Nat → Except Fault (Option α)) : List Nat :=
  visited (blockStep v blk odi hole body) (odi.size.toNat + 1) 0

variable {v : Volume} {blk : Nat → Buf} {odi : OndiskInode} {hole : String}
  {body : Nat → Except Fault (Option α)} {pos : Nat}

theorem blockStep_end (h : odi.size.toNat ≤ pos) :
    blockStep v blk odi hole body pos = .inr (.ok none) := if_neg (by omega)

theorem blockStep_hole (h : pos < odi.size.toNat) (hb : readMapEntry v blk odi pos = noBlock) :
    blockStep v blk odi hole body pos = .inr (.error (.panic hole)) := by
  simp only [blockStep, if_pos h, if_pos hb]

theorem blockStep_pass (h : pos < odi.size.toNat) (hb : readMapEntry v blk odi pos ≠ noBlock)
    (hr : body (readMapEntry v blk odi pos) = .ok none) :
    blockStep v blk odi hole body pos = .inl (pos + v.blockSize) := by
  simp only [blockStep, if_pos h, if_neg hb, hr]

theorem blockStep_stop (h : pos < odi.size.toNat) (hb : readMapEntry v blk odi pos ≠ noBlock)
    (hr : body (readMapEntry v blk odi pos) ≠ .ok none) :
    blockStep v blk odi hole body pos = .inr (body (readMapEntry v blk odi pos)) := by
  rw [blockStep, if_pos h]
  simp only [if_neg hb]

theorem blockStep_inl {t : Nat} (h : blockStep v blk odi hole body pos = .inl t) :
    pos < odi.size.toNat ∧ readMapEntry v blk odi pos ≠ noBlock ∧
      body (readMapEntry v blk odi pos) = .ok none ∧ t = pos + v.blockSize := by
  rcases Nat.lt_or_ge pos odi.size.toNat with hpos | hpos
  · by_cases hb : readMapEntry v blk odi pos = noBlock
    · rw [blockStep_hole hpos hb] at h
      cases h
    · by_cases hr : body (readMapEntry v blk odi pos) = .ok none
      · rw [blockStep_pass hpos hb hr] at h
        cases h
        exact ⟨hpos, hb, hr, rfl⟩
      · rw [blockStep_stop hpos hb hr] at h
        cases h
  · rw [blockStep_end hpos] at h
    cases h

/-- The loop over the blocks of a directory. -/
theorem walkDir_eq_run (fuel pos : Nat) : walkDir v blk odi hole body fuel pos =
    run (.error .hang) (blockStep v blk odi hole body) fuel pos := by
  induction fuel generalizing pos with
  | zero => rfl
  | succ fuel ih =>
    simp only [walkDir]
    rcases Nat.lt_or_ge pos odi.size.toNat with hpos | hpos
    · rw [if_pos hpos]
      by_cases hb : readMapEntry v blk odi pos = noBlock
      · rw [if_pos hb, run_done (blockStep_hole hpos hb)]
      · rw [if_neg hb]
        by_cases hr : body (readMapEntry v blk odi pos) = .ok none
        · rw [run_next (blockStep_pass hpos hb hr), bind_of_ok hr]
          exact ih _
        · rw [run_done (blockStep_stop hpos hb hr)]
          cases hbody : body (readMapEntry v blk odi pos) with
          | error e => rfl
          | ok r =>
            cases r with
            | none => exact absurd hbody hr
            | some a => rfl
    · rw [if_neg (by omega), run_done (blockStep_end hpos)]

theorem walkBlocks_eq_run : walkBlocks v blk odi hole body =
    run (.error .hang) (blockStep v blk odi hole body) (odi.size.toNat + 1) 0 :=
  walkDir_eq_run _ _

end Blocks

/-! ## The same from the directory alone -/

/-- The offsets a walk over the records of a block of `size` bytes comes to: the first, and behind
each record that it goes past the next. -/
inductive CameTo (size : Nat) (b : Buf) (pass : Nat → Prop) : Nat → Prop
  | first : CameTo size b pass 0
  | next {o : Nat} (h : CameTo size b pass o) (hin : o + minDirEntrySize ≤ size)
      (hpass : pass o) : CameTo size b pass (o + recLen false b o)

/-- The positions a walk over the blocks of a directory comes to: the first, and
behind each block that it goes through to the end the next. -/
inductive CameToBlock (v : Volume) (blk : Nat → Buf) (odi : OndiskInode)
    (pass : Nat → Nat → Prop) : Nat → Prop
  | first : CameToBlock v blk odi pass 0
  | next {pos o : Nat} (h : CameToBlock v blk odi pass pos) (hpos : pos < odi.size.toNat)
      (hb : readMapEntry v blk odi pos ≠ noBlock)
      (ho : CameTo v.blockSize (blk (readMapEntry v blk odi pos))
        (pass (readMapEntry v blk odi pos)) o)
      (hend : v.blockSize ≤ o) : CameToBlock v blk odi pass (pos + v.blockSize)

end Cheviot.Ext2
