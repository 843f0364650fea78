import Cheviot.Ext2.Buffers
import Cheviot.Ext2.Groups
import Cheviot.Ext2.MapInsert

/-!
# `put_block` for each `get_block`

Every buffer that a function gets it must give back, as it stays in the cache until then.
There are two places where one is left behind: `alloc_block` goes on to the next group with
the bitmap of group 0 in its hand, and `enter_map_entry` returns `-ENOSPC` from the middle of
its descent with an indirect block in its hand.

Each function is followed along its calls, with what it holds behind it in every case of its
result. Only a call of `alloc_block` leaves something behind, so that an operation is judged by
these calls in its log, each of which has the state it was made in.

* `Moves` (of `Lib.Log`) for each function — which buffers it holds before and behind.
* `allocBlock_moves` — what a call of `alloc_block` leaves behind, by the state of its call.
* `operation_balanced_iff` — when an operation gives every buffer back.
-/

namespace Cheviot.Ext2.Buffers

open Cheviot.Bytes Cheviot.Forest Cheviot.Log Cheviot.Run

/-! ## The account -/

/-- The buffer a call gets. -/
def Call.got : Call → Option Nat
  | .get block => some block
  | _ => none

/-- The buffer a call gives back. -/
def Call.given : Call → Option Nat
  | .put block => some block
  | _ => none

/-- The buffers that calls of `alloc_block` leave behind. -/
def Call.lost (lost : Fs → Option Nat → List Nat) : Call → List Nat
  | .alloc s held => lost s held
  | _ => []

/-- The buffers of the cache, with those that calls of `alloc_block` leave behind. -/
def account (lost : Fs → Option Nat → List Nat) : Account Call Nat where
  got := Call.got
  put := Call.given
  lost := Call.lost lost

variable {v : Volume} {env : Env} {s : Fs} {lost : Fs → Option Nat → List Nat} {held : List Nat}

section Rules

variable {α : Type} {block : Nat} {f : Unit → Op α} {zs : α → List Nat}

theorem getBlock_moves (h : Moves (account lost) (block :: held) (f ()) zs) :
    Moves (account lost) held (getBlock block >>= f) zs := h.get rfl rfl rfl

theorem putBlock_moves (h : Moves (account lost) held (f ()) zs) :
    Moves (account lost) (block :: held) (putBlock block >>= f) zs := h.give rfl rfl rfl

end Rules

/-! ## Functions that hold nothing behind -/

section Quiet

theorem followBlocks_moves {be : Bool} {blk : Nat → Buf} (path : List Nat) : ∀ block,
    Moves (account lost) held (followBlocks be blk block path) fun _ => held := by
  induction path with
  | nil => exact fun _ => .pure rfl
  | cons index path ih =>
    intro block
    unfold followBlocks
    split
    · exact .pure rfl
    · apply getBlock_moves
      apply putBlock_moves
      exact ih _

theorem readMapEntry_moves (blk : Nat → Buf) (odi : OndiskInode) (position : Nat) :
    Moves (account lost) held (readMapEntry v blk odi position) fun _ => held := by
  unfold readMapEntry
  cases calcBlockIndirectionOffsets v position with
  | none => exact .pure rfl
  | some r => exact followBlocks_moves _ _

theorem freeBlock_moves (block : Nat) :
    Moves (account lost) held (freeBlock v env s block) fun _ => held := by
  unfold freeBlock
  dsimp only
  split
  · exact .throw _
  split
  · exact .throw _
  apply Moves.lift
  intro _ _
  apply getBlock_moves
  apply Moves.lift
  intro r _
  cases r with
  | none => exact .throw _
  | some bitmap =>
    apply putBlock_moves
    exact .pure rfl

theorem writeInode_moves (i : Nat) :
    Moves (account lost) held (writeInode v env s i) fun _ => held := by
  unfold writeInode
  dsimp only
  split
  · exact .throw _
  · apply getBlock_moves
    apply putBlock_moves
    exact .pure rfl

theorem allocInodeBit_moves (group : Nat) (isDir : Bool) :
    Moves (account lost) held (allocInodeBit v s group isDir) fun _ => held := by
  unfold allocInodeBit
  split
  · exact .throw _
  split
  · exact .throw _
  apply getBlock_moves
  apply Moves.lift
  intro r _
  cases r with
  | none => exact .throw _
  | some found =>
    obtain ⟨bitmap, bit⟩ := found
    dsimp only
    split
    · exact .throw _
    split
    · exact .throw _
    · apply putBlock_moves
      exact .pure rfl

theorem freeInodeBit_moves (ino : Nat) (isDir : Bool) :
    Moves (account lost) held (freeInodeBit v s ino isDir) fun _ => held := by
  unfold freeInodeBit
  dsimp only
  split
  · exact .throw _
  split
  · exact .throw _
  apply getBlock_moves
  apply Moves.lift
  intro r _
  cases r with
  | none => exact .throw _
  | some bitmap =>
    apply putBlock_moves
    exact .pure rfl

theorem readChunk_moves (i position off chunkSize msgOff room : Nat) :
    Moves (account lost) held (readChunk v s i position off chunkSize msgOff room)
      fun _ => held := by
  unfold readChunk
  apply (readMapEntry_moves _ _ _).bind
  intro block
  dsimp only
  split
  · exact .pure rfl
  · apply getBlock_moves
    apply putBlock_moves
    exact .pure rfl

theorem readLoop_moves (i nrbytes room fuel : Nat) : ∀ position sent,
    Moves (account lost) held (readLoop v s i nrbytes room fuel position sent)
      fun _ => held := by
  induction fuel with
  | zero => exact fun _ _ => .throw _
  | succ fuel ih =>
    intro position sent
    unfold readLoop
    dsimp only
    split
    · split
      · exact .pure rfl
      apply (readChunk_moves _ _ _ _ _ _).bind
      intro r
      cases r with
      | error e => exact .pure rfl
      | ok bytes => exact ih _ _
    · exact .pure rfl

theorem readFile_moves (ino nrbytes position room : Nat) :
    Moves (account lost) held (readFile v s ino nrbytes position room) fun _ => held := by
  unfold readFile
  apply Moves.lift
  intro r _
  cases r with
  | none => exact .pure rfl
  | some i =>
    apply (readLoop_moves _ _ _ _ _ _).bind
    intro r
    cases r <;> exact .pure rfl

end Quiet

/-! ## Directories -/

section Dir

variable {α : Type} {blk : Nat → Buf} {odi : OndiskInode}

theorem getDirBlock_moves (position : Nat) :
    Moves (account lost) held (getDirBlock v blk odi position)
      fun block => block.toList ++ held := by
  unfold getDirBlock
  apply (readMapEntry_moves _ _ _).bind
  intro block
  split
  · exact .pure rfl
  · apply getBlock_moves
    exact .pure rfl

/-- The loop holds the block of its result. -/
theorem walkDir_moves {hole : String} {body : Nat → Except Fault (Option α)} (fuel : Nat) :
    ∀ pos, Moves (account lost) held (walkDir v blk odi hole body fuel pos)
      fun r => (r.map Prod.fst).toList ++ held := by
  induction fuel with
  | zero => exact fun _ => .throw _
  | succ fuel ih =>
    intro pos
    unfold walkDir
    split
    · apply (getDirBlock_moves _).bind
      intro block
      cases block with
      | none => exact .throw _
      | some block =>
        apply Moves.lift
        intro r _
        cases r with
        | some r => exact .pure rfl
        | none =>
          apply putBlock_moves
          exact ih _
    · exact .pure rfl

theorem lookupDir_moves (name : List UInt8) :
    Moves (account lost) held (lookupDir v blk odi name) fun _ => held := by
  unfold lookupDir
  split
  · exact .pure rfl
  apply (walkDir_moves _ _).bind
  intro r
  cases r with
  | some found =>
    obtain ⟨block, ino⟩ := found
    apply putBlock_moves
    exact .pure rfl
  | none => exact .pure rfl

theorem isDirEmpty_moves : Moves (account lost) held (isDirEmpty v blk odi) fun _ => held := by
  unfold isDirEmpty
  apply (walkDir_moves _ _).bind
  intro r
  cases r with
  | some found =>
    obtain ⟨block, _⟩ := found
    apply putBlock_moves
    exact .pure rfl
  | none => exact .pure rfl

theorem enterDirent_moves (i block : Nat) (b : Buf) (o ino : Nat) (name : List UInt8)
    (mode : UInt16) : Moves (account lost) (block :: held)
      (enterDirent v env s i block b o ino name mode) fun _ => held := by
  unfold enterDirent
  apply Moves.lift
  intro b _
  apply putBlock_moves
  exact writeInode_moves _

theorem direntEnter_moves (i : Nat) (name : List UInt8) (ino : Nat) (mode : UInt16) :
    Moves (account lost) held (direntEnter v env s i name ino mode) fun _ => held := by
  unfold direntEnter
  split
  · exact .pure rfl
  apply (walkDir_moves _ _).bind
  intro r
  cases r with
  | some found =>
    obtain ⟨block, b, o⟩ := found
    exact (enterDirent_moves _ _ _ _ _ _ _).bind fun _ => .pure rfl
  | none => exact .pure rfl

theorem direntDelete_moves (i : Nat) (name : List UInt8) :
    Moves (account lost) held (direntDelete v env s i name) fun _ => held := by
  unfold direntDelete
  split
  · exact .pure rfl
  apply (walkDir_moves _ _).bind
  intro r
  cases r with
  | some found =>
    obtain ⟨block, b⟩ := found
    -- `write_inode` comes and goes with the directory block held
    apply (writeInode_moves _).bind
    intro s
    apply putBlock_moves
    exact .pure rfl
  | none => exact .pure rfl

theorem getDirentsLoop_moves (size fuel : Nat) : ∀ pos db,
    Moves (account lost) held (getDirentsLoop v blk odi size fuel pos db) fun _ => held := by
  induction fuel with
  | zero => exact fun _ _ => .throw _
  | succ fuel ih =>
    intro pos db
    unfold getDirentsLoop
    split
    · apply (getDirBlock_moves _).bind
      intro block
      cases block with
      | none => exact .throw _
      | some block =>
        apply Moves.lift
        intro r _
        cases r with
        | none =>
          apply putBlock_moves
          exact ih _ _
        | some o =>
          apply Moves.lift
          intro r _
          apply putBlock_moves
          split
          · exact .pure rfl
          · exact ih _ _
    · exact .pure rfl

theorem getDirents_moves (cookie size : Nat) :
    Moves (account lost) held (getDirents v blk odi cookie size) fun _ => held := by
  unfold getDirents
  split
  · exact .pure rfl
  · exact (getDirentsLoop_moves _ _ _ _).bind fun _ => .pure rfl

end Dir

/-! ## `alloc_block` -/

section Alloc

/-- The first look of `alloc_block`, at group 0, finds nothing: the descriptor counts free
blocks, and the bitmap has none. -/
def FirstLookFails (v : Volume) (s : Fs) : Prop :=
  s.freeBlocksCount ≠ 0 ∧ (s.gd 0).freeBlocksCount ≠ 0 ∧ ¬ HasFreeBlock v s 0

/-- Bit `j` of group `g` is the first free block of the first group that counts any, other
than those without one in the bitmap. -/
structure NextBlock (v : Volume) (s : Fs) (g j : Nat) : Prop where
  group_lt : g < v.groupsCount
  counted : (s.gd g).freeBlocksCount ≠ 0
  lt : j < v.blocksPerGroup
  clear : bbit v s g j = false
  first : ∀ i, i < j → bbit v s g i = true
  before : ∀ h, h < g → (s.gd h).freeBlocksCount ≠ 0 → ¬ HasFreeBlock v s h

/-- `alloc_block` has no block to return: there is none, or it has the number `NO_BLOCK`. -/
def NoBlock (v : Volume) (s : Fs) : Prop :=
  s.freeBlocksCount = 0 ∨ ∀ g j, NextBlock v s g j → blockOf v g j % 2 ^ 32 = noBlock

theorem NextBlock.hasFreeBlock {g j : Nat} (h : NextBlock v s g j) : HasFreeBlock v s g :=
  ⟨j, h.lt, h.clear⟩

theorem NextBlock.unique {g j g' j' : Nat} (h : NextBlock v s g j) (h' : NextBlock v s g' j') :
    g = g' ∧ j = j' := by
  have hg : g = g' := by
    rcases Nat.lt_trichotomy g g' with hlt | heq | hlt
    · exact absurd h.hasFreeBlock (h'.before g hlt h.counted)
    · exact heq
    · exact absurd h'.hasFreeBlock (h.before g' hlt h'.counted)
  subst hg
  refine ⟨rfl, ?_⟩
  rcases Nat.lt_trichotomy j j' with hlt | heq | hlt
  · exact absurd (h'.first j hlt) (by rw [h.clear]; exact Bool.false_ne_true)
  · exact heq
  · exact absurd (h.first j' hlt) (by rw [h'.clear]; exact Bool.false_ne_true)

/-- What the loop returns, with the groups before turn `i` looked at. -/
theorem allocBlockLoop_ends (n : Nat) : ∀ i word, i + n = v.groupsCount + 1 →
    (∀ h, h < i → h < v.groupsCount → (s.gd h).freeBlocksCount ≠ 0 → ¬ HasFreeBlock v s h) →
    Ends (Ext2.allocBlockLoop v s n i word) fun r => r.2 = noBlock ↔
      ∀ g j, NextBlock v s g j → blockOf v g j % 2 ^ 32 = noBlock := by
  induction n with
  | zero =>
    intro i word hi hseen
    -- all groups have been looked at, and none has a free block
    refine .ok (iff_of_true rfl fun g j hnext => ?_)
    have hlt := hnext.group_lt
    exact absurd hnext.hasFreeBlock (hseen g (by omega) hlt hnext.counted)
  | succ n ih =>
    intro i word hi hseen
    unfold Ext2.allocBlockLoop
    dsimp only
    split
    · exact .error _
    next hgroup =>
    split
    next hzero =>
      -- a group that counts no free block is passed over
      refine ih (i + 1) 0 (by omega) fun h hh hlt hcount => ?_
      rcases Nat.lt_or_eq_of_le (Nat.le_of_lt_succ hh) with hlt' | rfl
      · exact hseen h hlt' hlt hcount
      · rw [Nat.mod_eq_of_lt hlt] at hzero
        exact absurd hzero hcount
    next hcount =>
      refine (allocBit_ends _ _ _ _ _).bind fun r hr => ?_
      cases hr with
      | found j _ hj hclear hfirst =>
        -- the block found is the next one, as no group before has any
        have hnext : NextBlock v s (i % v.groupsCount) j := by
          refine ⟨Nat.lt_of_not_le hgroup, hcount, hj, hclear, fun k hk => ?_, fun h hh => ?_⟩
          · exact hfirst k (by omega) hk
          · have hle : i % v.groupsCount ≤ i := Nat.mod_le _ _
            exact hseen h (by omega) (by omega)
        refine Ends.bind (P := fun _ => True) (fun _ _ => trivial) fun _ _ => .ok ?_
        refine ⟨fun hno g k hk => ?_, fun hall => hall _ j hnext⟩
        obtain ⟨rfl, rfl⟩ := hk.unique hnext
        exact hno
      | full hset =>
        dsimp only
        split
        · exact .error _
        next hfirst =>
          -- the first look, at group 0
          obtain rfl : i = 0 := Decidable.not_not.mp hfirst
          refine ih 1 word (by omega) fun h hh hlt _ hfree => ?_
          obtain rfl : h = 0 := by omega
          obtain ⟨j, hj, hclear⟩ := hfree
          have hbit := hset j (Nat.zero_le _) hj
          rw [Nat.zero_mod] at hbit
          exact Bool.false_ne_true (hclear.symm.trans hbit)

/-- What `alloc_block` returns, by the state it is called in. -/
theorem allocBlock_ends (ino goal : Nat) :
    Ends (Ext2.allocBlock v env s ino goal) fun r => r.2 = noBlock ↔ NoBlock v s := by
  unfold Ext2.allocBlock
  split
  next hzero => exact .ok (iff_of_true rfl (.inl hzero))
  next hcount =>
    refine (allocBlockLoop_ends _ _ _ (by omega) fun h hh => absurd hh (Nat.not_lt_zero h)).mono
      fun r hr => ?_
    rw [hr, NoBlock, or_iff_right hcount]

/-- From the second turn on the loop gives back what it gets. -/
theorem allocBlockLoop_moves (n : Nat) : ∀ i word, 0 < i →
    Moves (account lost) held (allocBlockLoop v s n i word) fun _ => held := by
  induction n with
  | zero => exact fun _ _ _ => .pure rfl
  | succ n ih =>
    intro i word hi
    unfold allocBlockLoop
    dsimp only
    split
    · exact .throw _
    split
    · exact ih _ _ (Nat.succ_pos i)
    apply getBlock_moves
    apply Moves.lift
    intro r _
    cases r with
    | some found =>
      obtain ⟨bitmap, bit⟩ := found
      apply Moves.lift
      intro _ _
      apply putBlock_moves
      exact .pure rfl
    | none =>
      dsimp only
      rw [if_pos (Nat.ne_of_gt hi)]
      exact .throw _

open scoped Classical in
/-- The first look may keep the bitmap of group 0. -/
theorem allocBlockLoop_first_moves (hcount : s.freeBlocksCount ≠ 0) (n word : Nat) :
    Moves (account lost) held (allocBlockLoop v s (n + 1) 0 word) fun _ =>
      (if FirstLookFails v s then [v.blockBitmap 0] else []) ++ held := by
  unfold allocBlockLoop
  rw [Nat.zero_mod]
  dsimp only
  split
  · exact .throw _
  split
  next hzero =>
    have hkeeps : ¬ FirstLookFails v s := fun h => h.2.1 hzero
    rw [if_neg hkeeps]
    exact allocBlockLoop_moves _ _ _ (Nat.succ_pos 0)
  next hne =>
  apply getBlock_moves
  apply Moves.lift
  intro r hr
  have hres := allocBit_ends _ _ _ _ _ r hr
  cases hres with
  | found j _ hj hclear hfirst =>
    have hkeeps : ¬ FirstLookFails v s := fun h => h.2.2 ⟨j, hj, hclear⟩
    rw [if_neg hkeeps]
    apply Moves.lift
    intro _ _
    apply putBlock_moves
    exact .pure rfl
  | full hset =>
    have hfails : FirstLookFails v s := by
      refine ⟨hcount, hne, ?_⟩
      rintro ⟨j, hj, hclear⟩
      have hbit := hset j (Nat.zero_le _) hj
      exact Bool.false_ne_true (hclear.symm.trans hbit)
    rw [if_pos hfails]
    exact allocBlockLoop_moves _ _ _ (Nat.succ_pos 0)

open scoped Classical in
theorem allocBlockBody_moves (ino goal : Nat) :
    Moves (account lost) held (allocBlockBody v env s ino goal) fun _ =>
      (if FirstLookFails v s then [v.blockBitmap 0] else []) ++ held := by
  unfold allocBlockBody
  split
  next hzero =>
    have hkeeps : ¬ FirstLookFails v s := fun h => h.1 hzero
    rw [if_neg hkeeps]
    exact .pure rfl
  next hcount => exact allocBlockLoop_first_moves hcount _ _

open scoped Classical in
/-- What a call of `alloc_block` leaves behind: the bitmap of group 0, if the first look
fails, and the buffer its caller holds, if there is no block. -/
noncomputable def lostAt (v : Volume) (s : Fs) (held : Option Nat) : List Nat :=
  (if FirstLookFails v s then [v.blockBitmap 0] else []) ++ if NoBlock v s then held.toList else []

theorem allocBlock_moves (ino goal : Nat) (p : Option Nat) :
    Moves (account (lostAt v)) (p.toList ++ held) (allocBlock v env s ino goal p) fun r =>
      (if r.2 = noBlock then [] else p.toList) ++ held := by
  refine (allocBlockBody_moves ino goal).note rfl rfl fun r hr block => ?_
  have hvalue : Ext2.allocBlock v env s ino goal = .ok r :=
    (value_allocBlock ino goal p).symm.trans (value_call hr)
  have hno := allocBlock_ends ino goal r hvalue
  change _ = (lostAt v s p).count block + _
  unfold lostAt
  rw [List.count_append, List.count_append, List.count_append, List.count_append]
  by_cases h : NoBlock v s
  · rw [if_pos h, if_pos (hno.mpr h), List.count_nil]
    omega
  · rw [if_neg h, if_neg fun hb => h (hno.mp hb), List.count_nil]
    omega

/-- A call of `alloc_block` without a buffer held. -/
theorem allocBlock_moves_none (ino goal : Nat) :
    Moves (account (lostAt v)) held (allocBlock v env s ino goal none) fun _ => held := by
  have h := @allocBlock_moves v env s held ino goal none
  simpa only [Option.toList_none, List.nil_append, ite_self] using h

end Alloc

/-! ## Functions with a call of `alloc_block` -/

section Enter

theorem enterIndirect_moves (i newBlock : Nat) (path : List Nat) : ∀ s block,
    Moves (account (lostAt v)) held (enterIndirect v env i newBlock s block path)
      fun _ => held := by
  induction path with
  | nil => exact fun _ _ => .pure rfl
  | cons index path ih =>
    intro s block
    cases path with
    | nil =>
      apply getBlock_moves
      apply putBlock_moves
      exact .pure rfl
    | cons index' path =>
      unfold enterIndirect
      apply getBlock_moves
      dsimp only
      split
      · apply (allocBlock_moves _ _ (some block)).bind
        intro r
        obtain ⟨s, next⟩ := r
        dsimp only
        split
        next hno => exact .pure rfl
        next hno =>
          apply getBlock_moves
          apply putBlock_moves
          apply putBlock_moves
          exact ih _ _
      · apply putBlock_moves
        exact ih _ _

theorem enterMapEntry_moves (i position newBlock : Nat) :
    Moves (account (lostAt v)) held (enterMapEntry v env s i position newBlock)
      fun _ => held := by
  unfold enterMapEntry
  cases calcBlockIndirectionOffsets v position with
  | none => exact .pure rfl
  | some r =>
  dsimp only
  split
  · exact .pure rfl
  split
  · apply (allocBlock_moves_none _ _).bind
    intro r
    split
    · exact .pure rfl
    · apply getBlock_moves
      apply putBlock_moves
      exact enterIndirect_moves _ _ _ _ _
  · exact enterIndirect_moves _ _ _ _ _

/-- `new_block` holds the block it returns. -/
theorem newBlock_moves (i position : Nat) :
    Moves (account (lostAt v)) held (newBlock v env s i position)
      fun r => r.2.toList ++ held := by
  unfold newBlock
  apply (readMapEntry_moves _ _ _).bind
  intro block
  split
  · apply (allocBlock_moves_none _ _).bind
    intro r
    dsimp only
    split
    · exact .pure rfl
    apply (enterMapEntry_moves _ _ _).bind
    intro r
    obtain ⟨s, sc⟩ := r
    cases sc with
    | error e => exact (freeBlock_moves _).bind fun _ => .pure rfl
    | ok _ =>
      apply getBlock_moves
      exact .pure rfl
  · apply getBlock_moves
    exact .pure rfl

theorem chunkBuffer_moves (i position off chunkSize : Nat) :
    Moves (account (lostAt v)) held (chunkBuffer v env s i position off chunkSize)
      fun r => r.2.toList ++ held := by
  unfold chunkBuffer
  apply (readMapEntry_moves _ _ _).bind
  intro block
  split
  · exact newBlock_moves _ _
  split
  · apply getBlock_moves
    exact .pure rfl
  split
  · apply getBlock_moves
    exact .pure rfl
  · apply getBlock_moves
    exact .pure rfl

theorem writeChunk_moves (i position off chunkSize : Nat) (msg : List UInt8) (msgOff : Nat) :
    Moves (account (lostAt v)) held (writeChunk v env s i position off chunkSize msg msgOff)
      fun _ => held := by
  unfold writeChunk
  apply (chunkBuffer_moves _ _ _ _).bind
  intro r
  obtain ⟨s, buf⟩ := r
  cases buf with
  | none => exact .pure rfl
  | some block =>
    apply putBlock_moves
    exact .pure rfl

theorem writeLoop_moves (i : Nat) (msg : List UInt8) (fuel : Nat) :
    ∀ s nbytes position total, Moves (account (lostAt v)) held
      (writeLoop v env i msg fuel s nbytes position total) fun _ => held := by
  induction fuel with
  | zero => exact fun _ _ _ _ => .throw _
  | succ fuel ih =>
    intro s nbytes position total
    unfold writeLoop
    split
    · exact .pure rfl
    apply (writeChunk_moves _ _ _ _ _ _).bind
    intro r
    obtain ⟨s, sc⟩ := r
    cases sc with
    | error e => exact .pure rfl
    | ok _ => exact ih _ _ _ _

theorem writeFile_moves (ino nbytes position : Nat) (msg : List UInt8) :
    Moves (account (lostAt v)) held (writeFile v env s ino nbytes position msg)
      fun _ => held := by
  unfold writeFile
  apply Moves.lift
  intro r _
  cases r with
  | none => exact .pure rfl
  | some i =>
    dsimp only
    split
    · exact .pure rfl
    apply (writeLoop_moves _ _ _ _ _ _ _).bind
    intro r
    obtain ⟨s, position, total, sc⟩ := r
    cases sc with
    | error e => exact .pure rfl
    | ok _ => exact (writeInode_moves _).bind fun _ => .pure rfl

end Enter

/-! ## Operations -/

section Operations

/-- The operations, on cache slots where they are given an inode. -/
inductive Operation where
  | newBlock (i position : Nat)
  | writeFile (ino nbytes position : Nat) (msg : List UInt8)
  | readFile (ino nrbytes position room : Nat)
  | lookupDir (i : Nat) (name : List UInt8)
  | direntEnter (i : Nat) (name : List UInt8) (ino : Nat) (mode : UInt16)
  | direntDelete (i : Nat) (name : List UInt8)
  | isDirEmpty (i : Nat)
  | getDirents (i cookie size : Nat)
  | allocInodeBit (group : Nat) (isDir : Bool)
  | freeInodeBit (ino : Nat) (isDir : Bool)

/-- An operation with its calls, and the block whose buffer it returns: that of `new_block` is
for its caller to give back. -/
def perform (v : Volume) (env : Env) (s : Fs) : Operation → Op (Option Nat)
  | .newBlock i position => do
    let (_, buf) ← newBlock v env s i position
    return buf
  | .writeFile ino nbytes position msg => do
    let _ ← writeFile v env s ino nbytes position msg
    return none
  | .readFile ino nrbytes position room => do
    let _ ← readFile v s ino nrbytes position room
    return none
  | .lookupDir i name => do
    let _ ← lookupDir v s.blk (s.slot i).odi name
    return none
  | .direntEnter i name ino mode => do
    let _ ← direntEnter v env s i name ino mode
    return none
  | .direntDelete i name => do
    let _ ← direntDelete v env s i name
    return none
  | .isDirEmpty i => do
    let _ ← isDirEmpty v s.blk (s.slot i).odi
    return none
  | .getDirents i cookie size => do
    let _ ← getDirents v s.blk (s.slot i).odi cookie size
    return none
  | .allocInodeBit group isDir => do
    let _ ← allocInodeBit v s group isDir
    return none
  | .freeInodeBit ino isDir => do
    let _ ← freeInodeBit v s ino isDir
    return none

/-- The operations that add blocks to a file. -/
def Operation.AddsBlocks : Operation → Prop
  | .newBlock .. => True
  | .writeFile .. => True
  | _ => False

/-- Each buffer was given back as often as it was got, but for the one that is returned. -/
def Balanced (log : List Call) (buf : Option Nat) : Prop :=
  ∀ block, (log.filterMap Call.got).count block =
    (log.filterMap Call.given).count block + buf.toList.count block

/-- The calls of `alloc_block` that leave nothing behind: the first look does not fail, and if
there is no block, the caller holds no buffer. -/
def AllocKeeps (v : Volume) (s : Fs) (held : Option Nat) : Prop :=
  ¬ FirstLookFails v s ∧ (NoBlock v s → held = none)

theorem lostAt_eq_nil_iff {p : Option Nat} : lostAt v s p = [] ↔ AllocKeeps v s p := by
  unfold lostAt AllocKeeps
  rw [List.append_eq_nil_iff]
  refine and_congr ?_ ?_
  · split <;> simp_all
  · split <;> simp_all

/-- On a consistent volume the first look does not fail, and there is no block only when all
are in use. -/
theorem allocKeeps_iff (hv : BlockGeom v) (hs : BlockConsistent v s) {p : Option Nat} :
    AllocKeeps v s p ↔ (∃ g, g < v.groupsCount ∧ HasFreeBlock v s g) ∨ p = none := by
  have hlook : ¬ FirstLookFails v s :=
    fun h => h.2.2 ((hasFreeBlock_iff hs (groupsCount_pos hv)).mpr h.2.1)
  have hno : NoBlock v s ↔ ¬ ∃ g, g < v.groupsCount ∧ HasFreeBlock v s g := by
    rcases allocBlock_spec hv hs sampleEnv 0 0 with
      ⟨hrun, hfull⟩ | ⟨g, i, hg, hi, hclear, hdata, hrun⟩
    · refine iff_of_true ((allocBlock_ends 0 0 _ hrun).mp rfl) ?_
      rintro ⟨g, hg, i, hi, hclear⟩
      exact Bool.false_ne_true (hclear.symm.trans (hfull g i hg hi))
    · refine iff_of_false (fun h => ?_) (not_not_intro ⟨g, hg, i, hi, hclear⟩)
      exact hdata.ne_noBlock ((allocBlock_ends 0 0 _ hrun).mpr h)
  rw [AllocKeeps, and_iff_right hlook, hno, ← or_iff_not_imp_left]

/-- The operations that add no blocks leave none behind, whatever calls of `alloc_block` would. -/
theorem quiet_moves {op : Operation} (hop : ¬ op.AddsBlocks) :
    Moves (account lost) [] (perform v env s op) fun buf => buf.toList := by
  cases op with
  | newBlock => exact absurd trivial hop
  | writeFile => exact absurd trivial hop
  | readFile => exact (readFile_moves _ _ _ _).bind fun _ => .pure rfl
  | lookupDir => exact (lookupDir_moves _).bind fun _ => .pure rfl
  | direntEnter => exact (direntEnter_moves _ _ _ _).bind fun _ => .pure rfl
  | direntDelete => exact (direntDelete_moves _ _).bind fun _ => .pure rfl
  | isDirEmpty => exact isDirEmpty_moves.bind fun _ => .pure rfl
  | getDirents => exact (getDirents_moves _ _).bind fun _ => .pure rfl
  | allocInodeBit => exact (allocInodeBit_moves _ _).bind fun _ => .pure rfl
  | freeInodeBit => exact (freeInodeBit_moves _ _).bind fun _ => .pure rfl

theorem operation_moves (op : Operation) :
    Moves (account (lostAt v)) [] (perform v env s op) fun buf => buf.toList := by
  by_cases hop : op.AddsBlocks
  · cases op with
    | newBlock i position =>
      refine (newBlock_moves i position).bind fun r => .pure ?_
      exact List.append_nil _
    | writeFile => exact (writeFile_moves _ _ _ _).bind fun _ => .pure rfl
    | _ => exact hop.elim
  · exact quiet_moves hop

/-- An operation that ends gives all buffers back if and only if each of its calls of
`alloc_block` leaves nothing behind. Only `new_block` and `write_file` ever fail to. -/
theorem operation_balanced_iff {op : Operation} {buf : Option Nat} {log : List Call}
    (hrun : (perform v env s op).run = .ok (buf, log)) :
    (Balanced log buf ↔ ∀ t held, .alloc t held ∈ log → AllocKeeps v t held) ∧
      (¬ op.AddsBlocks → Balanced log buf) := by
  constructor
  · refine ((operation_moves op).balanced_iff hrun).trans ?_
    constructor
    · exact fun h t p hmem => lostAt_eq_nil_iff.mp (h _ hmem)
    · intro h k hmem
      cases k with
      | get block => rfl
      | put block => rfl
      | alloc t p => exact lostAt_eq_nil_iff.mpr (h t p hmem)
  · intro hop
    have hquiet : Moves (account fun _ _ => []) [] (perform v env s op) fun buf => buf.toList :=
      quiet_moves hop
    refine (hquiet.balanced_iff hrun).mpr fun k _ => ?_
    cases k <;> rfl

/-! ### A file with an empty indirect block -/

/-- The small volume with one free block, and a file that has block 20 for its double
indirect block, with no entry in it. -/
def sampleIndirectFs : Fs := setBlockEntry sampleFullFs 0 dindBlock 20

/-- The first block below it needs two blocks. `new_block` finds one of them and gives it back,
and leaves the buffer of block 20 behind. -/
theorem sampleIndirectFs_run : ∃ log,
    (perform sampleVolume sampleEnv sampleIndirectFs (.newBlock 0 274432)).run = .ok (none, log) ∧
      (log.filterMap Call.got).count 20 = 2 ∧ (log.filterMap Call.given).count 20 = 1 := by
  have hcounts : (perform sampleVolume sampleEnv sampleIndirectFs
      (.newBlock 0 274432)).run.toOption.map (fun p => (p.1, (p.2.filterMap Call.got).count 20,
        (p.2.filterMap Call.given).count 20)) = some (none, 2, 1) := by decide +kernel
  generalize (perform sampleVolume sampleEnv sampleIndirectFs
    (.newBlock 0 274432)).run = r at hcounts
  match r, hcounts with
  | .ok (buf, log), h =>
    change some (buf, _, _) = _ at h
    rw [Option.some.injEq, Prod.mk.injEq, Prod.mk.injEq] at h
    obtain ⟨rfl, hgot, hgiven⟩ := h
    exact ⟨log, rfl, hgot, hgiven⟩

/-- `operation_balanced_iff` there. -/
theorem operation_balanced_iff_sample : ∃ log,
    (perform sampleVolume sampleEnv sampleIndirectFs (.newBlock 0 274432)).run = .ok (none, log) ∧
      (Balanced log none ↔ ∀ t held, .alloc t held ∈ log → AllocKeeps sampleVolume t held) := by
  obtain ⟨log, hrun, -, -⟩ := sampleIndirectFs_run
  exact ⟨log, hrun, (operation_balanced_iff hrun).1⟩

/-- On a consistent volume, a buffer that is not given back. -/
theorem operation_not_balanced : BlockConsistent sampleVolume sampleIndirectFs ∧ ∃ log,
    (perform sampleVolume sampleEnv sampleIndirectFs (.newBlock 0 274432)).run = .ok (none, log) ∧
      ¬ Balanced log none := by
  obtain ⟨log, hrun, hgot, hgiven⟩ := sampleIndirectFs_run
  refine ⟨⟨by decide, by decide, by decide, by decide⟩, log, hrun, fun hbalanced => ?_⟩
  have hcount := hbalanced 20
  rw [hgot, hgiven] at hcount
  exact absurd hcount (by decide)

end Operations

end Cheviot.Ext2.Buffers
