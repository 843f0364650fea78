import Cheviot.Lib.Run
import Cheviot.Ext2.BlockMap

/-!
# Directory records: `dir_lookup.c`, `dir_enter.c`, `dir_delete.c`, `dir_isempty.c`

A directory block is a row of records, each of which says how long it is. The
four files share two loops: one over the blocks of the directory (`walkDir`), one
over the records of a block (`walkRecords`).

Mirroring notes:
- `NEXT_DISC_DIR_DESC` and `NEXT_DISC_DIR_POS` go by `d_rec_len` as the host loads
  it (`nextPos`), everything else by `bswap2 (d_rec_len)` (`recLen`).
- The header of a record is checked against the end of the block as a whole; the
  bytes of a name one by one, as they are looked at.
- A walk that comes upon a record of length 0 stays there for ever. A step
  forward is at least one byte, so the fuel is one more than the bytes of a block.
- A name is the bytes in front of its NUL.
- `enter_dirent` is only called with a record, so `extend_directory` is never
  reached.
-/

namespace Cheviot.Ext2

open Cheviot.Bytes Cheviot.Run

/-! ## The members of a record -/

/-- `MIN_DIR_ENTRY_SIZE`, the size of a record in front of its name. -/
def minDirEntrySize : Nat := 8

/-- `MIN_DIR_ENTRY_SIZE + n` rounded up, `DIR_ENTRY_ACTUAL_SIZE` of a name of `n` bytes. -/
def dirEntrySize (n : Nat) : Nat :=
  let contents := minDirEntrySize + n
  contents + if contents % 4 = 0 then 0 else 4 - contents % 4

theorem dirEntrySize_eq (n : Nat) : dirEntrySize n = (n + 11) / 4 * 4 := by
  have hmin : minDirEntrySize = 8 := rfl
  unfold dirEntrySize
  by_cases h : (minDirEntrySize + n) % 4 = 0
  · simp only [if_pos h]
    omega
  · simp only [if_neg h]
    omega

section Members

variable (be : Bool) (b : Buf) (o : Nat)

/-- `d_ino`, as the host loads it. -/
def dIno : UInt32 := ld32 be b o

/-- `bswap2 (d_rec_len)`. -/
def recLen : Nat := (bswap2 be (ld16 be b (o + 4))).toNat

/-- `NEXT_DISC_DIR_POS`. -/
def nextPos : Nat := o + (ld16 be b (o + 4)).toNat

/-- `d_name_len`. -/
def nameLen : Nat := (b (o + 6)).toNat

end Members

/-! ## The loops -/

/-- The loop over the records of a block, from offset `o` on, which `body` may
leave with a result. It is given the record before, if any. -/
def walkRecords {α : Type} (v : Volume) (b : Buf)
    (body : Option Nat → Nat → Except Fault (Option α)) :
    Nat → Option Nat → Nat → Except Fault (Option α)
  | 0, _, _ => .error .hang
  | fuel + 1, prev, o =>
    if o < v.blockSize then
      if v.blockSize < o + minDirEntrySize then .error .outOfBounds
      else do
        match ← body prev o with
        | some r => return some r
        | none => walkRecords v b body fuel (some o) (nextPos v.beCpu b o)
    else .ok none

/-- All records of a block. -/
def walkBlock {α : Type} (v : Volume) (b : Buf)
    (body : Option Nat → Nat → Except Fault (Option α)) : Except Fault (Option α) :=
  walkRecords v b body (v.blockSize + 1) none 0

/-- The loop over the blocks of a directory, from position `pos` on, which `body`
may leave with a result. -/
def walkDir {α : Type} (v : Volume) (blk : Nat → Buf) (odi : OndiskInode) (hole : String)
    (body : Nat → Except Fault (Option α)) : Nat → Nat → Except Fault (Option α)
  | 0, _ => .error .hang
  | fuel + 1, pos =>
    if pos < odi.size.toNat then
      -- `get_dir_block`
      let block := readMapEntry v blk odi pos
      if block = noBlock then .error (.panic hole)
      else do
        match ← body block with
        | some r => return some r
        | none => walkDir v blk odi hole body fuel (pos + v.blockSize)
    else .ok none

/-- All blocks of a directory. -/
def walkBlocks {α : Type} (v : Volume) (blk : Nat → Buf) (odi : OndiskInode) (hole : String)
    (body : Nat → Except Fault (Option α)) : Except Fault (Option α) :=
  walkDir v blk odi hole body (odi.size.toNat + 1) 0

section Walks

variable {α : Type} {v : Volume} {P : α → Prop}

/-- What every result of `body` is, the result of the loop over the records is. -/
theorem walkRecords_ends {b : Buf} {body : Option Nat → Nat → Except Fault (Option α)}
    (h : ∀ prev o, Ends (body prev o) fun r => ∀ a, r = some a → P a) :
    ∀ (fuel : Nat) (prev : Option Nat) (o : Nat),
      Ends (walkRecords v b body fuel prev o) fun r => ∀ a, r = some a → P a
  | 0, _, _ => .error _
  | fuel + 1, prev, o => by
    unfold walkRecords
    split
    · split
      · exact .error _
      refine Ends.bind (h prev o) fun r hr => ?_
      match r with
      | some a => exact .pure hr
      | none => exact walkRecords_ends h fuel _ _
    · exact .ok fun _ ha => (nomatch ha)

/-- What every result of `body` is, the result of the loop over the blocks is. -/
theorem walkDir_ends {blk : Nat → Buf} {odi : OndiskInode} {hole : String}
    {body : Nat → Except Fault (Option α)}
    (h : ∀ block, Ends (body block) fun r => ∀ a, r = some a → P a) :
    ∀ (fuel pos : Nat),
      Ends (walkDir v blk odi hole body fuel pos) fun r => ∀ a, r = some a → P a
  | 0, _ => .error _
  | fuel + 1, pos => by
    unfold walkDir
    split
    · simp only
      split
      · exact .error _
      refine Ends.bind (h _) fun r hr => ?_
      match r with
      | some a => exact .pure hr
      | none => exact walkDir_ends h fuel _
    · exact .ok fun _ ha => (nomatch ha)

end Walks

/-! ## Comparing names -/

/-- The loop of `strcmp_nz`, with `n` bytes of the record left from offset `o` on. -/
def strcmpNzLoop (size : Nat) (b : Buf) : Nat → Nat → List UInt8 → Except Fault Bool
  | 0, _, s2 => .ok s2.isEmpty
  | _ + 1, _, [] => .ok false
  | n + 1, o, c :: s2 =>
    if size ≤ o then .error .outOfBounds
    else if b o = c then strcmpNzLoop size b n (o + 1) s2
    else .ok false

/-- `strcmp_nz`: whether it returns 0 for the `n` bytes at offset `o` and the name `s2`. -/
def strcmpNz (size : Nat) (b : Buf) (o n : Nat) (s2 : List UInt8) : Except Fault Bool :=
  if n = 0 then .ok true else strcmpNzLoop size b n o s2

/-- The comparison of the record at `o` with a name. -/
def matchName (v : Volume) (b : Buf) (o : Nat) (name : List UInt8) : Except Fault Bool :=
  strcmpNz v.blockSize b (o + minDirEntrySize) (nameLen b o) name

/-! ## `lookup_dir` -/

/-- `lookup_dir_block`. -/
def lookupDirBlock (v : Volume) (b : Buf) (name : List UInt8) : Except Fault (Option Nat) :=
  walkBlock v b fun _ o =>
    if dIno v.beCpu b o ≠ 0 then do
      if ← matchName v b o name then return some (bswap4 v.beCpu (dIno v.beCpu b o)).toNat
      else return none
    else .ok none

/-- `lookup_dir`. -/
def lookupDir (v : Volume) (blk : Nat → Buf) (odi : OndiskInode) (name : List UInt8) :
    Except Fault (Except Errno Nat) :=
  if nameMax < name.length then .ok (.error .enametoolong)
  else do
    match ← walkBlocks v blk odi "lookup_dir found a hole in a directory" fun block =>
      lookupDirBlock v (blk block) name with
    | some ino => return .ok ino
    | none => return .error .enoent

/-- A number that is found is that of a live record. -/
theorem lookupDir_ends {v : Volume} {blk : Nat → Buf} {odi : OndiskInode} {name : List UInt8} :
    Ends (lookupDir v blk odi name) fun r => ∀ n, r = .ok n → n ≠ noEntry ∧ n < 2 ^ 32 := by
  unfold lookupDir
  split
  · exact .ok fun _ h => (nomatch h)
  have hblock : ∀ b, Ends (lookupDirBlock v b name) fun r =>
      ∀ n, r = some n → n ≠ noEntry ∧ n < 2 ^ 32 := by
    refine fun b => walkRecords_ends (fun _ o => ?_) _ _ _
    split
    next hne =>
      refine Ends.bind (P := fun _ => True) (fun _ _ => trivial) fun r _ => ?_
      split
      · refine .pure fun n hn => ?_
        cases hn
        refine ⟨fun h0 => hne ?_, UInt32.toNat_lt _⟩
        have hz : bswap4 v.beCpu (dIno v.beCpu b o) = 0 := UInt32.toNat_inj.mp h0
        rw [bswap4_eq_swap32] at hz
        rw [← swap32_swap32 v.beCpu (dIno v.beCpu b o), hz]
        cases v.beCpu <;> rfl
      · exact .pure fun _ h => (nomatch h)
    next => exact .ok fun _ h => (nomatch h)
  refine Ends.bind (walkDir_ends (fun block => hblock (blk block)) _ _) fun r hr => ?_
  match r with
  | some n => exact .pure fun m hm => by cases hm; exact hr n rfl
  | none => exact .pure fun _ h => (nomatch h)

/-! ## `is_dir_empty` -/

/-- `is_dir_block_empty`. -/
def isDirBlockEmpty (v : Volume) (b : Buf) : Except Fault Bool := do
  let other ← walkBlock v b fun _ o =>
    if dIno v.beCpu b o ≠ 0 then do
      -- "." and ".."
      if ← matchName v b o [0x2E] then return none
      else if ← matchName v b o [0x2E, 0x2E] then return none
      else return some ()
    else .ok none
  return other.isNone

/-- `is_dir_empty`. -/
def isDirEmpty (v : Volume) (blk : Nat → Buf) (odi : OndiskInode) : Except Fault Bool := do
  let other ← walkBlocks v blk odi "extfs: is_dir_empty found a hole in a directory" fun block => do
    if ← isDirBlockEmpty v (blk block) then return none else return some ()
  return other.isNone

/-! ## `dirent_enter` -/

/-- `shrink_dir_entry`: the record at `o` cut down to its size, and the free
record behind it. -/
def shrinkDirEntry (v : Volume) (b : Buf) (o : Nat) : Except Fault (Buf × Nat) :=
  let actualSize := dirEntrySize (nameLen b o)
  let newSlotSize := (recLen v.beCpu b o + 2 ^ 16 - actualSize) % 2 ^ 16
  let b := st16 v.beCpu b (o + 4) (bswap2 v.beCpu (UInt16.ofNat actualSize))
  let o := nextPos v.beCpu b o
  if v.blockSize < o + minDirEntrySize then .error .outOfBounds
  else
    let b := st16 v.beCpu b (o + 4) (bswap2 v.beCpu (UInt16.ofNat newSlotSize))
    .ok (st32 v.beCpu b o 0, o)

/-- `find_dirent_free_space`: a record of `required` bytes that is free or has been
split off, and the block with it. The difference of two sizes is unsigned. -/
def findDirentFreeSpace (v : Volume) (b : Buf) (required : Nat) :
    Except Fault (Option (Buf × Nat)) :=
  walkBlock v b fun _ o =>
    let len := recLen v.beCpu b o
    let actualSize := dirEntrySize (nameLen b o)
    if dIno v.beCpu b o = 0 ∧ required ≤ len then .ok (some (b, o))
    else if len < actualSize ∨ required ≤ len - actualSize then (shrinkDirEntry v b o).map some
    else .ok none

/-- The value `set_dirent_file_type` stores for a mode. -/
def direntFileType (mode : UInt16) : UInt8 :=
  if sIsReg mode then 1 else if sIsDir mode then 2 else if sIsLnk mode then 7
  else if sIsBlk mode then 4 else if sIsChr mode then 3 else if sIsFifo mode then 5
  else 0

/-- What `enter_dirent` stores in the record at `o`. -/
def fillDirent (v : Volume) (b : Buf) (o ino : Nat) (name : List UInt8) (mode : UInt16) :
    Except Fault Buf :=
  if v.blockSize < o + minDirEntrySize + name.length then .error .outOfBounds
  else
    let b := st32 v.beCpu b o (bswap4 v.beCpu (UInt32.ofNat ino))
    let b := st8 b (o + 6) (UInt8.ofNat name.length)
    let b := if v.hasFiletype then st8 b (o + 7) (direntFileType mode) else b
    .ok (stBytes b (o + minDirEntrySize) name)

/-- `enter_dirent`, into the record at `o` of the block, on behalf of cache slot `i`. -/
def enterDirent (v : Volume) (env : Env) (s : Fs) (i block : Nat) (b : Buf) (o ino : Nat)
    (name : List UInt8) (mode : UInt16) : Except Fault Fs := do
  let b ← fillDirent v b o ino name mode
  let s := s.writeBlk block b
  let x := s.slot i
  let s := s.setSlot i { x with
    update := { x.update with ctime := true, mtime := true }, dirty := true }
  writeInode v env s i

/-- The search of `dirent_enter`: a block of the directory, and it with a record for
`required` bytes. -/
def findSpace (v : Volume) (blk : Nat → Buf) (odi : OndiskInode) (required : Nat) :
    Except Fault (Option (Nat × Buf × Nat)) :=
  walkBlocks v blk odi "dirent_enter found a hole in a directory" fun block => do
    let space ← findDirentFreeSpace v (blk block) required
    return space.map fun r => (block, r)

/-- `dirent_enter`, into the directory in cache slot `i`. -/
def direntEnter (v : Volume) (env : Env) (s : Fs) (i : Nat) (name : List UInt8) (ino : Nat)
    (mode : UInt16) : Except Fault (Fs × Except Errno Unit) :=
  if nameMax < name.length then .ok (s, .error .enametoolong)
  else do
    match ← findSpace v s.blk (s.slot i).odi (dirEntrySize name.length) with
    | some (block, b, o) => return (← enterDirent v env s i block b o ino name mode, .ok ())
    | none => return (s, .error .enoent)

/-- A name that is not entered leaves everything as it is. -/
theorem direntEnter_error {v : Volume} {env : Env} {s s' : Fs} {i : Nat} {name : List UInt8}
    {ino : Nat} {mode : UInt16} {e : Errno}
    (h : direntEnter v env s i name ino mode = .ok (s', .error e)) : s' = s := by
  unfold direntEnter at h
  split at h
  · cases h
    rfl
  obtain ⟨r, -, h⟩ := ok_of_bind h
  match r with
  | none =>
    cases h
    rfl
  | some (block, b, o) =>
    obtain ⟨t, -, h⟩ := ok_of_bind h
    cases h

/-! ## `dirent_delete` -/

/-- What `delete_dir_entry` stores in the block: the inode number kept in the last
bytes of the name, no inode, and the record given to the one before. -/
def clearDirent (v : Volume) (b : Buf) (o : Nat) (prev : Option Nat) : Except Fault Buf :=
  let len := nameLen b o
  let t := o + minDirEntrySize + (len - v.sizeofIno)
  if v.sizeofIno ≤ len ∧ v.blockSize < t + 4 then .error .outOfBounds
  else
    let b := if v.sizeofIno ≤ len then stBytes b t (getBytes b o 4) else b
    let b := st32 v.beCpu b o 0
    match prev with
    | none => .ok b
    | some p =>
      let temp := (recLen v.beCpu b p + recLen v.beCpu b o) % 2 ^ 16
      .ok (st16 v.beCpu b (p + 4) (bswap2 v.beCpu (UInt16.ofNat temp)))

/-- `search_block_and_delete`: the block without the record of that name, if it has one. -/
def searchBlockAndDelete (v : Volume) (b : Buf) (name : List UInt8) :
    Except Fault (Option Buf) :=
  walkBlock v b fun prev o =>
    if dIno v.beCpu b o ≠ 0 then do
      if ← matchName v b o name then return some (← clearDirent v b o prev)
      else return none
    else .ok none

/-- `delete_dir_entry`, once it has the new block, on behalf of cache slot `i`. -/
def deleteDirEntry (v : Volume) (env : Env) (s : Fs) (i block : Nat) (b : Buf) : Except Fault Fs :=
  let s := s.writeBlk block b
  let x := s.slot i
  let s := s.setSlot i { x with
    -- `i_flags &= ~EXT2_INDEX_FL`
    odi := { x.odi with flags := x.odi.flags &&& ~~~0x1000 }
    update := { x.update with ctime := true, mtime := true }, dirty := true }
  writeInode v env s i

/-- The search of `dirent_delete`: a block of the directory, and it without the record
of that name. -/
def findAndDelete (v : Volume) (blk : Nat → Buf) (odi : OndiskInode) (name : List UInt8) :
    Except Fault (Option (Nat × Buf)) :=
  walkBlocks v blk odi "dirent_delete found a hole in a directory" fun block => do
    let found ← searchBlockAndDelete v (blk block) name
    return found.map fun b => (block, b)

/-- `dirent_delete`, from the directory in cache slot `i`. -/
def direntDelete (v : Volume) (env : Env) (s : Fs) (i : Nat) (name : List UInt8) :
    Except Fault (Fs × Except Errno Unit) :=
  if nameMax < name.length then .ok (s, .error .enametoolong)
  else do
    match ← findAndDelete v s.blk (s.slot i).odi name with
    | some (block, b) => return (← deleteDirEntry v env s i block b, .ok ())
    | none => return (s, .error .enoent)

/-- A name that is not deleted leaves everything as it is. -/
theorem direntDelete_error {v : Volume} {env : Env} {s s' : Fs} {i : Nat} {name : List UInt8}
    {e : Errno} (h : direntDelete v env s i name = .ok (s', .error e)) : s' = s := by
  unfold direntDelete at h
  split at h
  · cases h
    rfl
  obtain ⟨r, -, h⟩ := ok_of_bind h
  match r with
  | none =>
    cases h
    rfl
  | some (block, b) =>
    obtain ⟨t, -, h⟩ := ok_of_bind h
    cases h

end Cheviot.Ext2
