import Cheviot.Lib.Log
import Cheviot.Ext2.Ops

/-!
# `get_block` and `put_block`

The functions of the driver once more, with their calls of the block cache: a buffer comes
from `get_block` or `get_block_readahead`, and stays pinned until `put_block` has been called
on it as often. What the functions compute is as before (`value_newBlock` and so on).

Mirroring notes:
- A buffer goes by the number of its block.
- `alloc_block` is noted as well, with the state it is called in and the buffer
  `enter_map_entry` holds at that time.
- `walkDir` leaves `put_block` on the last block to its caller, as what the caller does
  with the block is in the middle of the loop in the source.
-/

namespace Cheviot.Ext2.Buffers

open Cheviot.Bytes Cheviot.Forest Cheviot.Log

/-! ## Calls -/

/-- A call of the block cache or of `alloc_block`. -/
inductive Call where
  /-- `get_block` or `get_block_readahead` -/
  | get (block : Nat)
  | put (block : Nat)
  /-- `alloc_block`, while the caller holds a buffer or none -/
  | alloc (s : Fs) (held : Option Nat)

/-- A function with its calls. -/
abbrev Op := Logged Call Fault

def getBlock (block : Nat) : Op Unit := call (.get block)
def putBlock (block : Nat) : Op Unit := call (.put block)

/-! ## `block.c` -/

/-- The descent of `read_map_entry`. -/
def followBlocks (be : Bool) (blk : Nat → Buf) : Nat → List Nat → Op Nat
  | block, [] => return block
  | block, index :: path =>
    if block = noBlock then return noBlock
    else do
      getBlock block
      let next := readIndirectBlockEntry be (blk block) index
      putBlock block
      followBlocks be blk next path

/-- `read_map_entry`. -/
def readMapEntry (v : Volume) (blk : Nat → Buf) (odi : OndiskInode) (position : Nat) : Op Nat :=
  match calcBlockIndirectionOffsets v position with
  | none => return noBlock
  | some (k, path) => followBlocks v.beCpu blk (odi.block k).toNat path

/-- The loop of `alloc_block`. -/
def allocBlockLoop (v : Volume) (s : Fs) : Nat → Nat → Nat → Op (Fs × Nat)
  | 0, _, _ => return (s, noBlock)
  | n + 1, i, word =>
    let group := i % v.groupsCount
    if v.groupsCount ≤ group then throw (.panic "extfs: can't get group_desc to alloc block")
    else if (s.gd group).freeBlocksCount = 0 then allocBlockLoop v s n (i + 1) 0
    else do
      getBlock (v.blockBitmap group)
      match ← allocBit v.beCpu v.blockSize (s.blk (v.blockBitmap group)) v.blocksPerGroup 0 with
      | some (bitmap, bit) =>
        let block := (v.firstDataBlock + group * v.blocksPerGroup + bit) % 2 ^ 32
        checkBlockNumber v group block
        putBlock (v.blockBitmap group)
        let gd := s.gd group
        let s := s.writeBlk (v.blockBitmap group) bitmap
        let s := s.setGd group { gd with freeBlocksCount := gd.freeBlocksCount - 1 }
        return ({ s with freeBlocksCount := s.freeBlocksCount - 1 }, block)
      | none =>
        if i ≠ 0 then
          throw (.panic "extfs: allocator failed to allocate a bit in bitmap with free bits")
        -- without `put_block` on the bitmap
        else allocBlockLoop v s n (i + 1) word

/-- `alloc_block` without the note. -/
def allocBlockBody (v : Volume) (env : Env) (s : Fs) (ino goal : Nat) : Op (Fs × Nat) :=
  if s.freeBlocksCount = 0 then return (s, noBlock)
  else
    let goal := allocGoal v env ino goal
    let word := (goal + 2 ^ 32 - v.firstDataBlock) % 2 ^ 32 % v.blocksPerGroup / 32
    allocBlockLoop v s (v.groupsCount + 1) 0 word

/-- `alloc_block`, called with a buffer held or none. -/
def allocBlock (v : Volume) (env : Env) (s : Fs) (ino goal : Nat) (held : Option Nat) :
    Op (Fs × Nat) := do
  call (.alloc s held)
  allocBlockBody v env s ino goal

/-- `free_block`. -/
def freeBlock (v : Volume) (env : Env) (s : Fs) (block : Nat) : Op Fs :=
  if v.blocksCount ≤ block ∨ block < v.firstDataBlock then
    throw (.panic "extfs: trying to free block %d beyond blocks scope.")
  else
    let group := (block - v.firstDataBlock) / v.blocksPerGroup
    let bit := (block - v.firstDataBlock) % v.blocksPerGroup
    if v.groupsCount ≤ group then throw (.panic "extfs: can't get group_desc to alloc block")
    else do
      checkBlockNumber v group block
      getBlock (v.blockBitmap group)
      match ← clearBit v.beCpu v.blockSize (s.blk (v.blockBitmap group)) bit with
      | none => throw (.panic "extfs: failed freeing unused block %d")
      | some bitmap =>
        putBlock (v.blockBitmap group)
        let gd := s.gd group
        let s := s.writeBlk (v.blockBitmap group) bitmap
        let s := s.setGd group { gd with freeBlocksCount := gd.freeBlocksCount + 1 }
        let s := { s with freeBlocksCount := s.freeBlocksCount + 1 }
        return invalidateBlock env s block

/-- The descent of `enter_map_entry`. -/
def enterIndirect (v : Volume) (env : Env) (i newBlock : Nat) :
    Fs → Nat → List Nat → Op (Fs × Except Errno Unit)
  | s, _, [] => return (s, .ok ())
  | s, block, [index] => do
    getBlock block
    let s := s.writeBlk block (writeIndirectBlockEntry v.beCpu (s.blk block) index newBlock)
    putBlock block
    return (addSectors v s i, .ok ())
  | s, block, index :: path => do
    getBlock block
    let next := readIndirectBlockEntry v.beCpu (s.blk block) index
    if next = noBlock then
      let (s, next) ← allocBlock v env s (s.slot i).ino noBlock (some block)
      -- without `put_block` on `block`
      if next = noBlock then return (s, .error .enospc)
      getBlock next
      let s := s.writeBlk next zeroed
      putBlock next
      let s := s.writeBlk block (writeIndirectBlockEntry v.beCpu (s.blk block) index next)
      putBlock block
      enterIndirect v env i newBlock (addSectors v s i) next path
    else
      putBlock block
      enterIndirect v env i newBlock s next path

/-- `enter_map_entry`. -/
def enterMapEntry (v : Volume) (env : Env) (s : Fs) (i position newBlock : Nat) :
    Op (Fs × Except Errno Unit) :=
  match calcBlockIndirectionOffsets v position with
  | none => return (s, .error .einval)
  | some (k, path) => do
    let s := inodeMarkdirty s i
    if path = [] then return (addSectors v (setBlockEntry s i k newBlock) i, .ok ())
    let block := ((s.slot i).odi.block k).toNat
    if block = noBlock then
      let (s, block) ← allocBlock v env s (s.slot i).ino noBlock none
      if block = noBlock then return (s, .error .enospc)
      getBlock block
      let s := s.writeBlk block zeroed
      putBlock block
      enterIndirect v env i newBlock (addSectors v (setBlockEntry s i k block) i) block path
    else enterIndirect v env i newBlock s block path

/-- `new_block`, which returns the buffer of a block or none. -/
def newBlock (v : Volume) (env : Env) (s : Fs) (i position : Nat) : Op (Fs × Option Nat) := do
  let block ← readMapEntry v s.blk (s.slot i).odi position
  if block = noBlock then
    let (s, block) ← allocBlock v env s (s.slot i).ino noBlock none
    if block = noBlock then return (s, none)
    let (s, sc) ← enterMapEntry v env s i position block
    match sc with
    | .error _ => return (← freeBlock v env s block, none)
    | .ok _ =>
      getBlock block
      return (s.setBlk block zeroed, some block)
  else
    getBlock block
    return (s.setBlk block zeroed, some block)

/-! ## `inode_cache.c` and `inode.c` -/

/-- `write_inode`. -/
def writeInode (v : Volume) (env : Env) (s : Fs) (i : Nat) : Op Fs :=
  let ino := (s.slot i).ino
  if v.groupsCount ≤ v.inodeGroup ino then throw (.panic "can't get group_desc to write inode")
  else do
    let b := v.inodeTableBlock ino
    getBlock b
    let x := timed v env (s.slot i)
    let s := s.setSlot i x
    let buf := inodeCopyTo v.beCpu x.odi (s.blk b) (v.inodeOffset ino)
    let s := if v.readOnly then s.setBlk b buf else s.writeBlk b buf
    putBlock b
    return inodeMarkclean s i

/-- `alloc_inode_bit`. -/
def allocInodeBit (v : Volume) (s : Fs) (group : Nat) (isDir : Bool) : Op (Fs × Nat) :=
  if v.groupsCount ≤ group then throw (.panic "extfs: can't get group_desc to alloc block")
  else if (s.gd group).freeInodesCount = 0 then
    throw (.panic "extfs: group desc reports no free inodes but earlier search reported it does")
  else do
    getBlock (v.inodeBitmap group)
    match ← allocBit v.beCpu v.blockSize (s.blk (v.inodeBitmap group)) v.inodesPerGroup 0 with
    | none =>
      throw (.panic "extfs: unable to alloc bit in bitmap, but descriptor indicated free inode")
    | some (bitmap, bit) =>
      let ino := (group * v.inodesPerGroup + bit + 1) % 2 ^ 32
      if v.inodesCount < ino then
        throw (.panic "extfs: allocator returned inode number greater than total inodes")
      else if ino < v.firstIno then
        throw (.panic "extfs: allocator tried to return reserved inode")
      else
        putBlock (v.inodeBitmap group)
        let gd := s.gd group
        let s := s.writeBlk (v.inodeBitmap group) bitmap
        let s := s.setGd group
          { gd with
            freeInodesCount := gd.freeInodesCount - 1
            usedDirsCount := if isDir then gd.usedDirsCount + 1 else gd.usedDirsCount }
        return ({ s with
          freeInodesCount := s.freeInodesCount - 1
          dirsCounter := if isDir then s.dirsCounter + 1 else s.dirsCounter }, ino)

/-- `free_inode_bit`. -/
def freeInodeBit (v : Volume) (s : Fs) (ino : Nat) (isDir : Bool) : Op Fs :=
  if v.inodesCount < ino ∨ ino < v.firstIno then
    throw (.panic "trying to free inode %d beyond inodes scope.")
  else
    let group := pred32 ino / v.inodesPerGroup
    if v.groupsCount ≤ group then throw (.panic "can't get group_desc to alloc block")
    else do
      getBlock (v.inodeBitmap group)
      match ← clearBit v.beCpu v.blockSize (s.blk (v.inodeBitmap group)) ino with
      | none => throw (.panic "Tried to free unused inode %d")
      | some bitmap =>
        putBlock (v.inodeBitmap group)
        let gd := s.gd group
        let s := s.writeBlk (v.inodeBitmap group) bitmap
        let s := s.setGd group
          { gd with
            freeInodesCount := gd.freeInodesCount + 1
            usedDirsCount := if isDir then gd.usedDirsCount - 1 else gd.usedDirsCount }
        return { s with
          freeInodesCount := s.freeInodesCount + 1
          dirsCounter := if isDir then s.dirsCounter - 1 else s.dirsCounter }

/-! ## `write.c` and `read.c` -/

/-- The buffer `write_chunk` reads the message into. -/
def chunkBuffer (v : Volume) (env : Env) (s : Fs) (i position off chunkSize : Nat) :
    Op (Fs × Option Nat) := do
  let block ← readMapEntry v s.blk (s.slot i).odi position
  if block = noBlock then newBlock v env s i position
  else if chunkSize = v.blockSize then
    getBlock block
    return (s.setBlk block zeroed, some block)
  else if off = 0 ∧ (s.slot i).odi.size.toNat ≤ position then
    getBlock block
    return (s.setBlk block zeroed, some block)
  else
    getBlock block
    return (s, some block)

/-- `write_chunk`. -/
def writeChunk (v : Volume) (env : Env) (s : Fs) (i position off chunkSize : Nat)
    (msg : List UInt8) (msgOff : Nat) : Op (Fs × Except Errno Unit) := do
  let (s, buf) ← chunkBuffer v env s i position off chunkSize
  match buf with
  | none => return (s, .error .eio)
  | some block =>
    let data := readmsg msg chunkSize msgOff
    let s := s.writeBlk block (stBytes (s.blk block) off data)
    putBlock block
    return (s, if data.length = chunkSize then .ok () else .error .eio)

/-- The loop of `write_file`. -/
def writeLoop (v : Volume) (env : Env) (i : Nat) (msg : List UInt8) :
    Nat → Fs → Nat → Nat → Nat → Op (Fs × Nat × Nat × Except Errno Unit)
  | 0, _, _, _, _ => throw .hang
  | fuel + 1, s, nbytes, position, total =>
    if nbytes = 0 then return (s, position, total, .ok ())
    else do
      let off := position % v.blockSize
      let chunkSize := min (v.blockSize - off) nbytes
      let (s, sc) ← writeChunk v env s i position off chunkSize msg total
      match sc with
      | .error e => return (s, position, total, .error e)
      | .ok _ =>
        writeLoop v env i msg fuel s (nbytes - chunkSize) (position + chunkSize)
          (total + chunkSize)

/-- `write_file`. -/
def writeFile (v : Volume) (env : Env) (s : Fs) (ino nbytes position : Nat) (msg : List UInt8) :
    Op (Fs × Except Errno Nat) := do
  match ← findInode s ino with
  | none => return (s, .error .einval)
  | some i =>
    let fileSize := (s.slot i).odi.size.toNat
    if offT ((maxFilePos + 2 ^ 32 - nbytes) % 2 ^ 32) < position then return (s, .error .efbig)
    let (s, position, total, sc) ← writeLoop v env i msg (nbytes + 1) s nbytes position 0
    let s := growInode s i fileSize position
    match sc with
    | .error e => return (s, .error e)
    | .ok _ => return (← writeInode v env (inodeMarkdirty (touchInode s i) i) i, .ok total)

/-- `read_chunk`, with `get_block_readahead`. -/
def readChunk (v : Volume) (s : Fs) (i position off chunkSize msgOff room : Nat) :
    Op (Except Errno (List UInt8)) := do
  let block ← readMapEntry v s.blk (s.slot i).odi position
  if block = noBlock then
    let bytes := List.replicate chunkSize 0
    return if room < msgOff + chunkSize then .error .eio else .ok bytes
  else
    getBlock block
    let bytes := getBytes (s.blk block) off chunkSize
    putBlock block
    return if room < msgOff + chunkSize then .error .eio else .ok bytes

/-- The loop of `read_file`. -/
def readLoop (v : Volume) (s : Fs) (i nrbytes room : Nat) :
    Nat → Nat → List UInt8 → Op (Except Errno (List UInt8))
  | 0, _, _ => throw .hang
  | fuel + 1, position, sent =>
    if sent.length < nrbytes then
      let off := position % v.blockSize
      let chunkSize := min (v.blockSize - off) nrbytes
      let fileSize := (s.slot i).odi.size.toNat
      if fileSize ≤ position then return .ok sent
      else do
        let chunkSize := min chunkSize (fileSize - position)
        match ← readChunk v s i position off chunkSize sent.length room with
        | .error e => return .error e
        | .ok bytes => readLoop v s i nrbytes room fuel (position + chunkSize) (sent ++ bytes)
    else return .ok sent

/-- `read_file`. -/
def readFile (v : Volume) (s : Fs) (ino nrbytes position room : Nat) :
    Op (Fs × Except Errno (List UInt8)) := do
  match ← findInode s ino with
  | none => return (s, .error .einval)
  | some i =>
    match ← readLoop v s i nrbytes room (nrbytes + 1) position [] with
    | .error e => return (s, .error e)
    | .ok bytes => return (markAtime s i, .ok bytes)

/-! ## Directories -/

/-- `get_dir_block`: a block of which the caller has the buffer, or none. -/
def getDirBlock (v : Volume) (blk : Nat → Buf) (odi : OndiskInode) (position : Nat) :
    Op (Option Nat) := do
  let block ← readMapEntry v blk odi position
  if block = noBlock then return none
  getBlock block
  return some block

/-- The loop over the blocks of a directory. With a result comes the block it was found in, of
which the caller has the buffer. -/
def walkDir {α : Type} (v : Volume) (blk : Nat → Buf) (odi : OndiskInode) (hole : String)
    (body : Nat → Except Fault (Option α)) : Nat → Nat → Op (Option (Nat × α))
  | 0, _ => throw .hang
  | fuel + 1, pos =>
    if pos < odi.size.toNat then do
      match ← getDirBlock v blk odi pos with
      | none => throw (.panic hole)
      | some block =>
        match ← body block with
        | some r => return some (block, r)
        | none =>
          putBlock block
          walkDir v blk odi hole body fuel (pos + v.blockSize)
    else return none

/-- All blocks of a directory. -/
def walkBlocks {α : Type} (v : Volume) (blk : Nat → Buf) (odi : OndiskInode) (hole : String)
    (body : Nat → Except Fault (Option α)) : Op (Option (Nat × α)) :=
  walkDir v blk odi hole body (odi.size.toNat + 1) 0

/-- `lookup_dir`. -/
def lookupDir (v : Volume) (blk : Nat → Buf) (odi : OndiskInode) (name : List UInt8) :
    Op (Except Errno Nat) :=
  if nameMax < name.length then return .error .enametoolong
  else do
    match ← walkBlocks v blk odi "lookup_dir found a hole in a directory" fun block =>
      lookupDirBlock v (blk block) name with
    | some (block, ino) =>
      putBlock block
      return .ok ino
    | none => return .error .enoent

/-- `is_dir_empty`. -/
def isDirEmpty (v : Volume) (blk : Nat → Buf) (odi : OndiskInode) : Op Bool := do
  match ← walkBlocks v blk odi "extfs: is_dir_empty found a hole in a directory" fun block => do
    if ← isDirBlockEmpty v (blk block) then return none else return some () with
  | some (block, _) =>
    putBlock block
    return false
  | none => return true

/-- `enter_dirent`, which gives back the buffer. -/
def enterDirent (v : Volume) (env : Env) (s : Fs) (i block : Nat) (b : Buf) (o ino : Nat)
    (name : List UInt8) (mode : UInt16) : Op Fs := do
  let b ← fillDirent v b o ino name mode
  let s := s.writeBlk block b
  putBlock block
  let x := s.slot i
  let s := s.setSlot i { x with
    update := { x.update with ctime := true, mtime := true }, dirty := true }
  writeInode v env s i

/-- `dirent_enter`. -/
def direntEnter (v : Volume) (env : Env) (s : Fs) (i : Nat) (name : List UInt8) (ino : Nat)
    (mode : UInt16) : Op (Fs × Except Errno Unit) :=
  if nameMax < name.length then return (s, .error .enametoolong)
  else do
    match ← walkBlocks v s.blk (s.slot i).odi "dirent_enter found a hole in a directory"
      fun block => findDirentFreeSpace v (s.blk block) (dirEntrySize name.length) with
    | some (block, b, o) => return (← enterDirent v env s i block b o ino name mode, .ok ())
    | none => return (s, .error .enoent)

/-- `delete_dir_entry`. -/
def deleteDirEntry (v : Volume) (env : Env) (s : Fs) (i block : Nat) (b : Buf) : Op Fs :=
  let s := s.writeBlk block b
  let x := s.slot i
  let s := s.setSlot i { x with
    odi := { x.odi with flags := x.odi.flags &&& ~~~0x1000 }
    update := { x.update with ctime := true, mtime := true }, dirty := true }
  writeInode v env s i

/-- `dirent_delete`. -/
def direntDelete (v : Volume) (env : Env) (s : Fs) (i : Nat) (name : List UInt8) :
    Op (Fs × Except Errno Unit) :=
  if nameMax < name.length then return (s, .error .enametoolong)
  else do
    match ← walkBlocks v s.blk (s.slot i).odi "dirent_delete found a hole in a directory"
      fun block => searchBlockAndDelete v (s.blk block) name with
    | some (block, b) =>
      let s ← deleteDirEntry v env s i block b
      putBlock block
      return (s, .ok ())
    | none => return (s, .error .enoent)

/-- The loop of `get_dirents`. -/
def getDirentsLoop (v : Volume) (blk : Nat → Buf) (odi : OndiskInode) (size : Nat) :
    Nat → Nat → DirentBuf → Op (Nat × DirentBuf)
  | 0, _, _ => throw .hang
  | fuel + 1, pos, db =>
    if pos < odi.size.toNat then do
      let base := pos / v.blockSize * v.blockSize
      match ← getDirBlock v blk odi pos with
      | none => throw (.panic "bp != NULL")
      | some block =>
        match ← seekToValidDirent v (blk block) (pos - base) with
        | none =>
          putBlock block
          getDirentsLoop v blk odi size fuel (base + v.blockSize) db
        | some o =>
          let (full, o, db) ← fillDirentBuf v (blk block) size (v.blockSize + size + 1) o db
          putBlock block
          if full then return (base + o, db)
          else getDirentsLoop v blk odi size fuel (base + o) db
    else return (pos, db)

/-- `get_dirents`. -/
def getDirents (v : Volume) (blk : Nat → Buf) (odi : OndiskInode) (cookie size : Nat) :
    Op (Except Errno (Nat × List Dirent)) :=
  if cookie % 4 ≠ 0 then return .error .enoent
  else do
    let (pos, db) ← getDirentsLoop v blk odi size (odi.size.toNat + 1) cookie ⟨[], 0⟩
    return .ok (pos, db.entries)

/-! ## Without the calls -/

section Value

variable {v : Volume} {env : Env} {s : Fs}

theorem value_followBlocks (be : Bool) (blk : Nat → Buf) (path : List Nat) : ∀ block,
    value (followBlocks be blk block path) =
      .ok (follow (readIndirectBlockEntry be) blk block path) := by
  induction path with
  | nil => exact fun _ => rfl
  | cons index path ih =>
    intro block
    unfold followBlocks
    split
    next h =>
      subst h
      have hzero : ∀ path, follow (readIndirectBlockEntry be) blk noBlock path = noBlock := by
        intro path
        induction path with
        | nil => rfl
        | cons index path ih => exact ih
      rw [hzero]
      rfl
    next h =>
      apply value_call
      apply value_call
      rw [ih]
      change _ = Except.ok (follow _ _ (child _ _ _ _) _)
      rw [child, if_neg h]

theorem value_readMapEntry (blk : Nat → Buf) (odi : OndiskInode) (position : Nat) :
    value (readMapEntry v blk odi position) = .ok (Ext2.readMapEntry v blk odi position) := by
  unfold readMapEntry Ext2.readMapEntry
  cases calcBlockIndirectionOffsets v position with
  | none => rfl
  | some r => exact value_followBlocks ..

theorem value_allocBlockLoop (n : Nat) : ∀ i word,
    value (allocBlockLoop v s n i word) = Ext2.allocBlockLoop v s n i word := by
  induction n with
  | zero => exact fun _ _ => rfl
  | succ n ih =>
    intro i word
    unfold allocBlockLoop Ext2.allocBlockLoop
    dsimp only
    split
    · rfl
    split
    · exact ih _ _
    apply value_call
    refine value_bind (value_lift _) fun r => ?_
    cases r with
    | some found =>
      refine value_bind (value_lift _) fun _ => ?_
      apply value_call
      rfl
    | none =>
      dsimp only
      split
      · rfl
      · exact ih _ _

theorem value_allocBlock (ino goal : Nat) (held : Option Nat) :
    value (allocBlock v env s ino goal held) = Ext2.allocBlock v env s ino goal := by
  apply value_call
  unfold allocBlockBody Ext2.allocBlock
  split
  · rfl
  · exact value_allocBlockLoop ..

theorem value_freeBlock (block : Nat) :
    value (freeBlock v env s block) = Ext2.freeBlock v env s block := by
  unfold freeBlock Ext2.freeBlock
  dsimp only
  split
  · rfl
  split
  · rfl
  refine value_bind (value_lift _) fun _ => ?_
  apply value_call
  refine value_bind (value_lift _) fun r => ?_
  match r with
  | none => rfl
  | some bitmap => exact value_call rfl

theorem value_enterIndirect (i newBlock : Nat) (path : List Nat) : ∀ s block,
    value (enterIndirect v env i newBlock s block path) =
      Ext2.enterIndirect v env i newBlock s block path := by
  induction path with
  | nil => exact fun _ _ => rfl
  | cons index path ih =>
    intro s block
    cases path with
    | nil =>
      apply value_call
      exact value_call rfl
    | cons index' path =>
      unfold enterIndirect Ext2.enterIndirect
      apply value_call
      dsimp only
      split
      · refine value_bind (value_allocBlock _ _ _) fun r => ?_
        obtain ⟨s, next⟩ := r
        dsimp only
        split
        · rfl
        · apply value_call
          apply value_call
          apply value_call
          exact ih _ _
      · exact value_call (ih _ _)

theorem value_enterMapEntry (i position newBlock : Nat) :
    value (enterMapEntry v env s i position newBlock) =
      Ext2.enterMapEntry v env s i position newBlock := by
  unfold enterMapEntry Ext2.enterMapEntry
  cases calcBlockIndirectionOffsets v position with
  | none => rfl
  | some r =>
  dsimp only
  split
  · rfl
  split
  · refine value_bind (value_allocBlock _ _ _) fun r => ?_
    obtain ⟨s, block⟩ := r
    dsimp only
    split
    · rfl
    · apply value_call
      apply value_call
      exact value_enterIndirect ..
  · exact value_enterIndirect ..

theorem value_newBlock (i position : Nat) :
    value (newBlock v env s i position) = Ext2.newBlock v env s i position := by
  unfold newBlock Ext2.newBlock
  refine value_bind_ok (value_readMapEntry _ _ _) ?_
  dsimp only
  split
  · refine value_bind (value_allocBlock _ _ _) fun r => ?_
    obtain ⟨s, block⟩ := r
    dsimp only
    split
    · rfl
    refine value_bind (value_enterMapEntry _ _ _) fun r => ?_
    obtain ⟨s, sc⟩ := r
    cases sc with
    | error e => exact value_bind (value_freeBlock _) fun _ => rfl
    | ok _ => exact value_call rfl
  · exact value_call rfl

theorem value_writeInode (i : Nat) :
    value (writeInode v env s i) = Ext2.writeInode v env s i := by
  unfold writeInode Ext2.writeInode
  dsimp only
  split
  · rfl
  · apply value_call
    exact value_call rfl

theorem value_allocInodeBit (group : Nat) (isDir : Bool) :
    value (allocInodeBit v s group isDir) = Ext2.allocInodeBit v s group isDir := by
  unfold allocInodeBit Ext2.allocInodeBit
  split
  · rfl
  split
  · rfl
  apply value_call
  refine value_bind (value_lift _) fun r => ?_
  match r with
  | none => rfl
  | some (bitmap, bit) =>
    dsimp only
    split
    · rfl
    split
    · rfl
    · exact value_call rfl

theorem value_freeInodeBit (ino : Nat) (isDir : Bool) :
    value (freeInodeBit v s ino isDir) = Ext2.freeInodeBit v s ino isDir := by
  unfold freeInodeBit Ext2.freeInodeBit
  dsimp only
  split
  · rfl
  split
  · rfl
  apply value_call
  refine value_bind (value_lift _) fun r => ?_
  match r with
  | none => rfl
  | some bitmap => exact value_call rfl

theorem value_chunkBuffer (i position off chunkSize : Nat) :
    value (chunkBuffer v env s i position off chunkSize) =
      Ext2.chunkBuffer v env s i position off chunkSize := by
  unfold chunkBuffer Ext2.chunkBuffer
  refine value_bind_ok (value_readMapEntry _ _ _) ?_
  dsimp only
  split
  · exact value_newBlock _ _
  split
  · exact value_call rfl
  split
  · exact value_call rfl
  · exact value_call rfl

theorem value_writeChunk (i position off chunkSize : Nat) (msg : List UInt8) (msgOff : Nat) :
    value (writeChunk v env s i position off chunkSize msg msgOff) =
      Ext2.writeChunk v env s i position off chunkSize msg msgOff := by
  unfold writeChunk Ext2.writeChunk
  refine value_bind (value_chunkBuffer _ _ _ _) fun r => ?_
  obtain ⟨s, buf⟩ := r
  cases buf with
  | none => rfl
  | some block => exact value_call rfl

theorem value_writeLoop (i : Nat) (msg : List UInt8) (fuel : Nat) :
    ∀ s nbytes position total, value (writeLoop v env i msg fuel s nbytes position total) =
      Ext2.writeLoop v env i msg fuel s nbytes position total := by
  induction fuel with
  | zero => exact fun _ _ _ _ => rfl
  | succ fuel ih =>
    intro s nbytes position total
    unfold writeLoop Ext2.writeLoop
    split
    · rfl
    refine value_bind (value_writeChunk _ _ _ _ _ _) fun r => ?_
    obtain ⟨s, sc⟩ := r
    cases sc with
    | error e => rfl
    | ok _ => exact ih _ _ _ _

theorem value_writeFile (ino nbytes position : Nat) (msg : List UInt8) :
    value (writeFile v env s ino nbytes position msg) =
      Ext2.writeFile v env s ino nbytes position msg := by
  unfold writeFile Ext2.writeFile
  refine value_bind (value_lift _) fun r => ?_
  match r with
  | none => rfl
  | some i =>
    dsimp only
    split
    · rfl
    refine value_bind (value_writeLoop _ _ _ _ _ _ _) fun r => ?_
    obtain ⟨s, position, total, sc⟩ := r
    cases sc with
    | error e => rfl
    | ok _ => exact value_bind (value_writeInode _) fun _ => rfl

theorem value_readChunk (i position off chunkSize msgOff room : Nat) :
    value (readChunk v s i position off chunkSize msgOff room) =
      .ok (Ext2.readChunk v s i position off chunkSize msgOff room) := by
  unfold readChunk Ext2.readChunk
  refine value_bind_ok (value_readMapEntry _ _ _) ?_
  dsimp only
  split
  · rfl
  · apply value_call
    exact value_call rfl

theorem value_readLoop (i nrbytes room fuel : Nat) :
    ∀ position sent, value (readLoop v s i nrbytes room fuel position sent) =
      Ext2.readLoop v s i nrbytes room fuel position sent := by
  induction fuel with
  | zero => exact fun _ _ => rfl
  | succ fuel ih =>
    intro position sent
    unfold readLoop Ext2.readLoop
    dsimp only
    split
    · split
      · rfl
      refine value_bind_ok (value_readChunk _ _ _ _ _ _) ?_
      cases Ext2.readChunk v s i position (position % v.blockSize)
        (min (min (v.blockSize - position % v.blockSize) nrbytes)
          ((s.slot i).odi.size.toNat - position)) sent.length room with
      | error e => rfl
      | ok bytes => exact ih _ _
    · rfl

theorem value_readFile (ino nrbytes position room : Nat) :
    value (readFile v s ino nrbytes position room) =
      Ext2.readFile v s ino nrbytes position room := by
  unfold readFile Ext2.readFile
  refine value_bind (value_lift _) fun r => ?_
  match r with
  | none => rfl
  | some i =>
    refine value_bind (value_readLoop _ _ _ _ _ _) fun r => ?_
    cases r <;> rfl

variable {α β : Type} {blk : Nat → Buf} {odi : OndiskInode}

theorem value_getDirBlock (blk : Nat → Buf) (odi : OndiskInode) (pos : Nat) :
    value (getDirBlock v blk odi pos) = .ok (if Ext2.readMapEntry v blk odi pos = noBlock then none
      else some (Ext2.readMapEntry v blk odi pos)) := by
  unfold getDirBlock
  refine value_bind_ok (value_readMapEntry _ _ _) ?_
  split
  · rfl
  · exact value_call rfl

/-- The loop over the blocks of a directory, where the plain one returns less. -/
theorem value_walkDir {hole : String} {body : Nat → Except Fault (Option α)}
    {body' : Nat → Except Fault (Option β)} (h : Nat × α → β)
    (hbody : ∀ block, body' block = Option.map (fun r => h (block, r)) <$> body block)
    (fuel : Nat) : ∀ pos, Option.map h <$> value (walkDir v blk odi hole body fuel pos) =
      Ext2.walkDir v blk odi hole body' fuel pos := by
  induction fuel with
  | zero => exact fun _ => rfl
  | succ fuel ih =>
    intro pos
    unfold walkDir Ext2.walkDir
    split
    · rw [value_bind (value_getDirBlock _ _ _) fun _ => rfl]
      generalize Ext2.readMapEntry v blk odi pos = block
      dsimp only
      by_cases hno : block = noBlock
      · rw [if_pos hno, if_pos hno]
        rfl
      rw [if_neg hno, if_neg hno]
      refine map_value_bind (Option.map fun r => h (block, r)) _ ?_ fun r => ?_
      · rw [value_lift, hbody]
      cases r with
      | some found => rfl
      | none =>
        unfold putBlock
        rw [value_call rfl]
        exact ih _
    · rfl

theorem value_walkBlocks {hole : String} {body : Nat → Except Fault (Option α)}
    {body' : Nat → Except Fault (Option β)} (h : Nat × α → β)
    (hbody : ∀ block, body' block = Option.map (fun r => h (block, r)) <$> body block) :
    Option.map h <$> value (walkBlocks v blk odi hole body) =
      Ext2.walkBlocks v blk odi hole body' := value_walkDir h hbody _ _

theorem value_lookupDir (name : List UInt8) :
    value (lookupDir v blk odi name) = Ext2.lookupDir v blk odi name := by
  unfold lookupDir Ext2.lookupDir
  split
  · rfl
  refine value_bind_map (Option.map Prod.snd) (value_walkBlocks Prod.snd fun block => ?_)
    fun r => ?_
  · change _ = Option.map (fun ino => ino) <$> lookupDirBlock v (blk block) name
    rw [Option.map_id_fun', id_map]
  match r with
  | some (block, ino) => exact value_call rfl
  | none => rfl

theorem value_isDirEmpty : value (isDirEmpty v blk odi) = Ext2.isDirEmpty v blk odi := by
  unfold isDirEmpty Ext2.isDirEmpty
  refine value_bind_map (Option.map Prod.snd) (value_walkBlocks Prod.snd fun block => ?_)
    fun r => ?_
  · change _ = Option.map (fun r => r) <$> _
    rw [Option.map_id_fun', id_map]
  match r with
  | some (block, _) => exact value_call rfl
  | none => rfl

theorem value_enterDirent (i block : Nat) (b : Buf) (o ino : Nat) (name : List UInt8)
    (mode : UInt16) : value (enterDirent v env s i block b o ino name mode) =
      Ext2.enterDirent v env s i block b o ino name mode := by
  unfold enterDirent Ext2.enterDirent
  refine value_bind (value_lift _) fun b => ?_
  exact value_call (value_writeInode _)

theorem value_direntEnter (i : Nat) (name : List UInt8) (ino : Nat) (mode : UInt16) :
    value (direntEnter v env s i name ino mode) = Ext2.direntEnter v env s i name ino mode := by
  unfold direntEnter Ext2.direntEnter
  split
  · rfl
  unfold findSpace
  refine value_bind_map (Option.map id) (value_walkBlocks id fun block => ?_) fun r => ?_
  · cases findDirentFreeSpace v (s.blk block) (dirEntrySize name.length) <;> rfl
  match r with
  | some (block, b, o) => exact value_bind (value_enterDirent _ _ _ _ _ _ _) fun _ => rfl
  | none => rfl

theorem value_direntDelete (i : Nat) (name : List UInt8) :
    value (direntDelete v env s i name) = Ext2.direntDelete v env s i name := by
  unfold direntDelete Ext2.direntDelete
  split
  · rfl
  unfold findAndDelete
  refine value_bind_map (Option.map id) (value_walkBlocks id fun block => ?_) fun r => ?_
  · cases searchBlockAndDelete v (s.blk block) name <;> rfl
  match r with
  | some (block, b) => exact value_bind (value_writeInode _) fun _ => value_call rfl
  | none => rfl

theorem value_getDirentsLoop (size fuel : Nat) :
    ∀ pos db, value (getDirentsLoop v blk odi size fuel pos db) =
      Ext2.getDirentsLoop v blk odi size fuel pos db := by
  induction fuel with
  | zero => exact fun _ _ => rfl
  | succ fuel ih =>
    intro pos db
    unfold getDirentsLoop Ext2.getDirentsLoop
    split
    · refine value_bind_ok (value_getDirBlock _ _ _) ?_
      dsimp only
      generalize Ext2.readMapEntry v blk odi pos = block
      by_cases hno : block = noBlock
      · rw [if_pos hno, if_pos hno]
        rfl
      rw [if_neg hno, if_neg hno]
      refine value_bind (value_lift _) fun r => ?_
      match r with
      | none => exact value_call (ih _ _)
      | some o =>
        refine value_bind (value_lift _) fun r => ?_
        obtain ⟨full, o, db⟩ := r
        apply value_call
        dsimp only
        split
        · rfl
        · exact ih _ _
    · rfl

theorem value_getDirents (cookie size : Nat) :
    value (getDirents v blk odi cookie size) = Ext2.getDirents v blk odi cookie size := by
  unfold getDirents Ext2.getDirents
  split
  · rfl
  · exact value_bind (value_getDirentsLoop _ _ _ _) fun _ => rfl

end Value

end Cheviot.Ext2.Buffers
