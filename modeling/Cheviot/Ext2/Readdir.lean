import Cheviot.Ext2.Dir

/-!
# Reading a directory: `get_dirents`

`get_dirents` copies records from a position on into a buffer, as many as fit,
and returns the position to continue from. That position is an offset in the
file; `seek_to_valid_dirent` finds the record it belongs to, as the directory may
have changed since.

Mirroring notes:
- The buffer is the entries in it and the number of bytes they take
  (`dirent_buf.position`); a `struct dirent` of the host is its inode number and
  its name.
- The cookie is an unsigned 32-bit position. A negative one is past the end of
  every directory.
- `assert (bp != NULL)` ends the handler like a panic.
- A record of length 0 that is in use is copied until the buffer is full, so the
  fuel of `fill_dirent_buf` counts the bytes of the buffer as well.
-/

namespace Cheviot.Ext2

open Cheviot.Bytes

/-- A `struct dirent` in the buffer. -/
structure Dirent where
  ino : Nat
  name : List UInt8
  deriving DecidableEq, Repr

/-- `struct dirent_buf`: the entries so far, and the bytes they take. -/
structure DirentBuf where
  entries : List Dirent
  position : Nat
  deriving DecidableEq, Repr

/-- The size of a `struct dirent` with a name of `n` bytes, rounded up to 8. -/
def direntReclen (v : Volume) (n : Nat) : Nat := (v.direntNameOff + n + 1 + 7) / 8 * 8

/-- `dirent_buf_add`: the buffer with the entry, if there is room for it. -/
def direntBufAdd (v : Volume) (db : DirentBuf) (size : Nat) (e : Dirent) : Option DirentBuf :=
  let reclen := direntReclen v e.name.length
  if db.position + reclen ≤ size then
    some ⟨db.entries ++ [e], db.position + reclen⟩
  else none

/-- The loop of `seek_to_valid_dirent`, from the record at offset `o`, which it
takes to be at `scan` in the block, to the one that `pos` lies in. -/
def seekLoop (v : Volume) (b : Buf) (pos : Nat) : Nat → Nat → Nat → Except Fault (Nat × Nat)
  | 0, _, _ => .error .hang
  | fuel + 1, scan, o =>
    if v.blockSize < o + minDirEntrySize then .error .outOfBounds
    else if scan + recLen v.beCpu b o ≤ pos ∧ nextPos v.beCpu b o < v.blockSize then
      if recLen v.beCpu b o = 0 then .error (.panic "extfs: readdir dirent record length is 0")
      else seekLoop v b pos fuel (scan + recLen v.beCpu b o) (nextPos v.beCpu b o)
    else .ok (scan, o)

/-- `seek_to_valid_dirent`, for position `pos` of the block: the offset of the
record, or `none` for a null pointer. -/
def seekToValidDirent (v : Volume) (b : Buf) (pos : Nat) : Except Fault (Option Nat) := do
  let (scan, o) ← seekLoop v b pos (v.blockSize + 1) 0 0
  return if v.blockSize ≤ scan then none else some o

/-- `fill_dirent_buf`: whether the buffer is full, where the walk has stopped, and
the buffer. -/
def fillDirentBuf (v : Volume) (b : Buf) (size : Nat) :
    Nat → Nat → DirentBuf → Except Fault (Bool × Nat × DirentBuf)
  | 0, _, _ => .error .hang
  | fuel + 1, o, db =>
    if o < v.blockSize then
      if v.blockSize < o + minDirEntrySize then .error .outOfBounds
      else if dIno v.beCpu b o ≠ 0 then
        let len := nameLen b o
        let name := getBytes b (o + minDirEntrySize) len
        match direntBufAdd v db size ⟨(bswap4 v.beCpu (dIno v.beCpu b o)).toNat, name⟩ with
        | none => .ok (true, o, db)
        | some db =>
          if v.blockSize < o + minDirEntrySize + len then .error .outOfBounds
          else fillDirentBuf v b size fuel (nextPos v.beCpu b o) db
      else fillDirentBuf v b size fuel (nextPos v.beCpu b o) db
    else .ok (false, o, db)

/-- The loop of `get_dirents`, from position `pos`: where it has stopped, and the buffer. -/
def getDirentsLoop (v : Volume) (blk : Nat → Buf) (odi : OndiskInode) (size : Nat) :
    Nat → Nat → DirentBuf → Except Fault (Nat × DirentBuf)
  | 0, _, _ => .error .hang
  | fuel + 1, pos, db =>
    if pos < odi.size.toNat then
      let base := pos / v.blockSize * v.blockSize
      let block := readMapEntry v blk odi pos
      if block = noBlock then .error (.panic "bp != NULL")
      else do
        match ← seekToValidDirent v (blk block) (pos - base) with
        | none => getDirentsLoop v blk odi size fuel (base + v.blockSize) db
        | some o =>
          let (full, o, db) ← fillDirentBuf v (blk block) size (v.blockSize + size + 1) o db
          if full then return (base + o, db)
          else getDirentsLoop v blk odi size fuel (base + o) db
    else .ok (pos, db)

/-- `get_dirents`: the new cookie and the entries for a buffer of `size` bytes. The
marks on the inode are left to the caller. -/
def getDirents (v : Volume) (blk : Nat → Buf) (odi : OndiskInode) (cookie size : Nat) :
    Except Fault (Except Errno (Nat × List Dirent)) :=
  if cookie % 4 ≠ 0 then .ok (.error .enoent)
  else do
    let (pos, db) ← getDirentsLoop v blk odi size (odi.size.toNat + 1) cookie ⟨[], 0⟩
    return .ok (pos, db.entries)

end Cheviot.Ext2
