import Cheviot.Ext2.NewInode
import Cheviot.Ext2.Readdir

/-!
# The requests: `ops_dir.c`, `ops_file.c`, `ops_link.c`, `ops_prot.c`

One function for each message the main loop knows, and `handle`, which is its
`switch`. A handler gets the message and the state, and ends with the new state
and the reply. `Reached` are the states a run of the main loop goes through.

Mirroring notes:
- A name is the bytes in front of its NUL, at most `NAME_MAX` of them. `ino_t`
  and the positions in a file are `Nat`: the kernel's VFS hands out no negative
  position.
- `writemsg` copies what fits into the client's buffer, which is part of the
  message; a shorter count than was asked for is an error for `read_chunk`.
- The times in the replies are all 0 and left out.
- `get_dirents` returns `-ENOENT` as a `size_t`; what `writemsg` makes of a length
  that large is left out, the reply has the error.
-/

namespace Cheviot.Ext2

open Cheviot.Bytes

/-! ## Messages -/

/-- An `iorequest_t`, with the data that comes along. -/
inductive Request where
  | read (ino count offset room : Nat)
  | write (ino count offset : Nat) (msg : List UInt8)
  | lookup (dirIno : Nat) (name : List UInt8)
  | close
  | create (dirIno : Nat) (name : List UInt8) (mode uid gid : UInt16)
  | readdir (ino offset sz : Nat)
  | unlink (dirIno : Nat) (name : List UInt8)
  | rmdir (dirIno : Nat) (name : List UInt8)
  | mkdir (dirIno : Nat) (name : List UInt8) (mode uid gid : UInt16)
  | mknod (dirIno : Nat) (name : List UInt8) (mode uid gid : UInt16)
  | rename (srcDirIno : Nat) (srcName : List UInt8) (dstDirIno : Nat) (dstName : List UInt8)
  | chmod (ino : Nat) (mode : UInt16)
  | chown (ino : Nat) (uid gid : UInt16)
  | truncate (ino size : Nat)
  | other
  deriving DecidableEq, Repr

/-- The part of an `ioreply_t` that tells about an inode. -/
structure InodeReply where
  ino : Nat
  size : UInt32
  uid : UInt16
  gid : UInt16
  mode : UInt16
  deriving DecidableEq, Repr

/-- What `replymsg` and `writemsg` send back. -/
inductive Reply where
  | status (sc : Except Errno Unit)
  | written (n : Nat)
  | data (bytes : List UInt8)
  | inode (r : InodeReply)
  | dirents (cookie : Nat) (entries : List Dirent)

/-- A negative status. -/
abbrev Reply.err (e : Errno) : Reply := .status (.error e)

/-- The members of a reply that come from an inode. -/
def inodeReply (x : Inode) : InodeReply where
  ino := x.ino
  size := x.odi.size
  uid := x.odi.uid
  gid := x.odi.gid
  mode := x.odi.mode

/-! ## `read_file` -/

/-- `read_chunk`: the bytes sent to offset `msgOff` of a buffer of `room` bytes. A
hole reads as zeros. -/
def readChunk (v : Volume) (s : Fs) (i position off chunkSize msgOff room : Nat) :
    Except Errno (List UInt8) :=
  let block := readMapEntry v s.blk (s.slot i).odi position
  let bytes :=
    if block = noBlock then List.replicate chunkSize 0 else getBytes (s.blk block) off chunkSize
  if room < msgOff + chunkSize then .error .eio else .ok bytes

/-- The loop of `read_file`, with the bytes sent so far. -/
def readLoop (v : Volume) (s : Fs) (i nrbytes room : Nat) :
    Nat → Nat → List UInt8 → Except Fault (Except Errno (List UInt8))
  | 0, _, _ => .error .hang
  | fuel + 1, position, sent =>
    if sent.length < nrbytes then
      let off := position % v.blockSize
      -- not the bytes still to be read
      let chunkSize := min (v.blockSize - off) nrbytes
      let fileSize := (s.slot i).odi.size.toNat
      if fileSize ≤ position then .ok (.ok sent)
      else
        let chunkSize := min chunkSize (fileSize - position)
        match readChunk v s i position off chunkSize sent.length room with
        | .error e => .ok (.error e)
        | .ok bytes =>
          readLoop v s i nrbytes room fuel (position + chunkSize) (sent ++ bytes)
    else .ok (.ok sent)

/-- `i_update |= ATIME` and `inode_markdirty`. -/
def markAtime (s : Fs) (i : Nat) : Fs :=
  s.setSlot i { s.slot i with update := { (s.slot i).update with atime := true }, dirty := true }

/-- `read_file`, for a client with `room` bytes. -/
def readFile (v : Volume) (s : Fs) (ino nrbytes position room : Nat) :
    Except Fault (Fs × Except Errno (List UInt8)) := do
  match ← findInode s ino with
  | none => return (s, .error .einval)
  | some i =>
    match ← readLoop v s i nrbytes room (nrbytes + 1) position [] with
    | .error e => return (s, .error e)
    | .ok bytes => return (markAtime s i, .ok bytes)

/-! ## `ops_file.c` -/

/-- `i_update |= CTIME` and `inode_markdirty`, with the on-disk part changed by `f`. -/
def changeInode (s : Fs) (i : Nat) (f : OndiskInode → OndiskInode) : Fs :=
  s.setSlot i { s.slot i with
    odi := f (s.slot i).odi, update := { (s.slot i).update with ctime := true }, dirty := true }

section Handlers

variable (c : InodeCalls) (v : Volume) (env : Env) (s : Fs)

/-- `ext2_read`. -/
def ext2Read (ino count offset room : Nat) : Except Fault (Fs × Reply) := do
  let (s, nbytesRead) ← readFile v s ino count offset room
  match nbytesRead with
  | .error e => return (s, .err e)
  | .ok bytes => return (s, .data bytes)

/-- `ext2_write`. -/
def ext2Write (ino count offset : Nat) (msg : List UInt8) : Except Fault (Fs × Reply) := do
  let (s, nbytesWritten) ← writeFile v env s ino count offset msg
  match nbytesWritten with
  | .error e => return (s, .err e)
  | .ok n => return (s, .written n)

/-- `ext2_create`. -/
def ext2Create (dirIno : Nat) (name : List UInt8) (mode uid gid : UInt16) :
    Except Fault (Fs × Reply) := do
  let (s, dirInode) ← c.get s dirIno
  match dirInode with
  | none => return (s, .err .enoent)
  | some dir =>
    -- `S_IFREG | (mode & 0777)`
    let (s, inode) ← newInode c v env s dir name (0x8000 ||| (mode &&& 0x1FF)) uid gid
    match inode with
    | .error e => return (← c.put s dir, .err e)
    | .ok i =>
      let reply := inodeReply (s.slot i)
      let s ← c.put s dir
      let s ← c.put s i
      return (s, .inode reply)

/-! ## `ops_dir.c` -/

/-- `ext2_lookup`. -/
def ext2Lookup (dirIno : Nat) (name : List UInt8) : Except Fault (Fs × Reply) := do
  let (s, dirInode) ← c.get s dirIno
  match dirInode with
  | none => return (s, .err .einval)
  | some dir =>
    match ← lookupDir v s.blk (s.slot dir).odi name with
    | .error e => return (← c.put s dir, .err e)
    | .ok ino =>
      let (s, inode) ← c.get s ino
      match inode with
      | none => return (← c.put s dir, .err .eio)
      | some i =>
        let reply := inodeReply (s.slot i)
        let s ← c.put s i
        let s ← c.put s dir
        return (s, .inode reply)

/-- `sizeof readdir_buf`. -/
def readdirBufSize : Nat := 512

/-- `ext2_readdir`. `get_dirents` marks the inode once it has a valid cookie. -/
def ext2Readdir (ino offset sz : Nat) : Except Fault (Fs × Reply) := do
  let (s, dirInode) ← c.get s ino
  match dirInode with
  | none => return (s, .err .einval)
  | some dir =>
    match ← getDirents v s.blk (s.slot dir).odi offset (min readdirBufSize sz) with
    | .error e => return (← c.put s dir, .err e)
    | .ok (cookie, entries) => return (← c.put (markAtime s dir) dir, .dirents cookie entries)

/-- What `ext2_mkdir` does with the two entries of the new directory in slot `i`. -/
def enterDots (dir i : Nat) : Except Fault (Fs × Bool) := do
  let (s, sc1) ← direntEnter v env s i [0x2E] (s.slot i).ino 0x4000
  let (s, sc2) ← direntEnter v env s i [0x2E, 0x2E] (s.slot dir).ino 0x4000
  return (s, sc1.isOk && sc2.isOk)

/-- What `ext2_mkdir` does with the links once the entries are there, or not. -/
def linkDots (dir i : Nat) (name : List UInt8) (ok : Bool) : Except Fault Fs :=
  if ok then
    let s := s.setLinks i ((s.slot i).odi.linksCount + 1)
    .ok (inodeMarkdirty (s.setLinks dir ((s.slot dir).odi.linksCount + 1)) dir)
  else do
    let (s, sc) ← direntDelete v env s dir name
    match sc with
    | .error _ => .error (.panic "extfs: dir disappeared during mkdir: %d ")
    | .ok _ => return s.setLinks i ((s.slot i).odi.linksCount - 1)

/-- `ext2_mkdir`. -/
def ext2Mkdir (dirIno : Nat) (name : List UInt8) (mode uid gid : UInt16) :
    Except Fault (Fs × Reply) := do
  let (s, dirInode) ← c.get s dirIno
  match dirInode with
  | none => return (s, .err .enoent)
  | some dir =>
    let (s, inode) ← newInode c v env s dir name mode uid gid
    match inode with
    | .error e => return (← c.put s dir, .err e)
    | .ok i =>
      let (s, ok) ← enterDots v env s dir i
      let s ← linkDots v env s dir i name ok
      let s ← c.put (inodeMarkdirty s i) dir
      let reply := inodeReply (s.slot i)
      let s ← c.put s i
      return (s, .inode reply)

/-- `ext2_rmdir`. -/
def ext2Rmdir (dirIno : Nat) (name : List UInt8) : Except Fault (Fs × Reply) := do
  let (s, dirInode) ← c.get s dirIno
  match dirInode with
  | none => return (s, .err .eio)
  | some dir =>
    match ← lookupDir v s.blk (s.slot dir).odi name with
    | .error _ => return (← c.put s dir, .err .eio)
    | .ok ino =>
      let (s, inode) ← c.get s ino
      match inode with
      | none => return (← c.put s dir, .err .eio)
      | some i =>
        if ← isDirEmpty v s.blk (s.slot i).odi then
          let (s, sc) ← direntDelete v env s dir name
          let s := if sc.isOk then
              let s := changeInode s dir fun odi => { odi with linksCount := odi.linksCount - 1 }
              changeInode s i fun odi => { odi with linksCount := odi.linksCount - 1 }
            else s
          let s ← c.put s i
          let s ← c.put s dir
          return (s, .status sc)
        else
          let s ← c.put s i
          let s ← c.put s dir
          return (s, .err .enotempty)

/-! ## `ops_link.c` -/

/-- What `ext2_rename` does once it has the three inodes. -/
def moveEntry (srcDir : Nat) (srcName : List UInt8) (dstDir : Nat) (dstName : List UInt8)
    (i ino : Nat) : Except Fault (Fs × Except Errno Unit) := do
  let (s, sc) ← direntEnter v env s dstDir dstName ino (s.slot i).odi.mode
  match sc with
  | .error e => return (s, .error e)
  | .ok _ =>
    let s := changeInode s i fun odi => { odi with linksCount := odi.linksCount + 1 }
    let (s, sc) ← direntDelete v env s srcDir srcName
    match sc with
    | .error e => return (s, .error e)
    | .ok _ =>
      return (changeInode s i fun odi => { odi with linksCount := odi.linksCount - 1 }, .ok ())

/-- `ext2_rename`. -/
def ext2Rename (srcDirIno : Nat) (srcName : List UInt8) (dstDirIno : Nat)
    (dstName : List UInt8) : Except Fault (Fs × Reply) := do
  let (s, srcDirInode) ← c.get s srcDirIno
  match srcDirInode with
  | none => return (s, .err .enoent)
  | some srcDir =>
    let (s, dstDirInode) ← c.get s dstDirIno
    match dstDirInode with
    | none => return (← c.put s srcDir, .err .enoent)
    | some dstDir =>
      match ← lookupDir v s.blk (s.slot srcDir).odi srcName with
      | .error _ =>
        let s ← c.put s srcDir
        let s ← c.put s dstDir
        return (s, .err .eio)
      | .ok ino =>
        let (s, inode) ← c.get s ino
        match inode with
        | none =>
          let s ← c.put s srcDir
          let s ← c.put s dstDir
          return (s, .err .eio)
        | some i =>
          let (s, sc) ← moveEntry v env s srcDir srcName dstDir dstName i ino
          let s ← c.put s i
          let s ← c.put s dstDir
          let s ← c.put s srcDir
          return (s, .status sc)

/-- `ext2_mknod`. -/
def ext2Mknod (dirIno : Nat) (name : List UInt8) (mode uid gid : UInt16) :
    Except Fault (Fs × Reply) := do
  let (s, dirInode) ← c.get s dirIno
  match dirInode with
  | none => return (s, .err .enoent)
  | some dir =>
    let (s, inode) ← newInode c v env s dir name mode uid gid
    match inode with
    | .error e => return (← c.put s dir, .err e)
    | .ok i =>
      let s ← c.put s i
      let s ← c.put s dir
      return (s, .status (.ok ()))

/-- `ext2_unlink`. -/
def ext2Unlink (dirIno : Nat) (name : List UInt8) : Except Fault (Fs × Reply) := do
  let (s, dirInode) ← c.get s dirIno
  match dirInode with
  | none => return (s, .err .eio)
  | some dir =>
    match ← lookupDir v s.blk (s.slot dir).odi name with
    | .error _ => return (← c.put s dir, .err .eio)
    | .ok ino =>
      let (s, inode) ← c.get s ino
      match inode with
      | none => return (← c.put s dir, .err .eio)
      | some i =>
        let (s, sc) ← direntDelete v env s dir name
        let s := if sc.isOk then
            changeInode s i fun odi => { odi with linksCount := odi.linksCount - 1 }
          else s
        let s ← c.put s i
        let s ← c.put s dir
        return (s, .status sc)

/-! ## `ops_prot.c` -/

/-- A handler that changes one inode: `ext2_chmod` and `ext2_chown`. -/
def changeHandler (ino : Nat) (f : OndiskInode → OndiskInode) : Except Fault (Fs × Reply) := do
  let (s, inode) ← c.get s ino
  match inode with
  | none => return (s, .err .enoent)
  | some i => return (← c.put (changeInode s i f) i, .status (.ok ()))

/-- `(i_mode & ~0777) | (mode & 0777)`. -/
def chmodMode (old mode : UInt16) : UInt16 := (old &&& 0xFE00) ||| (mode &&& 0x1FF)

/-- `ext2_chmod`. -/
def ext2Chmod (ino : Nat) (mode : UInt16) : Except Fault (Fs × Reply) :=
  changeHandler c s ino fun odi => { odi with mode := chmodMode odi.mode mode }

/-- `ext2_chown`. -/
def ext2Chown (ino : Nat) (uid gid : UInt16) : Except Fault (Fs × Reply) :=
  changeHandler c s ino fun odi => { odi with uid := uid, gid := gid }

/-! ## The main loop -/

/-- The `switch` of `main`. -/
def handle : Request → Except Fault (Fs × Reply)
  | .read ino count offset room => ext2Read v s ino count offset room
  | .write ino count offset msg => ext2Write v env s ino count offset msg
  | .lookup dirIno name => ext2Lookup c v s dirIno name
  | .close => .ok (s, .status (.ok ()))
  | .create dirIno name mode uid gid => ext2Create c v env s dirIno name mode uid gid
  | .readdir ino offset sz => ext2Readdir c v s ino offset sz
  | .unlink dirIno name => ext2Unlink c v env s dirIno name
  | .rmdir dirIno name => ext2Rmdir c v env s dirIno name
  | .mkdir dirIno name mode uid gid => ext2Mkdir c v env s dirIno name mode uid gid
  | .mknod dirIno name mode uid gid => ext2Mknod c v env s dirIno name mode uid gid
  | .rename srcDirIno srcName dstDirIno dstName =>
    ext2Rename c v env s srcDirIno srcName dstDirIno dstName
  | .chmod ino mode => ext2Chmod c s ino mode
  | .chown ino uid gid => ext2Chown c s ino uid gid
  -- `ext2_close` and `ext2_truncate` only reply
  | .truncate _ _ => .ok (s, .status (.ok ()))
  | .other => .ok (s, .err .enotsup)

end Handlers

/-- The states between the requests of a run that begins in `s₀`. Every request is
as `ok` demands, and is handled without a fault. -/
inductive Reached (v : Volume) (ok : Fs → Env → Request → Prop) (s₀ : Fs) : Fs → Prop where
  | start : Reached v ok s₀ s₀
  | step {s s' : Fs} {env : Env} {req : Request} {reply : Reply} (h : Reached v ok s₀ s)
      (hok : ok s env req) (hrun : handle (inodeCalls v env) v env s req = .ok (s', reply)) :
      Reached v ok s₀ s'

end Cheviot.Ext2
