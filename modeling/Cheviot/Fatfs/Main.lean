import Cheviot.Fatfs.File

/-!
# The handlers of requests: `main.c`

A message is a command with its arguments; the main loop gives it to the handler of its
command, which sends replies. What a handler does is a program on the sectors of the
volume with the nodes passed along, and the replies it has sent for its result.

* `handle` — one message; `serve`, the main loop.

Mirroring notes:
- A name is sent with the NUL behind it. `readmsg` puts what is sent into a buffer of the
  handler, and goes on behind its end.
- A null pointer to a node is `none`.
- `fatRead` and `fatWrite` take the inode number from the same place of a message. What
  `fatRead` finds in a message of `CMD_CREATE` may be any numbers.
- A record of `fatReadDir` has `Env.direntHeader` bytes in front of its name, and 64 bytes
  hold one. How much of the buffer it sends stands in `reply.args.readdir.nbytes_read`, which
  it never sets: a message of `CMD_READDIR` comes with what stands there, any number.
- The times of replies are left out.
-/

namespace Cheviot.Fatfs

open Cheviot.Bytes

/-! ## Messages -/

/-- A message, by its command. The `nbytesRead` of `readdir` is not the client's: it is what
the handler finds in its reply when the message comes. -/
inductive Message where
  | lookup (dirInodeNr : Nat) (name : List UInt8)
  | close (inodeNr : Nat)
  | create (inodeNr offset sz : Nat)
  | read (inodeNr offset sz : Nat)
  | write (inodeNr offset : Nat) (data : List UInt8)
  | readdir (inodeNr offset nbytesRead : Nat)
  | unlink (dirInodeNr : Nat) (name : List UInt8)
  | rmdir (dirInodeNr : Nat) (name : List UInt8)
  | mkdir (dirInodeNr : Nat) (name : List UInt8)
  | mknod
  | rename
  | unknown

/-- A record of `fatReadDir`. -/
structure Dirent where
  dName : List UInt8
  dIno : Nat
  dCookie : Nat
  dReclen : Nat

/-- The arguments of a reply. -/
inductive ReplyArgs where
  | none
  | lookup (inodeNr size uid gid mode : Nat)
  | readdir (offset nbytesRead : Nat)

/-- What `writemsg` sends: some bytes, or so many from the start of `dirents_buf` on, where the
records stand. -/
inductive Sent where
  | bytes (data : List UInt8)
  | direntsBuf (dirents : List Dirent) (nbytes : Nat)

/-- A reply, and what has been sent before it. -/
structure Reply where
  status : Int
  args : ReplyArgs := .none
  sent : Sent := .bytes []

def ePerm : Int := 1
def eNoEnt : Int := 2
def eBusy : Int := 16
def eExist : Int := 17
def eNotDir : Int := 20
def eIsDir : Int := 21
def eInval : Int := 22
def eNotSup : Int := 134

/-! ## The handlers -/

section Handlers

variable (env : Env) (sb : FatSb) (fuel : Nat)

/-- A handler: the nodes after it and the replies it has sent. -/
abbrev Handled := FatM (Vol × List Reply)

/-- A handler that sends one reply. -/
def replymsg (v : Vol) (status : Int) (args : ReplyArgs := .none) (sent : Sent := .bytes []) :
    Handled :=
  return (v, [⟨status, args, sent⟩])

/-- `readmsg` of a name into `name[256]`. -/
def readName (name : List UInt8) : FatM Unit :=
  if name.length + 1 ≤ 256 then return () else FatM.fault .wildPointer

theorem readName_flat {sb : FatSb} {name : List UInt8} {flat : Nat → UInt8}
    (h : name.length + 1 ≤ 256) :
    (readName name).run (flatOp sb.partitionStart) flat = .ok (flat, ()) := by
  unfold readName
  rw [if_pos h]
  rfl

/-- `fatLookup` -/
def fatLookup (v : Vol) (dirInodeNr : Nat) (name : List UInt8) : Handled := do
  readName name
  match findNode v dirInodeNr with
  | (v, none) => replymsg v (-ePerm)
  | (v, some dirnode) =>
    let (v, node) ← lookup env sb fuel v dirnode name
    match node with
    | none => replymsg v (-eNoEnt)
    | some i =>
      let node := v.nodes i
      let mode := if node.dirent.attributes &&& attrDirectory ≠ 0 then 0o777 ||| 0o040000 else 0o777
      replymsg v 0 (.lookup node.inodeNr node.dirent.size env.uid env.gid mode)

/-- `fatClose` -/
def fatClose (v : Vol) : Handled := replymsg v 0

/-- `fatCreate` -/
def fatCreate (v : Vol) : Handled := replymsg v (-eNotSup)

/-- `fatRead` -/
def fatRead (v : Vol) (inodeNr offset sz : Nat) : Handled :=
  match findNode v inodeNr with
  | (v, none) => replymsg v (-eInval)
  | (v, some node) => do
    let bytes ← readFile sb (v.nodes node) (min sz 0x10000) offset
    replymsg v bytes.length .none (.bytes (if 1 < bytes.length then bytes else []))

/-- `fatWrite` -/
def fatWrite (v : Vol) (inodeNr offset : Nat) (data : List UInt8) : Handled :=
  match findNode v inodeNr with
  | (v, none) => replymsg v (-eInval)
  | (v, some node) =>
    if data.length ≤ 512 then do
      let (v, nbytesWritten) ← writeFile sb fuel v node data offset
      replymsg v nbytesWritten
    else FatM.fault .wildPointer

/-- A record of the directory, if the entry gives one. -/
def direntRecord (dirent : FatDirEntry) (cookie : Nat) : Option Dirent :=
  if dirent.byte 0 = direntryFree then none
  else if dirent.byte 0 ≠ direntryDeleted ∧ dirent.attributes &&& attrVolumeId = 0 then
    let name := fatDirEntryToASCIIZ dirent
    some ⟨name, rawFirstCluster dirent, cookie, (env.direntHeader + name.length + 1 + 15) / 16 * 16⟩
  else none

/-- The loop of `fatReadDir`: the records and their size in the buffer, and the cookie behind
the last entry that was read. -/
def readDirLoop (node : FatNode) : Nat → Nat → Nat → FatM (List Dirent × Nat × Nat)
  | 0, _, _ => FatM.fault .hang
  | fuel + 1, cookie, direntBufSz =>
    if direntBufSz < 4096 - 64 then do
      match ← fatDirRead sb node cookie with
      | none => return ([], direntBufSz, cookie)
      | some (dirent, _) =>
        match direntRecord env dirent cookie with
        | none => readDirLoop node fuel (cookie + 1) direntBufSz
        | some record =>
          let (rest, sz, last) ← readDirLoop node fuel (cookie + 1) (direntBufSz + record.dReclen)
          return (record :: rest, sz, last)
    else return ([], direntBufSz, cookie)

/-- `fatReadDir` -/
def fatReadDir (v : Vol) (inodeNr offset nbytesRead : Nat) : Handled :=
  match findNode v inodeNr with
  | (_, none) => FatM.fault .wildPointer
  | (v, some node) => do
    let (dirents, direntBufSz, cookie) ← readDirLoop env sb (v.nodes node) fuel offset 0
    replymsg v direntBufSz (.readdir cookie nbytesRead) (.direntsBuf dirents nbytesRead)

/-- `fatMkNod` -/
def fatMkNod (v : Vol) : Handled := replymsg v (-eNotSup)

/-- `fatRename` -/
def fatRename (v : Vol) : Handled := replymsg v (-eNotSup)

/-- An entry of a directory that is a directory: its name, and what `fatMkDir` sets. -/
def dirDirent (dirent : FatDirEntry) (cluster : Nat) : FatDirEntry :=
  setFirstCluster sb (((dirent.setBytes 11 [attrDirectory]).setBytes 12 [0]).setBytes 28
    (leBytes32 0)) cluster

/-- The name `.` or `..`, on what stands on the stack. -/
def dotDirent (dots : Nat) : FatDirEntry :=
  (env.stackDirent.setBytes 0 (padField 8 (List.replicate dots '.'.toUInt8))).setBytes 8
    (padField 3 [])

/-- The part of `fatMkDir` once there is a node for the new directory: whether it has got its
first two entries. -/
def mkDirEntries (v : Vol) (parent node : Nat) : FatM (Vol × Bool) := do
  let dot := dirDirent sb (dotDirent env 1) (getFirstCluster sb (v.nodes node).dirent)
  let dotdot := dirDirent sb (dotDirent env 2)
    (if parent = rootNode then 0 else getFirstCluster sb (v.nodes parent).dirent)
  let (v, r) ← fatCreateDirEntry sb fuel v node dot
  match r with
  | none => return (v, false)
  | some _ =>
    let (v, r) ← fatCreateDirEntry sb fuel v node dotdot
    return (v, r.isSome)

/-- `fatMkDir` -/
def fatMkDir (v : Vol) (dirInodeNr : Nat) (name : List UInt8) : Handled := do
  readName name
  let (v, parent) := findNode v dirInodeNr
  match fatASCIIZToDirEntry env.charSigned env.stackDirent name with
  | none => replymsg v (-eInval)
  | some dirent =>
    let dirent := dirDirent sb dirent clusterEoc
    match parent with
    | none => FatM.fault .wildPointer
    | some parent =>
      let (v, r) ← fatCreateDirEntry sb fuel v parent dirent
      match r with
      | none => replymsg v 0
      | some (sector, sectorOffset) =>
        match allocNode env sb v dirent sector sectorOffset with
        | (v, none) =>
          fatDeleteDirEntry sector sectorOffset
          replymsg v 0
        | (v, some node) =>
          let (v, made) ← mkDirEntries env sb fuel v parent node
          if made then
            flushDirent v parent
            -- the status is still the one it began with
            replymsg v (-eInval)
          else
            freeClusters sb fuel (getFirstCluster sb (v.nodes node).dirent)
            fatDeleteDirEntry sector sectorOffset
            replymsg (freeNode v node) 0

/-- What `fatUnlink` and `fatRmDir` do once nothing is in the way. -/
def removeNode (v : Vol) (parent node : Nat) : FatM Vol := do
  freeClusters sb fuel (getFirstCluster sb (v.nodes node).dirent)
  let v := v.setNode node { v.nodes node with
    dirent := (v.nodes node).dirent.setBytes 0 [direntryDeleted] }
  flushDirent v parent
  flushDirent v node
  return freeNode v node

/-- `fatUnlink`, with the node of the name. -/
def unlinkNode (v : Vol) (parent node : Nat) : Handled :=
  if (v.nodes node).dirent.attributes &&& attrDirectory = 0 then
    if (v.nodes node).referenceCnt = 1 then do
      let v ← removeNode sb fuel v parent node
      replymsg v 0
    else replymsg (freeNode v node) (-eBusy)
  else replymsg (freeNode v node) (-eIsDir)

/-- `fatUnlink` -/
def fatUnlink (v : Vol) (dirInodeNr : Nat) (name : List UInt8) : Handled :=
  match findNode v dirInodeNr with
  | (v, none) => replymsg v (-eInval)
  | (v, some parent) => do
    readName name
    match ← lookup env sb fuel v parent name with
    | (v, none) => replymsg v (-eNoEnt)
    | (v, some node) => unlinkNode sb fuel v parent node

/-- `fatRmDir`, with the node of the name. -/
def rmDirNode (v : Vol) (parent node : Nat) : Handled :=
  if node ≠ rootNode then
    if (v.nodes node).dirent.attributes &&& attrDirectory ≠ 0 then
      if (v.nodes node).referenceCnt = 1 then do
        if (← isDirEmpty sb fuel (v.nodes node)) = 0 then
          let v ← removeNode sb fuel v parent node
          -- the status is still the one it began with
          replymsg v (-eInval)
        else replymsg (freeNode v node) (-eExist)
      else replymsg (freeNode v node) (-eBusy)
    else replymsg (freeNode v node) (-eNotDir)
  else replymsg (freeNode v node) (-eInval)

/-- `fatRmDir` -/
def fatRmDir (v : Vol) (dirInodeNr : Nat) (name : List UInt8) : Handled :=
  match findNode v dirInodeNr with
  | (v, none) => replymsg v (-eInval)
  | (v, some parent) => do
    readName name
    match ← lookup env sb fuel v parent name with
    | (v, none) => replymsg v (-eNoEnt)
    | (v, some node) => rmDirNode sb fuel v parent node

/-- The entry of a directory that is being made has no first cluster: there is no node for
it. -/
theorem allocNode_dirDirent (v : Vol) (dirent : FatDirEntry) (sector : Nat) (offset : Fin 512) :
    allocNode env sb v (dirDirent sb dirent clusterEoc) sector offset = (v, none) :=
  if_pos (.inl (getFirstCluster_setFirstCluster (.inr (.inr (.inr rfl)))))

/-! ## The main loop -/

/-- The dispatch of a message. -/
def handle (v : Vol) : Message → Handled
  | .lookup dirInodeNr name => fatLookup env sb fuel v dirInodeNr name
  | .close _ => fatClose v
  | .create inodeNr offset sz => do
    -- there is no `break` behind it
    let (v, replies) ← fatCreate v
    let (v, more) ← fatRead sb v inodeNr offset sz
    return (v, replies ++ more)
  | .read inodeNr offset sz => fatRead sb v inodeNr offset sz
  | .write inodeNr offset data => fatWrite sb fuel v inodeNr offset data
  | .readdir inodeNr offset nbytesRead => fatReadDir env sb fuel v inodeNr offset nbytesRead
  | .unlink dirInodeNr name => fatUnlink env sb fuel v dirInodeNr name
  | .rmdir dirInodeNr name => fatRmDir env sb fuel v dirInodeNr name
  | .mkdir dirInodeNr name => fatMkDir env sb fuel v dirInodeNr name
  | .mknod => fatMkNod v
  | .rename => fatRename v
  | .unknown => FatM.fault .exit

/-- The main loop, for the messages that come. -/
def serve (v : Vol) : List Message → FatM (Vol × List (List Reply))
  | [] => return (v, [])
  | req :: reqs => do
    let (v, replies) ← handle env sb fuel v req
    let (v, rest) ← serve v reqs
    return (v, replies :: rest)

end Handlers

end Cheviot.Fatfs
