import Cheviot.Ext2.Dir
import Cheviot.Ext2.Write

/-!
# Making an inode: `alloc_inode`, `new_inode`

`new_inode` checks that the parent may get another entry, allocates an inode,
writes it, and enters it in the parent. The group comes from one of two searches:
`find_free_inode_dir_group` takes the emptiest of the groups with enough free
inodes, `find_free_inode_file_group` stays near the parent.

Mirroring notes:
- `get_inode` and `put_inode` are a parameter (`InodeCalls`), so that how they
  are used can be stated apart from what they do.
- `find_free_inode_file_group` looks at the descriptor of the parent's group on
  every turn of its two loops.
- `mode_t`, `uid_t` and `gid_t` are cut down to the 16 bits the inode has room for.
-/

namespace Cheviot.Ext2

/-- The calls that take and give back a reference to an inode. -/
structure InodeCalls where
  /-- `get_inode` -/
  get : Fs → Nat → Except Fault (Fs × Option Nat)
  /-- `put_inode` -/
  put : Fs → Nat → Except Fault Fs

/-- The calls as `inode_cache.c` has them. -/
def inodeCalls (v : Volume) (env : Env) : InodeCalls := ⟨getInode v, putInode v env⟩

/-! ## The group for a new inode -/

/-- The loop of `find_free_inode_dir_group`, with `n` groups left from the `t`-th on. -/
def dirGroupLoop (v : Volume) (s : Fs) (avg : Int) (parentGroup : Nat) :
    Nat → Nat → Option Nat → Option Nat
  | 0, _, best => best
  | n + 1, t, best =>
    let group := (parentGroup + t) % 2 ^ 32 % v.groupsCount
    let gd := s.gd group
    if gd.freeInodesCount = 0 ∨ (gd.freeInodesCount.toNat : Int) < avg then
      dirGroupLoop v s avg parentGroup n (t + 1) best
    else
      match best with
      | none => dirGroupLoop v s avg parentGroup n (t + 1) (some group)
      | some b =>
        if (s.gd b).freeBlocksCount < gd.freeBlocksCount then
          dirGroupLoop v s avg parentGroup n (t + 1) (some group)
        else dirGroupLoop v s avg parentGroup n (t + 1) best

/-- `find_free_inode_dir_group`; the average is an `int`. -/
def findFreeInodeDirGroup (v : Volume) (env : Env) (s : Fs) (parentIno : Nat) : Option Nat :=
  let avgFreeInodesPerGroup := offT (s.freeInodesCount.toNat / v.groupsCount)
  let parentGroup :=
    if parentIno = rootIno then env.rand % v.groupsCount else pred32 parentIno / v.inodesPerGroup
  dirGroupLoop v s avgFreeInodesPerGroup parentGroup v.groupsCount 0 none

/-- The quadratic search of `find_free_inode_file_group`, with at most `fuel`
doublings of the 32-bit `t` left. -/
def fileGroupQuadratic (v : Volume) (gd : GroupDesc) :
    Nat → Nat → Nat → Except Fault (Option Nat)
  | 0, _, _ => .error .hang
  | fuel + 1, t, group =>
    if t < v.groupsCount then
      let group := (group + t) % 2 ^ 32 % v.groupsCount
      if gd.freeInodesCount ≠ 0 ∧ gd.freeBlocksCount ≠ 0 then .ok (some group)
      else fileGroupQuadratic v gd fuel (t * 2 % 2 ^ 32) group
    else .ok none

/-- The linear search of `find_free_inode_file_group`, with `n` groups left. -/
def fileGroupLinear (v : Volume) (gd : GroupDesc) : Nat → Nat → Option Nat
  | 0, _ => none
  | n + 1, group =>
    let group := (group + 1) % 2 ^ 32 % v.groupsCount
    if gd.freeInodesCount ≠ 0 then some group else fileGroupLinear v gd n group

/-- `find_free_inode_file_group`. -/
def findFreeInodeFileGroup (v : Volume) (s : Fs) (parentIno : Nat) : Except Fault (Option Nat) :=
  let parentGroup := pred32 parentIno / v.inodesPerGroup
  if v.groupsCount ≤ parentGroup then .error .outOfBounds
  else
    let gd := s.gd parentGroup
    if gd.freeInodesCount ≠ 0 ∧ gd.freeBlocksCount ≠ 0 then .ok (some parentGroup)
    else do
      match ← fileGroupQuadratic v gd 33 1 ((parentGroup + parentIno) % 2 ^ 32 % v.groupsCount) with
      | some group => return some group
      | none => return fileGroupLinear v gd v.groupsCount parentGroup

/-- The choice `alloc_inode` makes. -/
def findFreeInodeGroup (v : Volume) (env : Env) (s : Fs) (parentIno : Nat) (mode : UInt16) :
    Except Fault (Option Nat) :=
  if sIsDir mode then .ok (findFreeInodeDirGroup v env s parentIno)
  else findFreeInodeFileGroup v s parentIno

/-- The search for a directory's group only looks at the counters. -/
theorem dirGroupLoop_congr {v : Volume} {s t : Fs} (hgd : t.gd = s.gd) (avg : Int)
    (parentGroup : Nat) : ∀ (n k : Nat) (best : Option Nat),
      dirGroupLoop v t avg parentGroup n k best = dirGroupLoop v s avg parentGroup n k best
  | 0, _, _ => rfl
  | n + 1, k, best => by
    unfold dirGroupLoop
    simp only [hgd, dirGroupLoop_congr hgd avg parentGroup n]

theorem findFreeInodeDirGroup_congr {v : Volume} {s t : Fs} (hgd : t.gd = s.gd)
    (hfree : t.freeInodesCount = s.freeInodesCount) (env : Env) (ino : Nat) :
    findFreeInodeDirGroup v env t ino = findFreeInodeDirGroup v env s ino := by
  unfold findFreeInodeDirGroup
  simp only [hfree, dirGroupLoop_congr hgd]

theorem findFreeInodeGroup_congr {v : Volume} {s t : Fs} (hgd : t.gd = s.gd)
    (hfree : t.freeInodesCount = s.freeInodesCount) (env : Env) (ino : Nat) (mode : UInt16) :
    findFreeInodeGroup v env t ino mode = findFreeInodeGroup v env s ino mode := by
  unfold findFreeInodeGroup findFreeInodeFileGroup
  simp only [hgd, findFreeInodeDirGroup_congr hgd hfree]

/-! ## `alloc_inode` -/

/-- The members `alloc_inode` sets; the four times stay. -/
def initInode (x : Inode) (mode uid gid : UInt16) : Inode :=
  { x with
    odi := { x.odi with
      mode := mode, linksCount := 0, uid := uid, gid := gid, size := 0, blocks := 0, flags := 0,
      generation := 0, fileAcl := 0, dirAcl := 0, faddr := 0, block := fun _ => 0 }
    update := ⟨true, true, true⟩
    dirty := true }

/-- `alloc_inode`, next to the inode in cache slot `parent`: the slot of the new one. -/
def allocInode (c : InodeCalls) (v : Volume) (env : Env) (s : Fs) (parent : Nat)
    (mode uid gid : UInt16) : Except Fault (Fs × Except Errno Nat) := do
  match ← findFreeInodeGroup v env s (s.slot parent).ino mode with
  | none => return (s, .error .enospc)
  | some group =>
    let (s, ino) ← allocInodeBit v s group (sIsDir mode)
    if ino = noEntry then return (s, .error .enospc)
    let (s, inode) ← c.get s ino
    match inode with
    | none => return (← freeInodeBit v s ino (sIsDir mode), .error .eio)
    | some i => return (s.setSlot i (initInode (s.slot i) mode uid gid), .ok i)

/-! ## `new_inode` -/

/-- Slot `i` with another number of links. -/
def Fs.setLinks (s : Fs) (i : Nat) (n : UInt16) : Fs :=
  s.modOdi i fun odi => { odi with linksCount := n }

/-- Whether `new_inode` turns a name down before it allocates anything. -/
def refuseName (v : Volume) (s : Fs) (dir : Nat) (name : List UInt8) (mode : UInt16) :
    Except Fault (Option Errno) :=
  let links := (s.slot dir).odi.linksCount
  if links = 0 then .ok (some .enoent)
  else if sIsDir mode = true ∧ v.linkMax ≤ links.toNat then .ok (some .emlink)
  else do
    match ← lookupDir v s.blk (s.slot dir).odi name with
    | .ok _ => return some .eexist
    | .error _ => return none

/-- `new_inode`, in the directory in cache slot `dir`. -/
def newInode (c : InodeCalls) (v : Volume) (env : Env) (s : Fs) (dir : Nat) (name : List UInt8)
    (mode uid gid : UInt16) : Except Fault (Fs × Except Errno Nat) := do
  match ← refuseName v s dir name mode with
  | some e => return (s, .error e)
  | none =>
    let (s, inode) ← allocInode c v env s dir mode uid gid
    match inode with
    | .error e => return (s, .error e)
    | .ok i =>
      let s := s.setLinks i ((s.slot i).odi.linksCount + 1)
      let s ← writeInode v env s i
      let (s, sc) ← direntEnter v env s dir name (s.slot i).ino mode
      match sc with
      | .ok _ => return (s, .ok i)
      | .error e =>
        let s := inodeMarkdirty (s.setLinks i ((s.slot i).odi.linksCount - 1)) i
        return (← c.put s i, .error e)

end Cheviot.Ext2
