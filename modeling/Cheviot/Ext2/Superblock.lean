import Cheviot.Ext2.Types
import Cheviot.Lib.Run

/-!
# Reading the superblock

`read_superblock` takes the superblock and the group descriptors off the disk and works
out the numbers that the rest of the file system goes by. Some of its checks come after
the divisions that they are there for, and some fields are not checked.

* `readSuperblock_answers_iff` — when it ends without a fault or a wrapped number, and
  what then holds of the numbers.
* `readSuperblock_volume` — these are the numbers that a `Volume` is made of.

Mirroring notes:
- An unsigned operation in 32 bits gives its result and whether that has wrapped
  (`addU`, `subU`, `mulU`). The flags are only collected: the code goes on with the result.
- `1 << 31` and the product with it are those of two's complement, of which 16 bits are
  kept. A `size_t` has 32 bits.
- What `read` returns at a position is left to the device, as is whether `mmap` has memory
  for the two tables.
-/

namespace Cheviot.Ext2

open Cheviot.Bytes Cheviot.Run

/-! ## Arithmetic -/

/-- What `read_superblock` may die of. -/
inductive MountFault where
  | shift
  | divide
  | panic (msg : String)
  deriving DecidableEq, Repr

/-- `x + y`, and whether it wraps. -/
def addU (x y : UInt32) : UInt32 × Bool := (x + y, decide (2 ^ 32 ≤ x.toNat + y.toNat))

/-- `x - y`, and whether it wraps. -/
def subU (x y : UInt32) : UInt32 × Bool := (x - y, decide (x.toNat < y.toNat))

/-- `x * y`, and whether it wraps. -/
def mulU (x y : UInt32) : UInt32 × Bool := (x * y, decide (2 ^ 32 ≤ x.toNat * y.toNat))

/-- `x / y`. -/
def divU (x y : UInt32) : Except MountFault UInt32 := if y = 0 then .error .divide else .ok (x / y)

section Arithmetic

variable {x y : UInt32}

theorem addU_wraps : (addU x y).2 = false ↔ x.toNat + y.toNat < 2 ^ 32 := by
  unfold addU
  rw [decide_eq_false_iff_not, Nat.not_le]

theorem subU_wraps : (subU x y).2 = false ↔ y.toNat ≤ x.toNat := by
  unfold subU
  rw [decide_eq_false_iff_not, Nat.not_lt]

theorem mulU_wraps : (mulU x y).2 = false ↔ x.toNat * y.toNat < 2 ^ 32 := by
  unfold mulU
  rw [decide_eq_false_iff_not, Nat.not_le]

theorem addU_toNat (h : x.toNat + y.toNat < 2 ^ 32) : (addU x y).1.toNat = x.toNat + y.toNat := by
  show (x + y).toNat = _
  rw [UInt32.toNat_add, Nat.mod_eq_of_lt h]

theorem subU_toNat (h : y.toNat ≤ x.toNat) : (subU x y).1.toNat = x.toNat - y.toNat :=
  UInt32.toNat_sub_of_le x y (UInt32.le_iff_toNat_le.mpr h)

theorem mulU_toNat (h : x.toNat * y.toNat < 2 ^ 32) : (mulU x y).1.toNat = x.toNat * y.toNat := by
  show (x * y).toNat = _
  rw [UInt32.toNat_mul, Nat.mod_eq_of_lt h]

theorem divU_ok (h : y ≠ 0) : divU x y = .ok (x / y) := if_neg h

end Arithmetic

/-! ## The superblock and the descriptors -/

def superblockOffset : Nat := 1024
def superblockSize : Nat := 1024
def superMagic : UInt16 := 0xEF53
def dynamicRev : UInt32 := 1
def goodOldInodeSize : UInt32 := 128
def goodOldFirstIno : UInt32 := 11
/-- `sizeof (struct group_desc)`. -/
def groupDescSize : UInt32 := 32

/-- `struct superblock`: the members that are used. -/
structure Superblock where
  inodesCount : UInt32
  blocksCount : UInt32
  freeBlocksCount : UInt32
  freeInodesCount : UInt32
  firstDataBlock : UInt32
  logBlockSize : UInt32
  blocksPerGroup : UInt32
  inodesPerGroup : UInt32
  magic : UInt16
  revLevel : UInt32
  firstIno : UInt32
  inodeSize : UInt16
  featureIncompat : UInt32

/-- `super_copy`, from the bytes on the disk. -/
def superCopy (be : Bool) (img : Buf) : Superblock where
  inodesCount := bswap4 be (ld32 be img 0)
  blocksCount := bswap4 be (ld32 be img 4)
  freeBlocksCount := bswap4 be (ld32 be img 12)
  freeInodesCount := bswap4 be (ld32 be img 16)
  firstDataBlock := bswap4 be (ld32 be img 20)
  logBlockSize := bswap4 be (ld32 be img 24)
  blocksPerGroup := bswap4 be (ld32 be img 32)
  inodesPerGroup := bswap4 be (ld32 be img 40)
  magic := bswap2 be (ld16 be img 56)
  revLevel := bswap4 be (ld32 be img 76)
  firstIno := bswap4 be (ld32 be img 84)
  inodeSize := bswap2 be (ld16 be img 88)
  featureIncompat := bswap4 be (ld32 be img 96)

/-- `struct group_desc`. -/
structure DiskGroupDesc where
  blockBitmap : UInt32
  inodeBitmap : UInt32
  inodeTable : UInt32
  counters : GroupDesc

/-- `gd_copy`, from the bytes on the disk at `o`. -/
def gdCopy (be : Bool) (b : Buf) (o : Nat) : DiskGroupDesc where
  blockBitmap := bswap4 be (ld32 be b o)
  inodeBitmap := bswap4 be (ld32 be b (o + 4))
  inodeTable := bswap4 be (ld32 be b (o + 8))
  counters :=
    { freeBlocksCount := bswap2 be (ld16 be b (o + 12))
      freeInodesCount := bswap2 be (ld16 be b (o + 14))
      usedDirsCount := bswap2 be (ld16 be b (o + 16)) }

/-- `ext2_count_dirs`, over the first `n` groups. -/
def ext2CountDirs (descs : Nat → DiskGroupDesc) (n : Nat) : UInt32 :=
  (List.range n).foldl (fun count i => count + (descs i).counters.usedDirsCount.toUInt32) 0

/-- The device: its bytes, how many of them `read` returns at a position, and whether
`mmap` has memory for the tables. -/
structure Device where
  byte : Nat → UInt8
  read : Nat → Nat → Nat
  mmap : Bool

/-- The superblock on a device. -/
def Device.superblock (d : Device) (be : Bool) : Superblock :=
  superCopy be fun j => d.byte (superblockOffset + j)

/-! ## The numbers -/

/-- What is worked out about the table of group descriptors. -/
structure GroupTable where
  descPerBlock : UInt32
  groupsCount : UInt32
  groupDescBlockCount : UInt32
  gdtPosition : UInt64
  /-- `sb_groups_count * sizeof (struct group_desc)` -/
  size : UInt32

/-- What `read_superblock` leaves behind. -/
structure Mounted where
  blockSize : UInt16
  sectorsInBlock : UInt16
  inodeSize : UInt32
  firstIno : UInt32
  blocksizeBits : UInt8
  maxSize : UInt32
  inodesPerBlock : UInt32
  inodeTableBlocksPerGroup : UInt32
  table : GroupTable
  groupDescs : Nat → DiskGroupDesc
  dirsCounter : UInt32
  addrInBlock : UInt32
  addrInBlock2 : UInt32
  doubIndS : UInt32
  tripleIndS : UInt32
  outRangeS : UInt32

/-- `EXT2_MIN_BLOCK_SIZE * (1 << s_log_block_size)` as a `uint16_t`. -/
def sbBlockSize (log : UInt32) : Except MountFault UInt16 :=
  if 32 ≤ log.toNat then .error .shift else .ok (UInt16.ofNat (1024 * 2 ^ log.toNat))

/-- `sb_inode_size`. -/
def Superblock.sbInodeSize (sb : Superblock) : UInt32 :=
  if sb.revLevel = dynamicRev then sb.inodeSize.toUInt32 else goodOldInodeSize

/-- `sb_first_ino`. -/
def Superblock.sbFirstIno (sb : Superblock) : UInt32 :=
  if sb.revLevel = dynamicRev then sb.firstIno else goodOldFirstIno

/-- The check of the inode size. -/
def inodeSizeIncorrect (inodeSize blockSize : UInt32) : Bool :=
  (inodeSize &&& (inodeSize - 1)) ≠ 0 || blockSize < inodeSize

/-- `sb_groups_count`. -/
def sbGroupsCount (sb : Superblock) : Except MountFault (UInt32 × Bool) := do
  let blocks := subU sb.blocksCount sb.firstDataBlock
  let last := subU blocks.1 1
  let group ← divU last.1 sb.blocksPerGroup
  let count := addU group 1
  return (count.1, blocks.2 || last.2 || count.2)

/-- The numbers about the group descriptors, up to the size of the table. -/
def groupTable (sb : Superblock) (blockSize : UInt32) : Except MountFault (GroupTable × Bool) := do
  let descPerBlock := blockSize / groupDescSize
  let groups ← sbGroupsCount sb
  let sum := addU groups.1 descPerBlock
  let last := subU sum.1 1
  let blocks ← divU last.1 descPerBlock
  let next := addU sb.firstDataBlock 1
  let position := mulU next.1 blockSize
  let size := mulU groups.1 groupDescSize
  return (⟨descPerBlock, groups.1, blocks, position.1.toUInt64, size.1⟩,
    groups.2 || (sum.2 || last.2) || (next.2 || position.2) || size.2)

/-- `read_superblock` from the group table on. -/
def readGroupDescs (be : Bool) (d : Device) (sb : Superblock) (blockSize : UInt16)
    (inodeSize inodesPerBlock : UInt32) : Except MountFault (Except Errno Mounted × Bool) := do
  let tableBlocks ← divU sb.inodesPerGroup inodesPerBlock
  let (table, wraps) ← groupTable sb blockSize.toUInt32
  if d.mmap = false then .error (.panic "can't allocate group desc array")
  else if d.read table.gdtPosition.toNat table.size.toNat ≠ table.size.toNat then
    return (.error .einval, wraps)
  else
    let descs := fun g => gdCopy be d.byte (table.gdtPosition.toNat + 32 * g)
    if sb.inodesCount < 1 ∨ sb.blocksCount < 1 then return (.error .einval, wraps)
    else
      let addr := blockSize.toUInt32 / 4
      let addr2 := mulU addr addr
      let doub := addU (UInt32.ofNat ndirBlocks) addr
      let triple := addU doub.1 addr2.1
      let mounted : Mounted :=
        { blockSize
          sectorsInBlock := blockSize / 512
          inodeSize
          firstIno := sb.sbFirstIno
          blocksizeBits := UInt8.ofNat (sb.logBlockSize.toNat + 10)
          maxSize := UInt32.ofNat maxFilePos
          inodesPerBlock
          inodeTableBlocksPerGroup := tableBlocks
          table
          groupDescs := descs
          dirsCounter := ext2CountDirs descs table.groupsCount.toNat
          addrInBlock := addr
          addrInBlock2 := addr2.1
          doubIndS := doub.1
          tripleIndS := triple.1
          outRangeS := 0xFFFF0000 }
      return (.ok mounted, wraps || (addr2.2 || doub.2 || triple.2))

/-- `read_superblock`: what it leaves behind or the error it returns, and whether a
number has wrapped. -/
def readSuperblock (be : Bool) (d : Device) : Except MountFault (Except Errno Mounted × Bool) :=
  if d.read superblockOffset superblockSize ≠ superblockSize then .ok (.error .einval, false)
  else
    let sb := d.superblock be
    if sb.magic ≠ superMagic then .ok (.error .einval, false)
    else do
      let blockSize ← sbBlockSize sb.logBlockSize
      if blockSize % 512 ≠ 0 then return (.error .einval, false)
      else if blockSize.toNat < superblockSize then return (.error .einval, false)
      else
        let inodeSize := sb.sbInodeSize
        if inodeSizeIncorrect inodeSize blockSize.toUInt32 then return (.error .einval, false)
        else
          let inodesPerBlock ← divU blockSize.toUInt32 inodeSize
          if inodesPerBlock = 0 ∨ sb.inodesPerGroup = 0 then return (.error .einval, false)
          else readGroupDescs be d sb blockSize inodeSize inodesPerBlock

/-! ## What each step gives -/

section Steps

variable {sb : Superblock}

/-- The number of groups, where nothing wraps. -/
def Superblock.groups (sb : Superblock) : Nat :=
  (sb.blocksCount.toNat - sb.firstDataBlock.toNat - 1) / sb.blocksPerGroup.toNat + 1

theorem sbBlockSize_small {log : UInt32} (h : log.toNat ≤ 5) :
    (UInt16.ofNat (1024 * 2 ^ log.toNat)).toNat = 1024 * 2 ^ log.toNat := by
  have hpow : 2 ^ log.toNat ≤ 2 ^ 5 := Nat.pow_le_pow_right (by omega) h
  rw [UInt16.toNat_ofNat']
  exact Nat.mod_eq_of_lt (by omega)

theorem sbBlockSize_large {log : UInt32} (h : 5 < log.toNat) :
    UInt16.ofNat (1024 * 2 ^ log.toNat) = 0 := by
  apply UInt16.toNat_inj.mp
  rw [UInt16.toNat_ofNat']
  refine Nat.mod_eq_zero_of_dvd ?_
  rw [show 1024 = 2 ^ 10 from rfl, ← Nat.pow_add]
  exact Nat.pow_dvd_pow 2 (by omega)

theorem ne_zero_toNat {x : UInt32} : x ≠ 0 ↔ x.toNat ≠ 0 := by
  rw [ne_eq, ne_eq, ← UInt32.toNat_inj]
  rfl

/-- The number of groups wraps if and only if there are no blocks behind the first. -/
theorem sbGroupsCount_ok (h : sb.blocksPerGroup ≠ 0) :
    ∃ n w, sbGroupsCount sb = .ok (n, w) ∧
      (w = false ↔ sb.firstDataBlock.toNat < sb.blocksCount.toNat) ∧
      (w = false → n.toNat = sb.groups) := by
  have hone : (1 : UInt32).toNat = 1 := rfl
  have hbpg : 0 < sb.blocksPerGroup.toNat := Nat.pos_of_ne_zero (ne_zero_toNat.mp h)
  have hblocks := sb.blocksCount.toNat_lt
  have hrun : sbGroupsCount sb = .ok
      ((addU ((subU (subU sb.blocksCount sb.firstDataBlock).1 1).1 / sb.blocksPerGroup) 1).1,
        (subU sb.blocksCount sb.firstDataBlock).2 ||
          (subU (subU sb.blocksCount sb.firstDataBlock).1 1).2 ||
          (addU ((subU (subU sb.blocksCount sb.firstDataBlock).1 1).1 / sb.blocksPerGroup) 1).2) := by
    unfold sbGroupsCount
    dsimp only
    rw [divU_ok h]
    rfl
  refine ⟨_, _, hrun, ?_, ?_⟩
  · constructor
    · intro hw
      rw [Bool.or_eq_false_iff, Bool.or_eq_false_iff] at hw
      -- the subtractions do not wrap, so there is a block behind the first
      have h1 := subU_wraps.mp hw.1.1
      have h2 := subU_wraps.mp hw.1.2
      rw [subU_toNat h1, hone] at h2
      omega
    · intro hlt
      have h1 := subU_toNat (x := sb.blocksCount) (y := sb.firstDataBlock) (by omega)
      have h2 := subU_toNat (x := (subU sb.blocksCount sb.firstDataBlock).1) (y := 1)
        (by rw [h1, hone]; omega)
      have hq := Nat.div_le_self (sb.blocksCount.toNat - sb.firstDataBlock.toNat - 1)
        sb.blocksPerGroup.toNat
      rw [Bool.or_eq_false_iff, Bool.or_eq_false_iff]
      refine ⟨⟨subU_wraps.mpr (by omega), subU_wraps.mpr (by rw [h1, hone]; omega)⟩,
        addU_wraps.mpr ?_⟩
      rw [UInt32.toNat_div, h2, h1, hone]
      omega
  · intro hw
    rw [Bool.or_eq_false_iff, Bool.or_eq_false_iff] at hw
    have h1 := subU_wraps.mp hw.1.1
    have h2 := subU_wraps.mp hw.1.2
    have h3 := addU_wraps.mp hw.2
    rw [addU_toNat h3, UInt32.toNat_div, subU_toNat h2, subU_toNat h1]
    rfl

theorem sbGroupsCount_error (h : sb.blocksPerGroup = 0) : sbGroupsCount sb = .error .divide := by
  unfold sbGroupsCount
  dsimp only
  rw [divU, if_pos h]
  rfl

/-- The numbers about the group descriptors do not wrap, for a block size of at least 1024. -/
def TableFits (sb : Superblock) (blockSize : Nat) : Prop :=
  sb.firstDataBlock.toNat < sb.blocksCount.toNat ∧ sb.groups * 32 < 2 ^ 32 ∧
    (sb.firstDataBlock.toNat + 1) * blockSize < 2 ^ 32

/-- Where the number of groups has not wrapped, another number wraps if and only if the
table or its position is too large. -/
theorem groupTable_ok (h : sb.blocksPerGroup ≠ 0) {blockSize : UInt32}
    (hbs : 1024 ≤ blockSize.toNat) (hbs' : blockSize.toNat ≤ 32768) :
    ∃ t w, groupTable sb blockSize = .ok (t, w) ∧
      (w = false ↔ TableFits sb blockSize.toNat) ∧
      (w = false → t.groupsCount.toNat = sb.groups ∧
        t.gdtPosition.toNat = (sb.firstDataBlock.toNat + 1) * blockSize.toNat ∧
        t.size.toNat = sb.groups * 32 ∧ t.descPerBlock.toNat = blockSize.toNat / 32 ∧
        t.groupDescBlockCount.toNat =
          (sb.groups + blockSize.toNat / 32 - 1) / (blockSize.toNat / 32)) := by
  obtain ⟨n, w, hrun, hwraps, hn⟩ := sbGroupsCount_ok h
  have hone : (1 : UInt32).toNat = 1 := rfl
  have hsize : groupDescSize.toNat = 32 := rfl
  have hblocks := sb.blocksCount.toNat_lt
  have hdesc : (blockSize / groupDescSize).toNat = blockSize.toNat / 32 := by
    rw [UInt32.toNat_div, hsize]
  have hdesc0 : blockSize / groupDescSize ≠ 0 := ne_zero_toNat.mpr (by rw [hdesc]; omega)
  have hgroups : 1 ≤ sb.groups := Nat.succ_pos _
  generalize hd : blockSize / groupDescSize = desc at hdesc hdesc0
  -- all flags of the table in one
  have htable : groupTable sb blockSize = .ok
      (⟨desc, n, (subU (addU n desc).1 1).1 / desc,
          (mulU (addU sb.firstDataBlock 1).1 blockSize).1.toUInt64, (mulU n groupDescSize).1⟩,
        w || ((addU n desc).2 || (subU (addU n desc).1 1).2) ||
          ((addU sb.firstDataBlock 1).2 || (mulU (addU sb.firstDataBlock 1).1 blockSize).2) ||
          (mulU n groupDescSize).2) := by
    unfold groupTable
    dsimp only
    rw [hrun, hd]
    show (divU _ desc >>= _) = _
    rw [divU_ok hdesc0]
    rfl
  refine ⟨_, _, htable, ?_, ?_⟩
  · simp only [Bool.or_eq_false_iff]
    constructor
    · -- no flag is set: the products are below the limit
      intro ⟨⟨⟨hw, _⟩, hnext, hpos⟩, hmul⟩
      have h1 := addU_wraps.mp hnext
      have h2 := mulU_wraps.mp hpos
      have h3 := mulU_wraps.mp hmul
      rw [addU_toNat h1, hone] at h2
      rw [hn hw, hsize] at h3
      exact ⟨hwraps.mp hw, h3, h2⟩
    · -- the products are: the sums are too
      intro ⟨hlt, hmul, hpos⟩
      have hw := hwraps.mpr hlt
      have hn := hn hw
      have h1 : sb.firstDataBlock.toNat + (1 : UInt32).toNat < 2 ^ 32 := by rw [hone]; omega
      have h2 : n.toNat + desc.toNat < 2 ^ 32 := by omega
      refine ⟨⟨⟨hw, addU_wraps.mpr h2, subU_wraps.mpr ?_⟩, addU_wraps.mpr h1, mulU_wraps.mpr ?_⟩,
        mulU_wraps.mpr ?_⟩
      · rw [addU_toNat h2, hone]
        omega
      · rwa [addU_toNat h1, hone]
      · rwa [hn, hsize]
  · intro hw
    simp only [Bool.or_eq_false_iff] at hw
    -- each number is then what its formula says
    obtain ⟨⟨⟨hw, hsum, hlast⟩, hnext, hpos⟩, hmul⟩ := hw
    have hn := hn hw
    have h1 := addU_wraps.mp hsum
    have h2 := subU_wraps.mp hlast
    have h3 := addU_wraps.mp hnext
    have h4 := mulU_wraps.mp hpos
    have h5 := mulU_wraps.mp hmul
    refine ⟨hn, ?_, ?_, hdesc, ?_⟩
    · show (mulU (addU sb.firstDataBlock 1).1 blockSize).1.toNat = _
      rw [mulU_toNat h4, addU_toNat h3, hone]
    · show (mulU n groupDescSize).1.toNat = _
      rw [mulU_toNat h5, hn, hsize]
    · show ((subU (addU n desc).1 1).1 / desc).toNat = _
      rw [UInt32.toNat_div, subU_toNat h2, addU_toNat h1, hn, hdesc, hone]

theorem groupTable_error (h : sb.blocksPerGroup = 0) (blockSize : UInt32) :
    groupTable sb blockSize = .error .divide := by
  unfold groupTable
  dsimp only
  rw [sbGroupsCount_error h]
  rfl

end Steps

/-! ## The groups -/

/-- Block `b` is in group `g`. -/
def Superblock.InGroup (sb : Superblock) (g b : Nat) : Prop :=
  sb.firstDataBlock.toNat + g * sb.blocksPerGroup.toNat ≤ b ∧
    b < sb.firstDataBlock.toNat + (g + 1) * sb.blocksPerGroup.toNat

/-- The numbers are those of a volume: the size of a block, groups that share out the
blocks, none of them empty, and the thresholds of the block map. -/
structure Mounted.Sound (sb : Superblock) (m : Mounted) : Prop where
  block_size : ∃ k, 10 ≤ k ∧ k ≤ 15 ∧ m.blockSize.toNat = 2 ^ k ∧ m.blocksizeBits.toNat = k
  groups : 1 ≤ m.table.groupsCount.toNat
  one_group : ∀ b, sb.firstDataBlock.toNat ≤ b → b < sb.blocksCount.toNat →
    ∃! g, g < m.table.groupsCount.toNat ∧ sb.InGroup g b
  not_empty : ∀ g, g < m.table.groupsCount.toNat →
    ∃ b, sb.firstDataBlock.toNat ≤ b ∧ b < sb.blocksCount.toNat ∧ sb.InGroup g b
  thresholds : ndirBlocks < m.doubIndS.toNat ∧ m.doubIndS.toNat < m.tripleIndS.toNat

/-- `read_superblock` ends with 0 or `-EINVAL`, nothing wraps, and the numbers are good. -/
def Answers (sb : Superblock) (x : Except MountFault (Except Errno Mounted × Bool)) : Prop :=
  ∃ r, x = .ok (r, false) ∧ (∀ e, r = .error e → e = .einval) ∧ ∀ m, r = .ok m → m.Sound sb

section Groups

variable {sb : Superblock}

theorem groups_one (h : 0 < sb.blocksPerGroup.toNat) {b : Nat}
    (hfirst : sb.firstDataBlock.toNat ≤ b) (hlast : b < sb.blocksCount.toNat) :
    ∃! g, g < sb.groups ∧ sb.InGroup g b := by
  unfold Superblock.InGroup Superblock.groups
  refine ⟨(b - sb.firstDataBlock.toNat) / sb.blocksPerGroup.toNat, ⟨?_, ?_, ?_⟩, ?_⟩
  · exact Nat.lt_succ_of_le (Nat.div_le_div_right (by omega))
  · have := Nat.div_mul_le_self (b - sb.firstDataBlock.toNat) sb.blocksPerGroup.toNat
    omega
  · have := Nat.lt_div_mul_add (a := b - sb.firstDataBlock.toNat) h
    rw [Nat.add_mul, Nat.one_mul]
    omega
  · intro g ⟨_, hlo, hhi⟩
    symm
    rw [Nat.div_eq_iff h]
    rw [Nat.add_mul, Nat.one_mul] at hhi
    omega

theorem groups_not_empty (hlt : sb.firstDataBlock.toNat < sb.blocksCount.toNat)
    (h : 0 < sb.blocksPerGroup.toNat) {g : Nat} (hg : g < sb.groups) :
    ∃ b, sb.firstDataBlock.toNat ≤ b ∧ b < sb.blocksCount.toNat ∧ sb.InGroup g b := by
  have hle : g ≤ (sb.blocksCount.toNat - sb.firstDataBlock.toNat - 1) / sb.blocksPerGroup.toNat :=
    Nat.le_of_lt_succ hg
  have hmul := (Nat.le_div_iff_mul_le h).mp hle
  refine ⟨sb.firstDataBlock.toNat + g * sb.blocksPerGroup.toNat, Nat.le_add_right _ _, by omega,
    Nat.le_refl _, ?_⟩
  rw [Nat.add_mul, Nat.one_mul]
  omega

/-- With `log_block_size` at most 5, the thresholds do not wrap. -/
theorem thresholds_ok {blockSize : UInt16} (hbs : 1024 ≤ blockSize.toNat)
    (hbs' : blockSize.toNat ≤ 32768) :
    let addr := blockSize.toUInt32 / 4
    let addr2 := mulU addr addr
    let doub := addU (UInt32.ofNat ndirBlocks) addr
    let triple := addU doub.1 addr2.1
    (addr2.2 || doub.2 || triple.2) = false ∧ ndirBlocks < doub.1.toNat ∧
      doub.1.toNat < triple.1.toNat := by
  intro addr addr2 doub triple
  have haddr : addr.toNat = blockSize.toNat / 4 := by
    show (blockSize.toUInt32 / 4).toNat = _
    rw [UInt32.toNat_div]
    rfl
  have hndir : (UInt32.ofNat ndirBlocks).toNat = 12 := rfl
  have hlo : 256 ≤ addr.toNat := by omega
  have hhi : addr.toNat ≤ 8192 := by omega
  have hsq : addr.toNat * addr.toNat ≤ 8192 * 8192 := Nat.mul_le_mul hhi hhi
  have hsq' : 0 < addr.toNat * addr.toNat := Nat.mul_pos (by omega) (by omega)
  have h2 : addr2.1.toNat = addr.toNat * addr.toNat := mulU_toNat (by omega)
  have hd : doub.1.toNat = 12 + addr.toNat := by
    rw [← hndir]
    exact addU_toNat (by omega)
  have ht : triple.1.toNat = doub.1.toNat + addr2.1.toNat := addU_toNat (by omega)
  have hndir' : ndirBlocks = 12 := rfl
  simp only [Bool.or_eq_false_iff]
  refine ⟨⟨⟨mulU_wraps.mpr (by omega), addU_wraps.mpr (by omega)⟩, addU_wraps.mpr (by omega)⟩,
    by omega, by omega⟩

/-- From the group table on, all is well if and only if there are blocks in a group, the
table fits, and there is memory for it. -/
theorem readGroupDescs_answers_iff (be : Bool) (d : Device) {sb : Superblock}
    {blockSize : UInt16} (inodeSize : UInt32) {inodesPerBlock : UInt32}
    (hlog : sb.logBlockSize.toNat ≤ 5)
    (hbs : blockSize.toNat = 1024 * 2 ^ sb.logBlockSize.toNat) (hipb : inodesPerBlock ≠ 0) :
    Answers sb (readGroupDescs be d sb blockSize inodeSize inodesPerBlock) ↔
      sb.blocksPerGroup ≠ 0 ∧ TableFits sb blockSize.toNat ∧ d.mmap = true := by
  have hpow : 2 ^ sb.logBlockSize.toNat ≤ 2 ^ 5 := Nat.pow_le_pow_right (by omega) hlog
  have hpow0 : 0 < 2 ^ sb.logBlockSize.toNat := Nat.two_pow_pos _
  unfold readGroupDescs
  rw [divU_ok hipb]
  show Answers sb (groupTable sb blockSize.toUInt32 >>= _) ↔ _
  by_cases hbpg : sb.blocksPerGroup = 0
  · rw [groupTable_error hbpg]
    refine iff_of_false ?_ fun h => h.1 hbpg
    intro ⟨r, hr, _⟩
    cases hr
  have hbpg' : 0 < sb.blocksPerGroup.toNat := Nat.pos_of_ne_zero (ne_zero_toNat.mp hbpg)
  have hsize : blockSize.toUInt32.toNat = blockSize.toNat := rfl
  have hle : 1024 ≤ blockSize.toUInt32.toNat := by omega
  have hle' : blockSize.toUInt32.toNat ≤ 32768 := by omega
  -- the flag of the table says whether a number has wrapped, and that is all it goes by
  obtain ⟨t, w, hrun, hw, ht⟩ := groupTable_ok hbpg hle hle'
  rw [hsize] at hw
  rw [hrun]
  dsimp only [bind, Except.bind]
  by_cases hmem : d.mmap = false
  · rw [if_pos hmem]
    refine iff_of_false ?_ fun h => ?_
    · intro ⟨r, hr, _⟩
      cases hr
    · rw [h.2.2] at hmem
      cases hmem
  rw [if_neg hmem]
  have hmem : d.mmap = true := by simpa using hmem
  have hcond : sb.blocksPerGroup ≠ 0 ∧ TableFits sb blockSize.toNat ∧ d.mmap = true ↔
      w = false := by
    rw [hw]
    exact ⟨fun h => h.2.1, fun h => ⟨hbpg, h, hmem⟩⟩
  rw [hcond]
  -- a volume of too many groups is turned down with `-EINVAL`
  have heinval : Answers sb (.ok (.error .einval, w)) ↔ w = false := by
    constructor
    · intro ⟨r, hr, _⟩
      cases hr
      rfl
    · intro hw
      rw [hw]
      exact ⟨_, rfl, fun e he => by cases he; rfl, fun m hm => nomatch hm⟩
  split
  · exact heinval
  split
  · exact heinval
  obtain ⟨hthr, hndir, hdoub⟩ := @thresholds_ok blockSize (by omega) (by omega)
  constructor
  · intro ⟨r, hr, _⟩
    injection hr with hr
    exact (Bool.or_eq_false_iff.mp (congrArg Prod.snd hr)).1
  · intro hw0
    have hfits := hw.mp hw0
    have hgroups := (ht hw0).1
    rw [hthr, hw0]
    refine ⟨_, rfl, fun e he => (nomatch he), fun m hm => ?_⟩
    cases hm
    refine ⟨⟨10 + sb.logBlockSize.toNat, by omega, by omega, ?_, ?_⟩, ?_, ?_, ?_, hndir, hdoub⟩
    · rw [hbs, Nat.pow_add]
    · show (UInt8.ofNat (sb.logBlockSize.toNat + 10)).toNat = _
      rw [UInt8.toNat_ofNat', Nat.mod_eq_of_lt (by omega), Nat.add_comm]
    · rw [hgroups]
      exact Nat.succ_pos _
    · rw [hgroups]
      exact fun b hfirst hlast => groups_one hbpg' hfirst hlast
    · rw [hgroups]
      exact fun g hg => groups_not_empty hfits.1 hbpg' hg

end Groups

/-! ## The superblock -/

/-- A superblock whose numbers can be worked out: the block size is a shift of less than
32 bits, and unless a check fails before, the inode size is not 0, there are blocks in a
group and behind the first data block, and the group table fits. -/
def Workable (sb : Superblock) (mmap : Bool) : Prop :=
  let blockSize := 1024 * 2 ^ sb.logBlockSize.toNat
  sb.logBlockSize.toNat < 32 ∧
    (5 < sb.logBlockSize.toNat ∨ inodeSizeIncorrect sb.sbInodeSize (UInt32.ofNat blockSize) = true ∨
      sb.sbInodeSize ≠ 0 ∧ (sb.inodesPerGroup = 0 ∨
        sb.blocksPerGroup ≠ 0 ∧ TableFits sb blockSize ∧ mmap = true))

/-- `read_superblock` answers as it should if and only if there is no superblock to be
read, or one that is workable. -/
theorem readSuperblock_answers_iff (be : Bool) (d : Device) :
    Answers (d.superblock be) (readSuperblock be d) ↔
      d.read superblockOffset superblockSize ≠ superblockSize ∨
        (d.superblock be).magic ≠ superMagic ∨ Workable (d.superblock be) d.mmap := by
  have heinval : Answers (d.superblock be) (.ok (.error .einval, false)) :=
    ⟨_, rfl, fun e he => by cases he; rfl, fun m hm => nomatch hm⟩
  have hfault : ∀ e, ¬ Answers (d.superblock be) (.error e) := fun e ⟨r, hr, _⟩ => nomatch hr
  unfold readSuperblock
  by_cases hread : d.read superblockOffset superblockSize ≠ superblockSize
  · rw [if_pos hread]
    exact iff_of_true heinval (.inl hread)
  rw [if_neg hread, or_iff_right hread]
  dsimp only
  generalize d.superblock be = sb at *
  by_cases hmagic : sb.magic ≠ superMagic
  · rw [if_pos hmagic]
    exact iff_of_true heinval (.inl hmagic)
  rw [if_neg hmagic, or_iff_right hmagic]
  unfold Workable
  dsimp only
  by_cases hlog : 32 ≤ sb.logBlockSize.toNat
  · rw [sbBlockSize, if_pos hlog]
    exact iff_of_false (hfault _) fun h => absurd h.1 (by omega)
  rw [and_iff_right (by omega), sbBlockSize, if_neg hlog]
  dsimp only [bind, Except.bind]
  by_cases hlarge : 5 < sb.logBlockSize.toNat
  · -- sixteen bits of the block size are 0
    rw [sbBlockSize_large hlarge, if_neg (by decide), if_pos (by decide)]
    exact iff_of_true heinval (.inl hlarge)
  rw [or_iff_right hlarge]
  have hlog5 : sb.logBlockSize.toNat ≤ 5 := by omega
  have hpow : 2 ^ sb.logBlockSize.toNat ≤ 2 ^ 5 := Nat.pow_le_pow_right (by omega) hlog5
  have hpow0 : 0 < 2 ^ sb.logBlockSize.toNat := Nat.two_pow_pos _
  have hbs := sbBlockSize_small hlog5
  generalize UInt16.ofNat (1024 * 2 ^ sb.logBlockSize.toNat) = blockSize at hbs
  -- in the order of the checks; what each leaves is a condition of `Workable`
  have hmod : ¬ blockSize % 512 ≠ 0 := by
    rw [ne_eq, not_not, ← UInt16.toNat_inj, UInt16.toNat_mod]
    show blockSize.toNat % 512 = 0
    omega
  have hoff : superblockSize = 1024 := rfl
  have hwide : blockSize.toUInt32 = UInt32.ofNat (1024 * 2 ^ sb.logBlockSize.toNat) := by
    rw [← hbs]
    exact (UInt32.ofNat_uInt16ToNat blockSize).symm
  rw [if_neg hmod, if_neg (by omega), ← hwide]
  by_cases hinc : inodeSizeIncorrect sb.sbInodeSize blockSize.toUInt32 = true
  · rw [if_pos hinc]
    exact iff_of_true heinval (.inl hinc)
  rw [if_neg hinc, or_iff_right hinc]
  by_cases hzero : sb.sbInodeSize = 0
  · rw [divU, if_pos hzero]
    exact iff_of_false (hfault _) fun h => h.1 hzero
  rw [divU_ok hzero, and_iff_right hzero]
  dsimp only
  have hsmall : sb.sbInodeSize.toNat ≤ blockSize.toNat := by
    have hle : ¬ blockSize.toUInt32 < sb.sbInodeSize := by
      intro hlt
      exact hinc (by unfold inodeSizeIncorrect; simp [hlt])
    rw [UInt32.lt_iff_toNat_lt, Nat.not_lt] at hle
    exact hle
  have hipb : blockSize.toUInt32 / sb.sbInodeSize ≠ 0 := by
    rw [ne_zero_toNat, UInt32.toNat_div]
    exact Nat.ne_of_gt (Nat.div_pos hsmall (Nat.pos_of_ne_zero (ne_zero_toNat.mp hzero)))
  by_cases hipg : sb.inodesPerGroup = 0
  · rw [if_pos (.inr hipg)]
    exact iff_of_true heinval (.inl hipg)
  rw [if_neg (not_or_intro hipb hipg), or_iff_right hipg, ← hbs]
  exact readGroupDescs_answers_iff be d _ hlog5 hbs hipb

/-- A device with a superblock of no blocks in a group: its magic number, and 32 inodes
in a group. -/
def noBlocksDevice : Device where
  byte := fun i => if i = 1024 + 56 then 0x53 else if i = 1024 + 57 then 0xEF else
    if i = 1024 + 40 then 32 else 0
  read := fun _ n => n
  mmap := true

/-- There the number of groups is divided by 0. -/
theorem readSuperblock_divides :
    ¬ Answers (noBlocksDevice.superblock false) (readSuperblock false noBlocksDevice) := by
  have hrun : readSuperblock false noBlocksDevice = .error .divide := by
    have hfault : (match readSuperblock false noBlocksDevice with
        | .error e => some e
        | .ok _ => none) = some .divide := by decide +kernel
    cases h : readSuperblock false noBlocksDevice with
    | error e =>
      rw [h] at hfault
      rw [Option.some.inj hfault]
    | ok r =>
      rw [h] at hfault
      cases hfault
  rw [hrun]
  intro ⟨r, hr, _⟩
  cases hr

/-! ## The volume -/

/-- The volume that is mounted, on a host like that of `host`. -/
def Mounted.volume (m : Mounted) (sb : Superblock) (be : Bool) (host : Volume) : Volume :=
  { host with
    inodesCount := sb.inodesCount.toNat
    blocksCount := sb.blocksCount.toNat
    firstDataBlock := sb.firstDataBlock.toNat
    logBlockSize := sb.logBlockSize.toNat
    blocksPerGroup := sb.blocksPerGroup.toNat
    inodesPerGroup := sb.inodesPerGroup.toNat
    featureIncompat := sb.featureIncompat
    inodeSize := m.inodeSize.toNat
    firstIno := m.firstIno.toNat
    blockBitmap := fun g => (m.groupDescs g).blockBitmap.toNat
    inodeBitmap := fun g => (m.groupDescs g).inodeBitmap.toNat
    inodeTable := fun g => (m.groupDescs g).inodeTable.toNat
    beCpu := be }

/-- The numbers of `m` are those of the volume. -/
structure Mounted.Of (v : Volume) (m : Mounted) : Prop where
  block_size : m.blockSize.toNat = v.blockSize
  sectors : m.sectorsInBlock.toNat = v.sectorsInBlock
  inodes_per_block : m.inodesPerBlock.toNat = v.inodesPerBlock
  table_blocks : m.inodeTableBlocksPerGroup.toNat = v.inodeTableBlocksPerGroup
  groups : m.table.groupsCount.toNat = v.groupsCount
  desc_per_block : m.table.descPerBlock.toNat = v.descPerBlock
  desc_blocks : m.table.groupDescBlockCount.toNat = v.groupDescBlockCount
  addr : m.addrInBlock.toNat = v.addrInBlock
  doub : m.doubIndS.toNat = v.doubIndS
  triple : m.tripleIndS.toNat = v.tripleIndS

section Volume

variable {sb : Superblock} {be : Bool} {d : Device} {host : Volume}

/-- Where the number of groups does not wrap, it is that of the volume. -/
theorem groups_volume (hlt : sb.firstDataBlock.toNat < sb.blocksCount.toNat) (m : Mounted) :
    (m.volume sb be host).groupsCount = sb.groups := by
  have hblocks := sb.blocksCount.toNat_lt
  have hlast : (sb.blocksCount.toNat + 2 * 2 ^ 32 - sb.firstDataBlock.toNat - 1) % 2 ^ 32 =
      sb.blocksCount.toNat - sb.firstDataBlock.toNat - 1 := by omega
  have hq := Nat.div_le_self (sb.blocksCount.toNat - sb.firstDataBlock.toNat - 1)
    sb.blocksPerGroup.toNat
  show ((sb.blocksCount.toNat + 2 * 2 ^ 32 - sb.firstDataBlock.toNat - 1) % 2 ^ 32 /
    sb.blocksPerGroup.toNat + 1) % 2 ^ 32 = _
  rw [hlast]
  exact Nat.mod_eq_of_lt (by omega)

/-- Where the descriptors are read and no flag is set, the numbers that are kept are those of the
volume. -/
theorem readGroupDescs_volume {blockSize : UInt16} {inodesPerBlock : UInt32}
    (hlog : sb.logBlockSize.toNat ≤ 5)
    (hbs : blockSize.toNat = 1024 * 2 ^ sb.logBlockSize.toNat)
    (hipb : inodesPerBlock = blockSize.toUInt32 / sb.sbInodeSize)
    (hipb0 : inodesPerBlock ≠ 0) :
    Ends (readGroupDescs be d sb blockSize sb.sbInodeSize inodesPerBlock) fun r =>
      ∀ m, r = (.ok m, false) → m.Of (m.volume sb be host) := by
  have hpow : 2 ^ sb.logBlockSize.toNat ≤ 2 ^ 5 := Nat.pow_le_pow_right (by omega) hlog
  have hpow0 : 0 < 2 ^ sb.logBlockSize.toNat := Nat.two_pow_pos _
  have hsize : blockSize.toUInt32.toNat = blockSize.toNat := rfl
  unfold readGroupDescs
  rw [divU_ok hipb0]
  refine Ends.bind (P := fun q => q = sb.inodesPerGroup / inodesPerBlock) (.ok rfl) ?_
  intro q hq
  by_cases hbpg : sb.blocksPerGroup = 0
  · rw [groupTable_error hbpg]
    exact .error _
  have hle : 1024 ≤ blockSize.toUInt32.toNat := by omega
  have hle' : blockSize.toUInt32.toNat ≤ 32768 := by omega
  obtain ⟨t, w, hrun, hw, ht⟩ := groupTable_ok hbpg hle hle'
  rw [hrun]
  refine Ends.bind (P := fun r => r = (t, w)) (.ok rfl) ?_
  rintro _ rfl
  dsimp only
  split
  · exact .error _
  split
  · exact .ok fun m hm => nomatch hm
  split
  · exact .ok fun m hm => nomatch hm
  obtain ⟨hthr, -, -⟩ := @thresholds_ok blockSize (by omega) (by omega)
  refine .ok fun m hm => ?_
  -- no flag is set, so no number has wrapped
  obtain ⟨hm, hwraps⟩ := Prod.mk.inj hm
  have hw0 : w = false := (Bool.or_eq_false_iff.mp hwraps).1
  obtain ⟨hgroups, -, -, hdesc, hblocks⟩ := ht hw0
  obtain ⟨hlt, -, -⟩ := hw.mp hw0
  simp only [Bool.or_eq_false_iff] at hthr
  cases hm
  have hvolume := @groups_volume sb be host hlt
  -- the block size of the volume, which is the same
  have hvbs : 1024 * 2 ^ sb.logBlockSize.toNat % 2 ^ 16 = blockSize.toNat := by
    rw [hbs]
    exact Nat.mod_eq_of_lt (by omega)
  have haddr : (blockSize.toUInt32 / 4).toNat = blockSize.toNat / 4 := UInt32.toNat_div _ _
  have hipb' : inodesPerBlock.toNat = blockSize.toNat / sb.sbInodeSize.toNat := by
    rw [hipb, UInt32.toNat_div, hsize]
  have haddr2 := mulU_toNat (mulU_wraps.mp hthr.1.1)
  have hdoub := addU_toNat (addU_wraps.mp hthr.1.2)
  have htriple := addU_toNat (addU_wraps.mp hthr.2)
  have hndir : (UInt32.ofNat ndirBlocks).toNat = ndirBlocks := rfl
  rw [haddr] at haddr2
  rw [hndir, haddr] at hdoub
  rw [hdoub, haddr2] at htriple
  refine ⟨hvbs.symm, ?_, ?_, ?_, ?_, ?_, ?_, ?_, ?_, ?_⟩
  · show (blockSize / 512).toNat = 1024 * 2 ^ sb.logBlockSize.toNat % 2 ^ 16 / 512
    rw [UInt16.toNat_div, hvbs]
    rfl
  · show inodesPerBlock.toNat = 1024 * 2 ^ sb.logBlockSize.toNat % 2 ^ 16 / sb.sbInodeSize.toNat
    rw [hipb', hvbs]
  · show q.toNat = sb.inodesPerGroup.toNat /
      (1024 * 2 ^ sb.logBlockSize.toNat % 2 ^ 16 / sb.sbInodeSize.toNat)
    rw [hq, UInt32.toNat_div, hipb', hvbs]
  · rw [hvolume]
    exact hgroups
  · show t.descPerBlock.toNat = 1024 * 2 ^ sb.logBlockSize.toNat % 2 ^ 16 / 32
    rw [hdesc, hvbs, hsize]
  · rw [Volume.groupDescBlockCount, hvolume]
    show t.groupDescBlockCount.toNat = (sb.groups +
      1024 * 2 ^ sb.logBlockSize.toNat % 2 ^ 16 / 32 - 1) /
        (1024 * 2 ^ sb.logBlockSize.toNat % 2 ^ 16 / 32)
    rw [hblocks, hvbs, hsize]
  · show (blockSize.toUInt32 / 4).toNat = 1024 * 2 ^ sb.logBlockSize.toNat % 2 ^ 16 / 4
    rw [haddr, hvbs]
  · show (addU (UInt32.ofNat ndirBlocks) (blockSize.toUInt32 / 4)).1.toNat =
      ndirBlocks + 1024 * 2 ^ sb.logBlockSize.toNat % 2 ^ 16 / 4
    rw [hdoub, hvbs]
  · show (addU _ _).1.toNat = ndirBlocks + 1024 * 2 ^ sb.logBlockSize.toNat % 2 ^ 16 / 4 +
      1024 * 2 ^ sb.logBlockSize.toNat % 2 ^ 16 / 4 * (1024 * 2 ^ sb.logBlockSize.toNat % 2 ^ 16 / 4)
    rw [htriple, hvbs]

/-- What the checks before the group descriptors leave over. -/
structure Checked (sb : Superblock) (blockSize : UInt16) (inodesPerBlock : UInt32) : Prop where
  log_le : sb.logBlockSize.toNat ≤ 5
  block_size : blockSize.toNat = 1024 * 2 ^ sb.logBlockSize.toNat
  inode_size : inodeSizeIncorrect sb.sbInodeSize blockSize.toUInt32 = false
  inode_size_ne : sb.sbInodeSize ≠ 0
  per_block : inodesPerBlock = blockSize.toUInt32 / sb.sbInodeSize
  per_block_ne : inodesPerBlock ≠ 0
  per_group_ne : sb.inodesPerGroup ≠ 0

/-- A superblock is turned down, or it passes the checks and the descriptors are read. -/
theorem readSuperblock_ends (be : Bool) (d : Device) {P : Except Errno Mounted × Bool → Prop}
    (herror : ∀ e w, P (.error e, w))
    (hrest : ∀ blockSize inodesPerBlock, Checked (d.superblock be) blockSize inodesPerBlock →
      Ends (readGroupDescs be d (d.superblock be) blockSize (d.superblock be).sbInodeSize
        inodesPerBlock) P) :
    Ends (readSuperblock be d) P := by
  unfold readSuperblock
  split
  · exact .ok (herror _ _)
  dsimp only
  generalize d.superblock be = sb at *
  split
  · exact .ok (herror _ _)
  unfold sbBlockSize
  by_cases hlog : 32 ≤ sb.logBlockSize.toNat
  · rw [if_pos hlog]
    exact .error _
  rw [if_neg hlog]
  refine Ends.bind (P := fun n => n = UInt16.ofNat (1024 * 2 ^ sb.logBlockSize.toNat)) (.ok rfl) ?_
  rintro blockSize hbs
  by_cases hlarge : 5 < sb.logBlockSize.toNat
  · rw [hbs, sbBlockSize_large hlarge, if_neg (by decide), if_pos (by decide)]
    exact .ok (herror _ _)
  -- what is left has passed the checks
  have hlog5 : sb.logBlockSize.toNat ≤ 5 := by omega
  have hbs : blockSize.toNat = 1024 * 2 ^ sb.logBlockSize.toNat := by
    rw [hbs, sbBlockSize_small hlog5]
  split
  · exact .ok (herror _ _)
  split
  · exact .ok (herror _ _)
  by_cases hinc : inodeSizeIncorrect sb.sbInodeSize blockSize.toUInt32 = true
  · rw [if_pos hinc]
    exact .ok (herror _ _)
  rw [if_neg hinc]
  by_cases hzero : sb.sbInodeSize = 0
  · rw [divU, if_pos hzero]
    exact .error _
  rw [divU_ok hzero]
  refine Ends.bind (P := fun n => n = blockSize.toUInt32 / sb.sbInodeSize) (.ok rfl) ?_
  intro inodesPerBlock hipb
  split
  · exact .ok (herror _ _)
  next hne =>
    rw [not_or] at hne
    exact hrest _ _ ⟨hlog5, hbs, by simpa using hinc, hzero, hipb, hne.1, hne.2⟩

/-- What `read_superblock` leaves behind, if nothing has wrapped, is a volume with all
the numbers that are worked out from it. -/
theorem readSuperblock_volume (be : Bool) (d : Device) (host : Volume) :
    Ends (readSuperblock be d) fun r =>
      ∀ m, r = (.ok m, false) → m.Of (m.volume (d.superblock be) be host) := by
  refine readSuperblock_ends be d ?_ ?_
  · exact fun e w m hm => nomatch hm
  · exact fun _ _ h => readGroupDescs_volume h.log_le h.block_size h.per_block h.per_block_ne

/-- The number of groups is that of the volume, whether it wraps or not. -/
theorem sbGroupsCount_volume (sb : Superblock) (be : Bool) (host : Volume) :
    Ends (sbGroupsCount sb) fun r => ∀ m : Mounted,
      r.1.toNat = (m.volume sb be host).groupsCount := by
  have hone : (1 : UInt32).toNat = 1 := rfl
  have hblocks := sb.blocksCount.toNat_lt
  have hfirst := sb.firstDataBlock.toNat_lt
  unfold sbGroupsCount
  dsimp only
  by_cases hbpg : sb.blocksPerGroup = 0
  · rw [divU, if_pos hbpg]
    exact .error _
  rw [divU_ok hbpg]
  refine Ends.ok fun m => ?_
  show (((sb.blocksCount - sb.firstDataBlock) - 1) / sb.blocksPerGroup + 1).toNat =
    ((sb.blocksCount.toNat + 2 * 2 ^ 32 - sb.firstDataBlock.toNat - 1) % 2 ^ 32 /
      sb.blocksPerGroup.toNat + 1) % 2 ^ 32
  rw [UInt32.toNat_add, UInt32.toNat_div, UInt32.toNat_sub, UInt32.toNat_sub, hone]
  have hsub : (2 ^ 32 - 1 + (2 ^ 32 - sb.firstDataBlock.toNat + sb.blocksCount.toNat) % 2 ^ 32) %
      2 ^ 32 = (sb.blocksCount.toNat + 2 * 2 ^ 32 - sb.firstDataBlock.toNat - 1) % 2 ^ 32 := by
    omega
  rw [hsub]

end Volume

end Cheviot.Ext2
