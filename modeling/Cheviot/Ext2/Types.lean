import Cheviot.Lib.Bytes
import Mathlib.Logic.Function.Basic

/-!
# The state of the extfs handler

What `extfs/ext2.h` and `extfs/globals.c` declare, split by lifetime: a `Volume`
is everything fixed when the volume is mounted (the superblock constants, the
block numbers in the group descriptors, the byte order, the read-only flag), an
`Fs` is everything the handlers change (the free counters, the contents of the
block cache, the inode cache). A structure member that one of these functions
reads or writes has its field here under the source's word for it.

Mirroring notes:
- A block number, an inode number and a byte position are `Nat`; where the C
  expression can wrap, the definition says `% 2 ^ 32`. Structure members that
  are counted up and down (`i_links_count`, the free counters) have the C
  width, `UInt16` or `UInt32`.
- `panic` ends the handler, so a function that can reach one returns
  `Except Fault`. Two more faults stand for what C leaves undefined or what
  never comes back: an access outside a buffer and a loop that does not end.
- `get_block` and `put_block` are the contents of the block cache at that
  moment: `Fs.blk b` is what `get_block (b, BLK_READ)` points at.
- `off_t` is the 32-bit type of the target, which is what makes `MAX_FILE_POS`
  its largest value.
-/

namespace Cheviot.Ext2

open Cheviot.Bytes

/-- How a handler can end without a reply; a panic is named by its format string. -/
inductive Fault where
  | panic (msg : String)
  | outOfBounds
  | hang
  deriving DecidableEq, Repr

/-- The error numbers that occur in extfs. -/
inductive Errno where
  | enoent | eio | eexist | enotempty | einval | efbig | enospc | enomem
  | emlink | enametoolong | enosys | enotsup
  deriving DecidableEq, Repr

/-- The fault a computation ended with, if any. -/
def faultOf {α : Type} : Except Fault α → Option Fault
  | .error e => some e
  | .ok _ => none

section Run

variable {α β : Type}

/-- What follows a computation that ends well. -/
theorem bind_of_ok {x : Except Fault α} {a : α} (h : x = .ok a) (f : α → Except Fault β) :
    (x >>= f) = f a := by
  rw [h]
  rfl

/-- A sequence that ends well has ended well at each step. -/
theorem ok_of_bind {x : Except Fault α} {f : α → Except Fault β} {b : β}
    (h : (x >>= f) = .ok b) : ∃ a, x = .ok a ∧ f a = .ok b := by
  cases x with
  | error e => cases h
  | ok a => exact ⟨a, rfl, h⟩

end Run

/-! ## Constants -/

/-- `NR_INODES`, the size of the inode cache. -/
def nrInodes : Nat := 64

/-- `INODE_HASH_SIZE`. -/
def inodeHashSize : Nat := 128

/-- `NO_BLOCK`. -/
abbrev noBlock : Nat := 0

/-- `NO_ENTRY`, the inode number of a free directory record or cache slot. -/
abbrev noEntry : Nat := 0

/-- `EXT2_ROOT_INO`. -/
def rootIno : Nat := 2

/-- `EXT2_NDIR_BLOCKS`. -/
def ndirBlocks : Nat := 12

/-- `EXT2_NAME_MAX`, which is also `NAME_MAX`. -/
def nameMax : Nat := 255

/-- `MAX_FILE_POS`, the value of `sb_max_size`. -/
def maxFilePos : Nat := 0x7FFFFFFF

/-- `sb_out_range_s`. -/
def outRangeS : Nat := 0xFFFF0000

/-- `x - 1` for a 32-bit unsigned `x`. -/
def pred32 (x : Nat) : Nat := if x = 0 then 0xFFFFFFFF else x - 1

theorem pred32_of_pos {x : Nat} (h : 0 < x) : pred32 x = x - 1 := by
  rw [pred32, if_neg (by omega)]

/-! ## Byte order -/

/-- `bswap2` of `utility.c`. -/
def bswap2 (swap : Bool) (w : UInt16) : UInt16 :=
  if !swap then w else ((w &&& 0xFF) <<< 8) ||| ((w >>> 8) &&& 0xFF)

/-- `bswap4` of `utility.c`. -/
def bswap4 (swap : Bool) (x : UInt32) : UInt32 :=
  if !swap then x
  else ((x &&& 0x000000FF) <<< 24) ||| ((x &&& 0x0000FF00) <<< 8)
    ||| ((x &&& 0x00FF0000) >>> 8) ||| ((x &&& 0xFF000000) >>> 24)

theorem bswap2_eq_swap16 (swap : Bool) (w : UInt16) : bswap2 swap w = swap16 swap w := by
  cases swap with
  | false => rfl
  | true =>
    have hw := w.toNat_lt
    have h0 := and_low_byte w.toNat
    have h1 := and_low_byte (w.toNat / 2 ^ 8)
    show ((w &&& 0xFF) <<< 8) ||| ((w >>> 8) &&& 0xFF) = word16 (byte16 w 1) (byte16 w 0)
    rw [← UInt16.toNat_inj]
    simp only [word16, byte16, UInt16.toNat_ofNat', UInt8.toNat_ofNat', UInt16.toNat_or,
      UInt16.toNat_and, UInt16.toNat_shiftLeft, UInt16.toNat_shiftRight, Nat.shiftLeft_eq,
      Nat.shiftRight_eq_div_pow, UInt16.reduceToNat, Nat.reduceMod]
    rw [h0, h1, Nat.mod_eq_of_lt (by omega), mul_or (by omega)]
    clear h0 h1
    simp only [Nat.reducePow] at *
    omega

theorem bswap4_eq_swap32 (swap : Bool) (x : UInt32) : bswap4 swap x = swap32 swap x := by
  cases swap with
  | false => rfl
  | true =>
    have hx := x.toNat_lt
    have h0 := and_low_byte x.toNat
    have h1 : x.toNat &&& 65280 = x.toNat / 2 ^ 8 % 256 * 2 ^ 8 := and_byte x.toNat 8
    have h2 : x.toNat &&& 16711680 = x.toNat / 2 ^ 16 % 256 * 2 ^ 16 := and_byte x.toNat 16
    have h3 : x.toNat &&& 4278190080 = x.toNat / 2 ^ 24 % 256 * 2 ^ 24 := and_byte x.toNat 24
    show ((x &&& 0x000000FF) <<< 24) ||| ((x &&& 0x0000FF00) <<< 8)
      ||| ((x &&& 0x00FF0000) >>> 8) ||| ((x &&& 0xFF000000) >>> 24)
      = word32 (byte32 x 3) (byte32 x 2) (byte32 x 1) (byte32 x 0)
    rw [← UInt32.toNat_inj]
    simp only [word32, byte32, UInt32.toNat_ofNat', UInt8.toNat_ofNat', UInt32.toNat_or,
      UInt32.toNat_and, UInt32.toNat_shiftLeft, UInt32.toNat_shiftRight, Nat.shiftLeft_eq,
      Nat.shiftRight_eq_div_pow, UInt32.reduceToNat, Nat.reduceMod]
    rw [h0, h1, h2, h3,
      show x.toNat % 256 * 2 ^ 24 % 2 ^ 32 = x.toNat % 256 * 2 ^ 24 from by omega,
      show x.toNat / 2 ^ 8 % 256 * 2 ^ 8 * 2 ^ 8 % 2 ^ 32 = x.toNat / 2 ^ 8 % 256 * 2 ^ 16
        from by omega,
      show x.toNat / 2 ^ 16 % 256 * 2 ^ 16 / 2 ^ 8 = x.toNat / 2 ^ 16 % 256 * 2 ^ 8 from by omega,
      show x.toNat / 2 ^ 24 % 256 * 2 ^ 24 / 2 ^ 24 = x.toNat / 2 ^ 24 % 256 from by omega,
      or_bytes (by omega) (by omega) (by omega)]
    clear h0 h1 h2 h3
    simp only [Nat.reducePow] at *
    omega

/-- Reading a disk field with the swap the driver applies is a little-endian
load, whatever the host. -/
theorem bswap4_ld32 (be : Bool) (b : Buf) (o : Nat) : bswap4 be (ld32 be b o) = ld32 false b o := by
  rw [bswap4_eq_swap32, swap32_ld32]

theorem bswap2_ld16 (be : Bool) (b : Buf) (o : Nat) : bswap2 be (ld16 be b o) = ld16 false b o := by
  rw [bswap2_eq_swap16, swap16_ld16]

theorem st32_bswap4 (be : Bool) (b : Buf) (o : Nat) (x : UInt32) :
    st32 be b o (bswap4 be x) = st32 false b o x := by
  rw [bswap4_eq_swap32, st32_swap32]

theorem st16_bswap2 (be : Bool) (b : Buf) (o : Nat) (x : UInt16) :
    st16 be b o (bswap2 be x) = st16 false b o x := by
  rw [bswap2_eq_swap16, st16_swap16]

/-! ## File modes -/

/-- `S_ISDIR (mode)`. -/
def sIsDir (mode : UInt16) : Bool := mode &&& 0xF000 == 0x4000

/-- `S_ISREG (mode)`. -/
def sIsReg (mode : UInt16) : Bool := mode &&& 0xF000 == 0x8000

/-- `S_ISLNK (mode)`. -/
def sIsLnk (mode : UInt16) : Bool := mode &&& 0xF000 == 0xA000

/-- `S_ISBLK (mode)`. -/
def sIsBlk (mode : UInt16) : Bool := mode &&& 0xF000 == 0x6000

/-- `S_ISCHR (mode)`. -/
def sIsChr (mode : UInt16) : Bool := mode &&& 0xF000 == 0x2000

/-- `S_ISFIFO (mode)`. -/
def sIsFifo (mode : UInt16) : Bool := mode &&& 0xF000 == 0x1000

/-! ## The mounted volume -/

/-- What is fixed at mount time: the superblock members that are never written
afterwards, the block numbers of the group descriptors, and the globals set
once. -/
structure Volume where
  /-- `s_inodes_count` -/
  inodesCount : Nat
  /-- `s_blocks_count` -/
  blocksCount : Nat
  /-- `s_first_data_block` -/
  firstDataBlock : Nat
  /-- `s_log_block_size` -/
  logBlockSize : Nat
  /-- `s_blocks_per_group` -/
  blocksPerGroup : Nat
  /-- `s_inodes_per_group` -/
  inodesPerGroup : Nat
  /-- `s_feature_incompat` -/
  featureIncompat : UInt32
  /-- `sb_inode_size` -/
  inodeSize : Nat
  /-- `sb_first_ino` -/
  firstIno : Nat
  /-- `g_block_bitmap` of each group -/
  blockBitmap : Nat → Nat
  /-- `g_inode_bitmap` of each group -/
  inodeBitmap : Nat → Nat
  /-- `g_inode_table` of each group -/
  inodeTable : Nat → Nat
  /-- `sizeof (ino_t)` on the host -/
  sizeofIno : Nat
  /-- `offsetof (struct dirent, d_name)` on the host -/
  direntNameOff : Nat
  /-- `LINK_MAX` of the host -/
  linkMax : Nat
  /-- `be_cpu` -/
  beCpu : Bool
  /-- `config.read_only` -/
  readOnly : Bool

namespace Volume

variable (v : Volume)

/-- `sb_block_size`, a `uint16_t`. -/
def blockSize : Nat := 1024 * 2 ^ v.logBlockSize % 2 ^ 16

/-- `sb_sectors_in_block`. -/
def sectorsInBlock : Nat := v.blockSize / 512

/-- `sb_inodes_per_block`. -/
def inodesPerBlock : Nat := v.blockSize / v.inodeSize

/-- `sb_inode_table_blocks_per_group`. -/
def inodeTableBlocksPerGroup : Nat := v.inodesPerGroup / v.inodesPerBlock

/-- `sb_groups_count`, computed in 32 bits. -/
def groupsCount : Nat :=
  ((v.blocksCount + 2 * 2 ^ 32 - v.firstDataBlock - 1) % 2 ^ 32 / v.blocksPerGroup + 1) % 2 ^ 32

/-- `sb_desc_per_block`, group descriptors of 32 bytes. -/
def descPerBlock : Nat := v.blockSize / 32

/-- `sb_group_desc_block_count`. -/
def groupDescBlockCount : Nat := (v.groupsCount + v.descPerBlock - 1) / v.descPerBlock

/-- `sb_addr_in_block`. -/
def addrInBlock : Nat := v.blockSize / 4

/-- `sb_addr_in_block2`. -/
def addrInBlock2 : Nat := v.addrInBlock * v.addrInBlock

/-- `sb_doub_ind_s`. -/
def doubIndS : Nat := ndirBlocks + v.addrInBlock

/-- `sb_triple_ind_s`. -/
def tripleIndS : Nat := v.doubIndS + v.addrInBlock2

/-- `HAS_INCOMPAT_FEATURE (EXT2_FEATURE_INCOMPAT_FILETYPE)`. -/
def hasFiletype : Bool := v.featureIncompat &&& 0x0002 != 0

theorem blockSize_eq {v : Volume} (h : v.logBlockSize ≤ 5) :
    v.blockSize = 1024 * 2 ^ v.logBlockSize := by
  have hpow : 2 ^ v.logBlockSize ≤ 2 ^ 5 := Nat.pow_le_pow_right (by omega) h
  exact Nat.mod_eq_of_lt (by omega)

theorem blockSize_bounds {v : Volume} (h : v.logBlockSize ≤ 5) :
    1024 ≤ v.blockSize ∧ v.blockSize ≤ 32768 ∧ v.blockSize % 1024 = 0 := by
  have hpow : 2 ^ v.logBlockSize ≤ 2 ^ 5 := Nat.pow_le_pow_right (by omega) h
  have hpos : 0 < 2 ^ v.logBlockSize := Nat.two_pow_pos _
  rw [blockSize_eq h]
  omega

end Volume

/-! ## The state the handlers change -/

/-- The counters of a `struct group_desc`. -/
structure GroupDesc where
  freeBlocksCount : UInt16
  freeInodesCount : UInt16
  usedDirsCount : UInt16
  deriving DecidableEq, Repr

/-- `struct ondisk_inode`: the members `inode_copy` carries over. -/
@[ext] structure OndiskInode where
  mode : UInt16
  uid : UInt16
  size : UInt32
  atime : UInt32
  ctime : UInt32
  mtime : UInt32
  dtime : UInt32
  gid : UInt16
  linksCount : UInt16
  blocks : UInt32
  flags : UInt32
  block : Fin 15 → UInt32
  generation : UInt32
  fileAcl : UInt32
  dirAcl : UInt32
  faddr : UInt32

/-- The bits of `i_update`. -/
structure Update where
  atime : Bool
  ctime : Bool
  mtime : Bool
  deriving DecidableEq, Repr

/-- `struct inode`, a slot of the inode cache; the list links are in `Fs`. -/
structure Inode where
  odi : OndiskInode
  ino : Nat
  count : Nat
  update : Update
  dirty : Bool

/-- Everything a request can change. -/
@[ext] structure Fs where
  /-- `superblock.s_free_blocks_count` -/
  freeBlocksCount : UInt32
  /-- `superblock.s_free_inodes_count` -/
  freeInodesCount : UInt32
  /-- `sb_dirs_counter` -/
  dirsCounter : UInt32
  /-- the counters of `group_descs` -/
  gd : Nat → GroupDesc
  /-- current contents of every block, through the block cache -/
  blk : Nat → Buf
  /-- `inode_cache` -/
  slot : Nat → Inode
  /-- `unused_inode_list`, head first -/
  unused : List Nat
  /-- `hash_inodes`, each bucket head first -/
  hash : Nat → List Nat
  /-- the blocks whose buffer is marked dirty -/
  dirtyBlk : Nat → Bool

/-- What one request is given from outside: `time (NULL)`, `rand ()`, and the
bytes a block shows again after `invalidate_block` has dropped its buffer. -/
structure Env where
  now : UInt32
  rand : Nat
  stale : Nat → Buf

/-- The state with the contents of block `b` replaced. -/
def Fs.setBlk (s : Fs) (b : Nat) (buf : Buf) : Fs := { s with blk := Function.update s.blk b buf }

/-- The state with the contents of block `b` replaced and its buffer marked dirty,
as every store into a buffer but three is followed by `block_markdirty`. -/
def Fs.writeBlk (s : Fs) (b : Nat) (buf : Buf) : Fs :=
  { s.setBlk b buf with dirtyBlk := Function.update s.dirtyBlk b true }

/-- `invalidate_block`: the buffer is dropped, and what was not written of it. -/
def invalidateBlock (env : Env) (s : Fs) (b : Nat) : Fs :=
  { s.setBlk b (env.stale b) with dirtyBlk := Function.update s.dirtyBlk b false }

/-- The state with cache slot `i` replaced. -/
def Fs.setSlot (s : Fs) (i : Nat) (x : Inode) : Fs := { s with slot := Function.update s.slot i x }

/-- The state with the on-disk part of cache slot `i` changed by `f`. -/
def Fs.modOdi (s : Fs) (i : Nat) (f : OndiskInode → OndiskInode) : Fs :=
  s.setSlot i { s.slot i with odi := f (s.slot i).odi }

/-- The state with the counters of group `g` replaced. -/
def Fs.setGd (s : Fs) (g : Nat) (x : GroupDesc) : Fs := { s with gd := Function.update s.gd g x }

/-- `inode_markdirty`. -/
def inodeMarkdirty (s : Fs) (i : Nat) : Fs := s.setSlot i { s.slot i with dirty := true }

/-- `inode_markclean`. -/
def inodeMarkclean (s : Fs) (i : Nat) : Fs := s.setSlot i { s.slot i with dirty := false }

/-! ## A small volume

1024-byte blocks, one group of 32 blocks from block 1 on, 32 inodes: superblock,
group descriptors, block bitmap (3), inode bitmap (4), inode table (5 to 8), and
the root directory in block 9. -/

/-- The fixed part of the small volume. -/
def sampleVolume : Volume where
  inodesCount := 32
  blocksCount := 33
  firstDataBlock := 1
  logBlockSize := 0
  blocksPerGroup := 32
  inodesPerGroup := 32
  featureIncompat := 2
  inodeSize := 128
  firstIno := 11
  blockBitmap := fun _ => 3
  inodeBitmap := fun _ => 4
  inodeTable := fun _ => 5
  sizeofIno := 4
  direntNameOff := 16
  linkMax := 32767
  beCpu := false
  readOnly := false

/-- The blocks of the small volume: bitmaps, the inode of the root directory
(number 2), and its data block with `.` and `..`. -/
def sampleBlk (b : Nat) : Buf :=
  match b with
  | 3 => fun i => match i with
    | 0 => 0xFF | 1 => 0x01 | _ => 0
  | 4 => fun i => match i with
    | 0 => 0xFF | 1 => 0x03 | _ => 0
  | 5 => fun i => match i with
    | 128 => 0xED | 129 => 0x41 | 133 => 0x04 | 154 => 2 | 156 => 2 | 168 => 9 | _ => 0
  | 9 => fun i => match i with
    | 0 => 2 | 4 => 12 | 6 => 1 | 7 => 2 | 8 => 0x2E
    | 12 => 2 | 16 => 0xF4 | 17 => 0x03 | 18 => 2 | 19 => 2 | 20 => 0x2E | 21 => 0x2E | _ => 0
  | _ => zeroed

/-- A slot of `inode_cache` as `init_inode_cache` leaves it. -/
def emptySlot : Inode where
  odi := ⟨0, 0, 0, 0, 0, 0, 0, 0, 0, 0, 0, fun _ => 0, 0, 0, 0, 0⟩
  ino := noEntry
  count := 0
  update := ⟨false, false, false⟩
  dirty := false

/-- A request on the small volume: clock and dice at 0, a disk full of zeros behind the cache. -/
def sampleEnv : Env where
  now := 0
  rand := 0
  stale := fun _ => zeroed

/-- The small volume just mounted. -/
def sampleFs : Fs where
  freeBlocksCount := 23
  freeInodesCount := 22
  dirsCounter := 1
  gd := fun _ => ⟨23, 22, 1⟩
  blk := sampleBlk
  slot := fun _ => emptySlot
  unused := List.range nrInodes
  hash := fun _ => []
  dirtyBlk := fun _ => false

end Cheviot.Ext2
