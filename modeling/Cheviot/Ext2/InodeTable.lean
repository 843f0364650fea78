import Cheviot.Ext2.BlockBits
import Cheviot.Ext2.InodeBits
import Mathlib.Data.List.FinRange

/-!
# The inode table: `read_inode`, `write_inode`, `update_times`

An on-disk inode is a record of 16- and 32-bit fields at fixed places of a table
block. `inode_copy` goes between that record and the cached copy, in either
direction; it leaves `l_i_reserved1` and `osd2` alone.

* `Layout` — what is asked of the volume: the bitmaps and tables of the groups
  do not overlap, and the tables hold `s_inodes_per_group` inodes each.
* `inodeCopyFrom_inodeCopyTo` — reading back what was written.
* `diskInode_write_ne` — writing one inode leaves the others on the disk alone.
* `writeInode_eq` — `write_inode` of an inode of the volume, as one equation.
-/

namespace Cheviot.Ext2

open Cheviot.Bytes Cheviot.Bits

/-! ## The functions -/

/-- `inode_copy`, from the record at offset `o` of a table block. -/
def inodeCopyFrom (be : Bool) (b : Buf) (o : Nat) : OndiskInode where
  mode := bswap2 be (ld16 be b o)
  uid := bswap2 be (ld16 be b (o + 2))
  size := bswap4 be (ld32 be b (o + 4))
  atime := bswap4 be (ld32 be b (o + 8))
  ctime := bswap4 be (ld32 be b (o + 12))
  mtime := bswap4 be (ld32 be b (o + 16))
  dtime := bswap4 be (ld32 be b (o + 20))
  gid := bswap2 be (ld16 be b (o + 24))
  linksCount := bswap2 be (ld16 be b (o + 26))
  blocks := bswap4 be (ld32 be b (o + 28))
  flags := bswap4 be (ld32 be b (o + 32))
  block := fun k => bswap4 be (ld32 be b (o + 40 + 4 * k.val))
  generation := bswap4 be (ld32 be b (o + 100))
  fileAcl := bswap4 be (ld32 be b (o + 104))
  dirAcl := bswap4 be (ld32 be b (o + 108))
  faddr := bswap4 be (ld32 be b (o + 112))

/-- The loop of `inode_copy` over `i_block`. -/
def blocksCopyTo (be : Bool) (block : Fin 15 → UInt32) (b : Buf) (o : Nat) : Buf :=
  (List.finRange 15).foldl (fun b k => st32 be b (o + 40 + 4 * k.val) (bswap4 be (block k))) b

/-- `inode_copy`, to the record at offset `o` of a table block. -/
def inodeCopyTo (be : Bool) (odi : OndiskInode) (b : Buf) (o : Nat) : Buf :=
  let b := st16 be b o (bswap2 be odi.mode)
  let b := st16 be b (o + 2) (bswap2 be odi.uid)
  let b := st32 be b (o + 4) (bswap4 be odi.size)
  let b := st32 be b (o + 8) (bswap4 be odi.atime)
  let b := st32 be b (o + 12) (bswap4 be odi.ctime)
  let b := st32 be b (o + 16) (bswap4 be odi.mtime)
  let b := st32 be b (o + 20) (bswap4 be odi.dtime)
  let b := st16 be b (o + 24) (bswap2 be odi.gid)
  let b := st16 be b (o + 26) (bswap2 be odi.linksCount)
  let b := st32 be b (o + 28) (bswap4 be odi.blocks)
  let b := st32 be b (o + 32) (bswap4 be odi.flags)
  let b := blocksCopyTo be odi.block b o
  let b := st32 be b (o + 100) (bswap4 be odi.generation)
  let b := st32 be b (o + 104) (bswap4 be odi.fileAcl)
  let b := st32 be b (o + 108) (bswap4 be odi.dirAcl)
  st32 be b (o + 112) (bswap4 be odi.faddr)

namespace Volume

variable (v : Volume) (ino : Nat)

/-- `block_group_number` of an inode. -/
def inodeGroup : Nat := pred32 ino / v.inodesPerGroup

/-- Where the inode is in the table of its group, in bytes. -/
def inodePos : Nat := pred32 ino % v.inodesPerGroup * v.inodeSize % 2 ^ 32

/-- The table block of an inode. -/
def inodeTableBlock : Nat :=
  (v.inodeTable (v.inodeGroup ino) + v.inodePos ino >>> (v.logBlockSize + 10)) % 2 ^ 32

/-- Where the inode is in its table block. -/
def inodeOffset : Nat := v.inodePos ino &&& (v.blockSize - 1)

end Volume

/-- The inode the table holds under a number. -/
def diskInode (v : Volume) (s : Fs) (ino : Nat) : OndiskInode :=
  inodeCopyFrom v.beCpu (s.blk (v.inodeTableBlock ino)) (v.inodeOffset ino)

/-- `read_inode`, into cache slot `i`. -/
def readInode (v : Volume) (s : Fs) (i : Nat) : Except Fault Fs :=
  let ino := (s.slot i).ino
  if v.groupsCount ≤ v.inodeGroup ino then
    .error (.panic "can't get group_desc to read inode")
  else .ok (s.modOdi i fun _ => diskInode v s ino)

/-- `update_times`. -/
def updateTimes (v : Volume) (env : Env) (x : Inode) : Inode :=
  if v.readOnly then x
  else
    { x with
      odi := { x.odi with
        atime := if x.update.atime then env.now else x.odi.atime
        ctime := if x.update.ctime then env.now else x.odi.ctime
        mtime := if x.update.mtime then env.now else x.odi.mtime }
      update := ⟨false, false, false⟩ }

/-- What `write_inode` makes of the cached inode before it copies it. -/
def timed (v : Volume) (env : Env) (x : Inode) : Inode :=
  if x.update.atime || x.update.ctime || x.update.mtime then updateTimes v env x else x

/-- `write_inode`, of cache slot `i`. -/
def writeInode (v : Volume) (env : Env) (s : Fs) (i : Nat) : Except Fault Fs :=
  let ino := (s.slot i).ino
  if v.groupsCount ≤ v.inodeGroup ino then
    .error (.panic "can't get group_desc to write inode")
  else
    let x := timed v env (s.slot i)
    let b := v.inodeTableBlock ino
    let s := s.setSlot i x
    let buf := inodeCopyTo v.beCpu x.odi (s.blk b) (v.inodeOffset ino)
    let s := if v.readOnly then s.setBlk b buf else s.writeBlk b buf
    .ok (inodeMarkclean s i)

/-! ## The record -/

theorem blocksCopyTo_apply_ne {be : Bool} {block : Fin 15 → UInt32} {b : Buf} {o j : Nat}
    (h : j < o + 40 ∨ o + 100 ≤ j) : blocksCopyTo be block b o j = b j := by
  unfold blocksCopyTo
  generalize List.finRange 15 = l
  induction l generalizing b with
  | nil => rfl
  | cons k l ih => rw [List.foldl_cons, ih, st32_apply_ne (by have := k.isLt; omega)]

/-- The loop writes each entry once, and no later entry overlaps it. -/
theorem ld32_blocksCopyTo {be : Bool} {block : Fin 15 → UInt32} {b : Buf} {o : Nat} (k : Fin 15) :
    ld32 false (blocksCopyTo be block b o) (o + 40 + 4 * k.val) = block k := by
  have hfold : ∀ (l : List (Fin 15)) (b : Buf),
      (k ∈ l ∨ ld32 false b (o + 40 + 4 * k.val) = block k) →
      ld32 false (l.foldl (fun b k => st32 be b (o + 40 + 4 * k.val) (bswap4 be (block k))) b)
        (o + 40 + 4 * k.val) = block k := by
    intro l
    induction l with
    | nil =>
      intro b h
      rcases h with h | h
      · exact absurd h List.not_mem_nil
      · exact h
    | cons j l ih =>
      intro b h
      rw [List.foldl_cons]
      refine ih _ ?_
      by_cases hkj : k = j
      · right
        rw [hkj, st32_bswap4, ld32_st32]
      · rcases h with h | h
        · exact .inl ((List.mem_cons.mp h).resolve_left hkj)
        · right
          have hne : k.val ≠ j.val := fun he => hkj (Fin.ext he)
          rw [ld32_st32_ne (by omega), h]
  exact hfold _ _ (.inl (List.mem_finRange k))

theorem ld16_blocksCopyTo_ne {be : Bool} {block : Fin 15 → UInt32} {b : Buf} {o o' : Nat}
    (h : o' + 2 ≤ o + 40 ∨ o + 100 ≤ o') :
    ld16 false (blocksCopyTo be block b o) o' = ld16 false b o' :=
  ld16_congr fun i h1 h2 => blocksCopyTo_apply_ne (by omega)

theorem ld32_blocksCopyTo_ne {be : Bool} {block : Fin 15 → UInt32} {b : Buf} {o o' : Nat}
    (h : o' + 4 ≤ o + 40 ∨ o + 100 ≤ o') :
    ld32 false (blocksCopyTo be block b o) o' = ld32 false b o' :=
  ld32_congr fun i h1 h2 => blocksCopyTo_apply_ne (by omega)

/-- Reading back what was written. -/
theorem inodeCopyFrom_inodeCopyTo (be : Bool) (odi : OndiskInode) (b : Buf) (o : Nat) :
    inodeCopyFrom be (inodeCopyTo be odi b o) o = odi := by
  have hblock (k : Fin 15) : o + 40 + 4 * k.val + 4 ≤ o + 100 := by
    have := k.isLt
    omega
  apply OndiskInode.ext
  case block =>
    funext k
    have := hblock k
    simp (disch := omega) only [inodeCopyFrom, inodeCopyTo, bswap4_ld32, ld32_st32_ne,
      ld32_blocksCopyTo]
  all_goals
    simp (disch := omega) only [inodeCopyFrom, inodeCopyTo, bswap4_ld32, bswap2_ld16, st32_bswap4,
      st16_bswap2, ld32_st32, ld16_st16, ld32_st32_ne, ld32_st16_ne, ld16_st32_ne, ld16_st16_ne,
      ld16_blocksCopyTo_ne, ld32_blocksCopyTo_ne]

/-- What `inode_copy` writes are the 128 bytes of the record. -/
theorem inodeCopyTo_apply_ne {be : Bool} {odi : OndiskInode} {b : Buf} {o j : Nat}
    (h : j < o ∨ o + 128 ≤ j) : inodeCopyTo be odi b o j = b j := by
  simp (disch := omega) only [inodeCopyTo, st32_apply_ne, st16_apply_ne, blocksCopyTo_apply_ne]

/-- What `inode_copy` reads are the 128 bytes of the record. -/
theorem inodeCopyFrom_congr {be : Bool} {b b' : Buf} {o : Nat} (h : AgreeOn o (o + 128) b b') :
    inodeCopyFrom be b' o = inodeCopyFrom be b o := by
  have h16 (k : Nat) (hk : k + 2 ≤ 128) : ld16 be b' (o + k) = ld16 be b (o + k) :=
    ld16_congr (h.mono (by omega) (by omega))
  have h32 (k : Nat) (hk : k + 4 ≤ 128) : ld32 be b' (o + k) = ld32 be b (o + k) :=
    ld32_congr (h.mono (by omega) (by omega))
  apply OndiskInode.ext
  case block =>
    funext k
    have := k.isLt
    simp only [inodeCopyFrom]
    rw [Nat.add_assoc, h32 _ (by omega)]
  case mode => simpa [inodeCopyFrom] using congrArg (bswap2 be) (h16 0 (by omega))
  all_goals
    simp (disch := omega) only [inodeCopyFrom, h16, h32]

/-! ## The layout of the volume -/

/-- The system areas of the groups are where they should be: the tables hold
`s_inodes_per_group` inodes of a whole number to the block, and no table or
bitmap overlaps another. -/
structure Layout (v : Volume) : Prop extends BlockGeom v, InodeGeom v where
  inodeSize_ge : 128 ≤ v.inodeSize
  inodeSize_dvd : v.inodeSize ∣ v.blockSize
  ipb_dvd : v.inodesPerBlock ∣ v.inodesPerGroup
  inodesCount_eq : v.inodesCount = v.groupsCount * v.inodesPerGroup
  inos_lt : v.groupsCount * v.inodesPerGroup < 2 ^ 31
  table_lt : v.inodesPerGroup * v.inodeSize < 2 ^ 32
  table_end : ∀ g, g < v.groupsCount → v.inodeTable g + v.inodeTableBlocksPerGroup ≤ 2 ^ 32
  table_inj : ∀ g, g < v.groupsCount → ∀ h, h < v.groupsCount →
    ∀ j, j < v.inodeTableBlocksPerGroup → ∀ k, k < v.inodeTableBlocksPerGroup →
    v.inodeTable g + j = v.inodeTable h + k → g = h ∧ j = k
  table_ne_block_bitmap : ∀ g, g < v.groupsCount → ∀ h, h < v.groupsCount →
    ∀ j, j < v.inodeTableBlocksPerGroup → v.inodeTable g + j ≠ v.blockBitmap h
  table_ne_inode_bitmap : ∀ g, g < v.groupsCount → ∀ h, h < v.groupsCount →
    ∀ j, j < v.inodeTableBlocksPerGroup → v.inodeTable g + j ≠ v.inodeBitmap h
  bitmaps_ne : ∀ g, g < v.groupsCount → ∀ h, h < v.groupsCount →
    v.blockBitmap g ≠ v.inodeBitmap h

/-- `ino` is the number of an inode of the volume. -/
def OnVolume (v : Volume) (ino : Nat) : Prop := 0 < ino ∧ ino ≤ v.groupsCount * v.inodesPerGroup

section Location

variable {v : Volume} (hv : Layout v) {ino : Nat} (hino : OnVolume v ino)

include hv hino

theorem OnVolume.lt : ino < 2 ^ 31 := Nat.lt_of_le_of_lt hino.2 hv.inos_lt

omit hv in
theorem inodeGroup_eq : v.inodeGroup ino = (ino - 1) / v.inodesPerGroup := by
  rw [Volume.inodeGroup, pred32_of_pos hino.1]

omit hv in
theorem inodeGroup_lt : v.inodeGroup ino < v.groupsCount := by
  rw [inodeGroup_eq hino]
  obtain ⟨h1, h2⟩ := hino
  exact Nat.div_lt_of_lt_mul (by rw [Nat.mul_comm]; omega)

theorem inodePos_eq : v.inodePos ino = (ino - 1) % v.inodesPerGroup * v.inodeSize := by
  have hidx : (ino - 1) % v.inodesPerGroup < v.inodesPerGroup := Nat.mod_lt _ hv.ipg_pos
  have hle : (ino - 1) % v.inodesPerGroup * v.inodeSize ≤ v.inodesPerGroup * v.inodeSize :=
    Nat.mul_le_mul_right _ (by omega)
  rw [Volume.inodePos, pred32_of_pos hino.1,
    Nat.mod_eq_of_lt (Nat.lt_of_le_of_lt hle hv.table_lt)]

omit hino in
theorem inodeOffset_eq : v.inodeOffset ino = v.inodePos ino % v.blockSize := by
  rw [Volume.inodeOffset, Volume.blockSize_eq hv.toBlockGeom.log_le,
    show 1024 * 2 ^ v.logBlockSize = 2 ^ (v.logBlockSize + 10) from by rw [Nat.pow_add]; omega,
    Nat.and_two_pow_sub_one_eq_mod]

/-- The table blocks of a group are counted from `g_inode_table` on. -/
theorem inodeTableBlock_eq :
    v.inodePos ino / v.blockSize < v.inodeTableBlocksPerGroup ∧
    v.inodeTableBlock ino =
      v.inodeTable (v.inodeGroup ino) + v.inodePos ino / v.blockSize := by
  have hbs := Volume.blockSize_bounds hv.toBlockGeom.log_le
  have hidx : (ino - 1) % v.inodesPerGroup < v.inodesPerGroup := Nat.mod_lt _ hv.ipg_pos
  have hge := hv.inodeSize_ge
  have hfull : v.inodeTableBlocksPerGroup * v.blockSize = v.inodesPerGroup * v.inodeSize := by
    obtain ⟨m, hm⟩ := hv.inodeSize_dvd
    have hipb : v.inodesPerBlock = m := by
      rw [Volume.inodesPerBlock, hm]
      exact Nat.mul_div_cancel_left m (by omega)
    obtain ⟨t, ht⟩ := hv.ipb_dvd
    have hm0 : 0 < m := by
      rcases Nat.eq_zero_or_pos m with h0 | h0
      · rw [h0, Nat.mul_zero] at hm
        omega
      · exact h0
    rw [Volume.inodeTableBlocksPerGroup, ht, hipb, Nat.mul_div_cancel_left t hm0, hm]
    rw [Nat.mul_comm m t, Nat.mul_assoc, Nat.mul_comm m]
  have hlt : v.inodePos ino / v.blockSize < v.inodeTableBlocksPerGroup := by
    refine Nat.div_lt_of_lt_mul ?_
    rw [inodePos_eq hv hino, Nat.mul_comm v.blockSize, hfull]
    exact Nat.mul_lt_mul_of_pos_right hidx (by omega)
  refine ⟨hlt, ?_⟩
  have hend := hv.table_end _ (inodeGroup_lt hino)
  rw [Volume.inodeTableBlock, Nat.shiftRight_eq_div_pow,
    show 2 ^ (v.logBlockSize + 10) = v.blockSize from by
      rw [Volume.blockSize_eq hv.toBlockGeom.log_le, Nat.pow_add]; omega]
  exact Nat.mod_eq_of_lt (by omega)

/-- A table block is a system block. -/
theorem inodeTableBlock_system : SystemBlock v (v.inodeTableBlock ino) := by
  obtain ⟨hlt, heq⟩ := inodeTableBlock_eq hv hino
  rw [heq]
  exact .inr ⟨_, inodeGroup_lt hino, .inr (.inr ⟨Nat.le_add_right _ _, Nat.add_lt_add_left hlt _⟩)⟩

theorem inodeTableBlock_ne_block_bitmap {g : Nat} (hg : g < v.groupsCount) :
    v.blockBitmap g ≠ v.inodeTableBlock ino := by
  obtain ⟨hlt, heq⟩ := inodeTableBlock_eq hv hino
  rw [heq]
  exact (hv.table_ne_block_bitmap _ (inodeGroup_lt hino) g hg _ hlt).symm

theorem inodeTableBlock_ne_inode_bitmap {g : Nat} (hg : g < v.groupsCount) :
    v.inodeBitmap g ≠ v.inodeTableBlock ino := by
  obtain ⟨hlt, heq⟩ := inodeTableBlock_eq hv hino
  rw [heq]
  exact (hv.table_ne_inode_bitmap _ (inodeGroup_lt hino) g hg _ hlt).symm

/-- Two inodes in one table block are a record apart. -/
theorem inodeOffset_disjoint {n : Nat} (hn : OnVolume v n) (hne : n ≠ ino)
    (hblock : v.inodeTableBlock n = v.inodeTableBlock ino) :
    v.inodeOffset n + 128 ≤ v.inodeOffset ino ∨ v.inodeOffset ino + 128 ≤ v.inodeOffset n := by
  obtain ⟨hlt, heq⟩ := inodeTableBlock_eq hv hino
  obtain ⟨hlt', heq'⟩ := inodeTableBlock_eq hv hn
  have hge := hv.inodeSize_ge
  obtain ⟨hgroup, hdiv⟩ := hv.table_inj _ (inodeGroup_lt hn) _ (inodeGroup_lt hino)
    _ hlt' _ hlt (by rw [← heq, ← heq', hblock])
  -- same group and table block, so the places in the table differ within the block
  have hidx : (n - 1) % v.inodesPerGroup ≠ (ino - 1) % v.inodesPerGroup := by
    intro hmod
    rw [inodeGroup_eq hn, inodeGroup_eq hino] at hgroup
    have h1 := Nat.div_add_mod (n - 1) v.inodesPerGroup
    have h2 := Nat.div_add_mod (ino - 1) v.inodesPerGroup
    rw [hgroup, hmod] at h1
    have := hn.1
    have := hino.1
    omega
  rw [inodeOffset_eq hv, inodeOffset_eq hv]
  have h1 := Nat.div_add_mod (v.inodePos n) v.blockSize
  have h2 := Nat.div_add_mod (v.inodePos ino) v.blockSize
  rw [hdiv] at h1
  rw [inodePos_eq hv hn, inodePos_eq hv hino] at *
  rcases Nat.lt_or_gt_of_ne hidx with hlt | hgt
  · have hstep : ((n - 1) % v.inodesPerGroup + 1) * v.inodeSize ≤
        (ino - 1) % v.inodesPerGroup * v.inodeSize := Nat.mul_le_mul_right _ hlt
    rw [Nat.succ_mul] at hstep
    omega
  · have hstep : ((ino - 1) % v.inodesPerGroup + 1) * v.inodeSize ≤
        (n - 1) % v.inodesPerGroup * v.inodeSize := Nat.mul_le_mul_right _ hgt
    rw [Nat.succ_mul] at hstep
    omega

end Location

/-! ## `write_inode` -/

/-- An inode without its times, which `update_times` sets behind everyone's back. -/
def OndiskInode.untimed (o : OndiskInode) : OndiskInode :=
  { o with atime := 0, ctime := 0, mtime := 0 }

@[simp] theorem timed_ino (v : Volume) (env : Env) (x : Inode) : (timed v env x).ino = x.ino := by
  unfold timed updateTimes
  split <;> [split <;> rfl; rfl]

@[simp] theorem timed_count (v : Volume) (env : Env) (x : Inode) :
    (timed v env x).count = x.count := by
  unfold timed updateTimes
  split <;> [split <;> rfl; rfl]

@[simp] theorem timed_dirty (v : Volume) (env : Env) (x : Inode) :
    (timed v env x).dirty = x.dirty := by
  unfold timed updateTimes
  split <;> [split <;> rfl; rfl]

/-- The reference count is nothing to `update_times`. -/
theorem timed_with_count (v : Volume) (env : Env) (x : Inode) (c : Nat) :
    timed v env { x with count := c } = { timed v env x with count := c } := by
  unfold timed updateTimes
  simp only
  split <;> [split <;> rfl; rfl]

@[simp] theorem untimed_timed (v : Volume) (env : Env) (x : Inode) :
    (timed v env x).odi.untimed = x.odi.untimed := by
  unfold timed updateTimes
  split <;> [split <;> rfl; rfl]

/-- The state `write_inode` leaves. -/
def wroteInode (v : Volume) (env : Env) (s : Fs) (i : Nat) : Fs :=
  { s with
    slot := Function.update s.slot i { timed v env (s.slot i) with dirty := false }
    blk := Function.update s.blk (v.inodeTableBlock (s.slot i).ino)
      (inodeCopyTo v.beCpu (timed v env (s.slot i)).odi
        (s.blk (v.inodeTableBlock (s.slot i).ino)) (v.inodeOffset (s.slot i).ino))
    dirtyBlk :=
      if v.readOnly then s.dirtyBlk
      else Function.update s.dirtyBlk (v.inodeTableBlock (s.slot i).ino) true }

/-- `write_inode`, as one equation. -/
theorem writeInode_def (v : Volume) (env : Env) (s : Fs) (i : Nat) :
    writeInode v env s i =
      if v.groupsCount ≤ v.inodeGroup (s.slot i).ino then
        .error (.panic "can't get group_desc to write inode")
      else .ok (wroteInode v env s i) := by
  unfold writeInode
  simp only
  split
  · rfl
  · by_cases hro : v.readOnly
    · simp [inodeMarkclean, Fs.setBlk, Fs.setSlot, wroteInode, hro]
    · simp [inodeMarkclean, Fs.setBlk, Fs.writeBlk, Fs.setSlot, wroteInode, hro]

theorem writeInode_eq {v : Volume} {env : Env} {s : Fs} {i : Nat}
    (hino : OnVolume v (s.slot i).ino) :
    writeInode v env s i = .ok (wroteInode v env s i) := by
  have hg := inodeGroup_lt hino
  rw [writeInode_def, if_neg (by omega)]

theorem wroteInode_blk_ne {v : Volume} {env : Env} {s : Fs} {i b : Nat}
    (h : b ≠ v.inodeTableBlock (s.slot i).ino) : (wroteInode v env s i).blk b = s.blk b :=
  Function.update_of_ne h _ _

/-- On the disk, `write_inode` changes the one inode it writes. -/
theorem diskInode_wroteInode {v : Volume} (hv : Layout v) (env : Env) {s : Fs} {i n : Nat}
    (hino : OnVolume v (s.slot i).ino) (hn : OnVolume v n) :
    diskInode v (wroteInode v env s i) n =
      if n = (s.slot i).ino then (timed v env (s.slot i)).odi else diskInode v s n := by
  unfold diskInode wroteInode
  simp only
  by_cases heq : n = (s.slot i).ino
  · rw [if_pos heq, heq, Function.update_self, inodeCopyFrom_inodeCopyTo]
  · rw [if_neg heq]
    by_cases hblock : v.inodeTableBlock n = v.inodeTableBlock (s.slot i).ino
    · have hdisj := inodeOffset_disjoint hv hino hn heq hblock
      rw [hblock, Function.update_self]
      exact inodeCopyFrom_congr fun j h1 h2 => inodeCopyTo_apply_ne (by omega)
    · rw [Function.update_of_ne hblock]

/-- The inode on the disk depends only on its table block. -/
theorem diskInode_congr {v : Volume} {s s' : Fs} {n : Nat}
    (h : s'.blk (v.inodeTableBlock n) = s.blk (v.inodeTableBlock n)) :
    diskInode v s' n = diskInode v s n := by
  unfold diskInode
  rw [h]

/-! ## The small volume -/

theorem sampleVolume_layout : Layout sampleVolume where
  toBlockGeom := sampleVolume_blockGeom
  ipg_pos := by decide
  ipg_le := by decide
  inodes_lt := by decide
  inode_bitmap_inj := sampleVolume_inodeGeom.inode_bitmap_inj
  inodeSize_ge := by decide
  inodeSize_dvd := by decide
  ipb_dvd := by decide
  inodesCount_eq := by decide
  inos_lt := by decide
  table_lt := by decide
  table_end := by decide
  table_inj := by
    intro g hg h hh j _ k _ he
    have hone : sampleVolume.groupsCount = 1 := by decide
    change 5 + j = 5 + k at he
    omega
  table_ne_block_bitmap := by decide
  table_ne_inode_bitmap := by decide
  bitmaps_ne := by decide

end Cheviot.Ext2
