import Cheviot.Ext2.Bitmap

/-!
# Block bitmap: `alloc_block` and `free_block`

`alloc_block` walks all groups once and the first one again, skips the groups
whose descriptor reports no free block, and takes a disagreement between a
descriptor and its bitmap for a fatal error. `free_block` goes from a block
number back to the group and the bit.

The loop of `alloc_block` changes nothing on its way over the groups, and one bit with its
counters at the end. A run keeps, besides the invariant, that the blocks handed out are marked
and are no system blocks: so each of them can be released.

* `BlockConsistent` — the per-group and global counters agree with the bitmaps,
  and the system blocks and the missing blocks are marked.
* `allocBlock_spec` — an allocation marks one free block, or there is none.
* `freeBlock_spec` — a release of a marked block unmarks it.
* `markBlock_consistent`, `unmarkBlock_consistent` — both keep the state consistent.
* `blockRun_ok` — over every sequence of calls that releases only blocks handed
  out before, all of this holds at every call, and no panic is reached.

Mirroring notes:
- `alloc_block` works out a goal block, and from it a group and a word; its loop
  then sets the group from the loop counter and searches from word 0. The model
  carries the word along as the source does.
- `invalidate_block` drops the buffer of the released block; what the block
  shows afterwards is whatever is on the disk, `Env.stale`.
-/

namespace Cheviot.Ext2

open Cheviot.Bytes Cheviot.Bits

/-! ## The functions -/

/-- `check_block_number`. -/
def checkBlockNumber (v : Volume) (group block : Nat) : Except Fault Unit :=
  if block = v.inodeBitmap group ∨ block = v.blockBitmap group ∨
      (v.inodeTable group ≤ block ∧
        block < (v.inodeTable group + v.inodeTableBlocksPerGroup) % 2 ^ 32) then
    .error (.panic "extfs: block allocator tried to return a system block")
  else if v.blocksCount ≤ block then
    .error (.panic "extfs: block allocator returned block number greater than total number of blocks")
  else .ok ()

/-- The goal block of `alloc_block`: the one asked for, or else the first of the
inode's group, or else a random one. -/
def allocGoal (v : Volume) (env : Env) (ino goal : Nat) : Nat :=
  let goal :=
    if goal = noBlock then
      let group := pred32 ino / v.inodesPerGroup
      (v.blocksPerGroup * group + v.firstDataBlock) % 2 ^ 32
    else goal
  if v.blocksCount ≤ goal ∨ (goal < v.firstDataBlock ∧ goal ≠ noBlock) then
    env.rand % v.blocksCount
  else goal

/-- The loop of `alloc_block`, from turn `i`, for at most the given number of turns. -/
def allocBlockLoop (v : Volume) (s : Fs) : Nat → Nat → Nat → Except Fault (Fs × Nat)
  | 0, _, _ => .ok (s, noBlock)
  | n + 1, i, word =>
    let group := i % v.groupsCount
    if v.groupsCount ≤ group then .error (.panic "extfs: can't get group_desc to alloc block")
    else if (s.gd group).freeBlocksCount = 0 then allocBlockLoop v s n (i + 1) 0
    else do
      match ← allocBit v.beCpu v.blockSize (s.blk (v.blockBitmap group)) v.blocksPerGroup 0 with
      | some (bitmap, bit) =>
        let block := (v.firstDataBlock + group * v.blocksPerGroup + bit) % 2 ^ 32
        checkBlockNumber v group block
        let gd := s.gd group
        let s := s.writeBlk (v.blockBitmap group) bitmap
        let s := s.setGd group { gd with freeBlocksCount := gd.freeBlocksCount - 1 }
        .ok ({ s with freeBlocksCount := s.freeBlocksCount - 1 }, block)
      | none =>
        if i ≠ 0 then
          .error (.panic "extfs: allocator failed to allocate a bit in bitmap with free bits")
        else allocBlockLoop v s n (i + 1) word

/-- `alloc_block`, for inode `ino`. -/
def allocBlock (v : Volume) (env : Env) (s : Fs) (ino goal : Nat) : Except Fault (Fs × Nat) :=
  if s.freeBlocksCount = 0 then .ok (s, noBlock)
  else
    let goal := allocGoal v env ino goal
    let word := (goal + 2 ^ 32 - v.firstDataBlock) % 2 ^ 32 % v.blocksPerGroup / 32
    allocBlockLoop v s (v.groupsCount + 1) 0 word

/-- `free_block`. -/
def freeBlock (v : Volume) (env : Env) (s : Fs) (block : Nat) : Except Fault Fs :=
  if v.blocksCount ≤ block ∨ block < v.firstDataBlock then
    .error (.panic "extfs: trying to free block %d beyond blocks scope.")
  else
    let group := (block - v.firstDataBlock) / v.blocksPerGroup
    let bit := (block - v.firstDataBlock) % v.blocksPerGroup
    if v.groupsCount ≤ group then .error (.panic "extfs: can't get group_desc to alloc block")
    else do
      checkBlockNumber v group block
      match ← clearBit v.beCpu v.blockSize (s.blk (v.blockBitmap group)) bit with
      | none => .error (.panic "extfs: failed freeing unused block %d")
      | some bitmap =>
        let gd := s.gd group
        let s := s.writeBlk (v.blockBitmap group) bitmap
        let s := s.setGd group { gd with freeBlocksCount := gd.freeBlocksCount + 1 }
        let s := { s with freeBlocksCount := s.freeBlocksCount + 1 }
        .ok (invalidateBlock env s block)

/-! ## Consistent block bitmaps -/

/-- What the block bitmaps need of the volume. -/
structure BlockGeom (v : Volume) : Prop where
  log_le : v.logBlockSize ≤ 5
  bpg_pos : 0 < v.blocksPerGroup
  bpg_le : v.blocksPerGroup ≤ 8 * v.blockSize
  bpg_lt : v.blocksPerGroup ≤ 65535
  first_lt : v.firstDataBlock < v.blocksCount
  blocks_lt : v.blocksCount < 2 ^ 32
  block_bitmap_inj : ∀ g h, g < v.groupsCount → h < v.groupsCount →
    v.blockBitmap g = v.blockBitmap h → g = h

/-- Block `b` holds the superblock, group descriptors, a bitmap or inodes. -/
def SystemBlock (v : Volume) (b : Nat) : Prop :=
  (v.firstDataBlock ≤ b ∧ b ≤ v.firstDataBlock + v.groupDescBlockCount) ∨
  ∃ g, g < v.groupsCount ∧ (b = v.blockBitmap g ∨ b = v.inodeBitmap g ∨
    (v.inodeTable g ≤ b ∧ b < v.inodeTable g + v.inodeTableBlocksPerGroup))

instance (v : Volume) (b : Nat) : Decidable (SystemBlock v b) :=
  inferInstanceAs (Decidable (_ ∨ _))

/-- Block `b` is on the volume and can hold data. -/
def DataBlock (v : Volume) (b : Nat) : Prop :=
  v.firstDataBlock ≤ b ∧ b < v.blocksCount ∧ ¬ SystemBlock v b

/-- Block 0 is before the first data block or is the superblock. -/
theorem DataBlock.ne_noBlock {v : Volume} {b : Nat} (h : DataBlock v b) : b ≠ noBlock := by
  obtain ⟨hlo, -, hsys⟩ := h
  rintro rfl
  exact hsys (.inl ⟨hlo, Nat.zero_le _⟩)

/-- Bit `i` of the block bitmap of group `g`. -/
def bbit (v : Volume) (s : Fs) (g i : Nat) : Bool := bitAt v.beCpu (s.blk (v.blockBitmap g)) i

/-- The block of bit `i` of group `g`. -/
def blockOf (v : Volume) (g i : Nat) : Nat := v.firstDataBlock + g * v.blocksPerGroup + i

/-- The group of a block and its bit there, as `free_block` computes them. -/
theorem blockOf_div_mod {v : Volume} {g i : Nat} (hi : i < v.blocksPerGroup) :
    (blockOf v g i - v.firstDataBlock) / v.blocksPerGroup = g ∧
      (blockOf v g i - v.firstDataBlock) % v.blocksPerGroup = i := by
  have hsub : blockOf v g i - v.firstDataBlock = v.blocksPerGroup * g + i := by
    rw [blockOf, Nat.mul_comm g]
    omega
  rw [hsub, Nat.mul_add_div (by omega), Nat.div_eq_of_lt hi, Nat.mul_add_mod, Nat.mod_eq_of_lt hi]
  exact ⟨rfl, rfl⟩

theorem blockOf_inj {v : Volume} {g i h j : Nat} (hi : i < v.blocksPerGroup)
    (hj : j < v.blocksPerGroup) (heq : blockOf v g i = blockOf v h j) : g = h ∧ i = j := by
  obtain ⟨hg, hgi⟩ := blockOf_div_mod (v := v) (g := g) hi
  obtain ⟨hh, hhj⟩ := blockOf_div_mod (v := v) (g := h) hj
  rw [heq] at hg hgi
  exact ⟨hg.symm.trans hh, hgi.symm.trans hhj⟩

/-- Every block from the first data block on is the block of some bit. -/
theorem exists_blockOf {v : Volume} (hv : BlockGeom v) {b : Nat} (hlo : v.firstDataBlock ≤ b)
    (hhi : b < v.blocksCount) :
    ∃ g i, g < v.groupsCount ∧ i < v.blocksPerGroup ∧ blockOf v g i = b := by
  have h1 := hv.first_lt
  have h2 := hv.blocks_lt
  have hpos := hv.bpg_pos
  have hdm := Nat.div_add_mod (b - v.firstDataBlock) v.blocksPerGroup
  refine ⟨(b - v.firstDataBlock) / v.blocksPerGroup, (b - v.firstDataBlock) % v.blocksPerGroup,
    ?_, Nat.mod_lt _ hpos, ?_⟩
  · have hle : (b - v.firstDataBlock) / v.blocksPerGroup ≤
        (v.blocksCount - v.firstDataBlock - 1) / v.blocksPerGroup :=
      Nat.div_le_div_right (by omega)
    have hlast := Nat.div_le_self (v.blocksCount - v.firstDataBlock - 1) v.blocksPerGroup
    unfold Volume.groupsCount
    rw [show (v.blocksCount + 2 * 2 ^ 32 - v.firstDataBlock - 1) % 2 ^ 32 =
      v.blocksCount - v.firstDataBlock - 1 from by omega]
    rw [Nat.mod_eq_of_lt (by omega)]
    omega
  · rw [blockOf, Nat.mul_comm]
    omega

theorem groupsCount_pos {v : Volume} (hv : BlockGeom v) : 0 < v.groupsCount := by
  obtain ⟨g, _, hg, _⟩ := exists_blockOf hv (Nat.le_refl v.firstDataBlock) hv.first_lt
  omega

/-- The counters agree with the block bitmaps, and what is not free to hand out is marked. -/
structure BlockConsistent (v : Volume) (s : Fs) : Prop where
  free_count : ∀ g, g < v.groupsCount →
    (s.gd g).freeBlocksCount.toNat = Nat.count (fun i => bbit v s g i = false) v.blocksPerGroup
  free_sum : s.freeBlocksCount.toNat =
    ∑ g ∈ Finset.range v.groupsCount, (s.gd g).freeBlocksCount.toNat
  system : ∀ g, g < v.groupsCount → ∀ i, i < v.blocksPerGroup → SystemBlock v (blockOf v g i) →
    bbit v s g i = true
  past : ∀ g, g < v.groupsCount → ∀ i, i < v.blocksPerGroup → v.blocksCount ≤ blockOf v g i →
    bbit v s g i = true

/-- Only the counters and the bitmap blocks matter. -/
theorem BlockConsistent.congr {v : Volume} {s s' : Fs} (hs : BlockConsistent v s)
    (hgd : ∀ g, (s'.gd g).freeBlocksCount = (s.gd g).freeBlocksCount)
    (hfree : s'.freeBlocksCount = s.freeBlocksCount)
    (hblk : ∀ g, g < v.groupsCount → s'.blk (v.blockBitmap g) = s.blk (v.blockBitmap g)) :
    BlockConsistent v s' := by
  have hbit : ∀ g i, g < v.groupsCount → bbit v s' g i = bbit v s g i := by
    intro g i hg
    rw [bbit, bbit, hblk g hg]
  refine ⟨?_, ?_, ?_, ?_⟩
  · intro g hg
    rw [hgd, hs.free_count g hg]
    exact count_congr fun i _ => by rw [hbit g i hg]
  · rw [hfree, hs.free_sum]
    exact Finset.sum_congr rfl fun g _ => by rw [hgd]
  · intro g hg i hi hsys
    rw [hbit g i hg]
    exact hs.system g hg i hi hsys
  · intro g hg i hi hpast
    rw [hbit g i hg]
    exact hs.past g hg i hi hpast

/-- The only bit in which the block bitmaps of `s'` differ from those of `s` is
the one of block `b`, which is `x` in `s'`. -/
def OnlyBlockBit (v : Volume) (s s' : Fs) (b : Nat) (x : Bool) : Prop :=
  ∀ g i, g < v.groupsCount → i < v.blocksPerGroup →
    bbit v s' g i = if blockOf v g i = b then x else bbit v s g i

/-- Block `b` is marked in its group's bitmap. -/
def BlockUsed (v : Volume) (s : Fs) (b : Nat) : Prop :=
  ∃ g i, g < v.groupsCount ∧ i < v.blocksPerGroup ∧ b = blockOf v g i ∧ bbit v s g i = true

/-- Block `b` belongs to a group and is not marked there. -/
def BlockFree (v : Volume) (s : Fs) (b : Nat) : Prop :=
  ∃ g i, g < v.groupsCount ∧ i < v.blocksPerGroup ∧ b = blockOf v g i ∧ bbit v s g i = false

theorem BlockUsed.not_free {v : Volume} {s : Fs} {b : Nat} (hu : BlockUsed v s b) :
    ¬ BlockFree v s b := by
  rintro ⟨g, i, -, hi, hb, hclear⟩
  obtain ⟨h, j, -, hj, hb', hset⟩ := hu
  obtain ⟨rfl, rfl⟩ := blockOf_inj hi hj (hb.symm.trans hb')
  rw [hset] at hclear
  cases hclear

/-- A data block is marked or free. -/
theorem DataBlock.used_or_free {v : Volume} (hv : BlockGeom v) {b : Nat} (h : DataBlock v b)
    (s : Fs) : BlockUsed v s b ∨ BlockFree v s b := by
  obtain ⟨g, i, hg, hi, rfl⟩ := exists_blockOf hv h.1 h.2.1
  cases hbit : bbit v s g i with
  | true => exact .inl ⟨g, i, hg, hi, rfl, hbit⟩
  | false => exact .inr ⟨g, i, hg, hi, rfl, hbit⟩

/-- A data block is in no bitmap. -/
theorem DataBlock.ne_blockBitmap {v : Volume} {b g : Nat} (h : DataBlock v b)
    (hg : g < v.groupsCount) : v.blockBitmap g ≠ b := fun he =>
  h.2.2 (.inr ⟨g, hg, .inl he.symm⟩)

/-- A free block can hold data. -/
theorem BlockConsistent.dataBlock {v : Volume} {s : Fs} (hs : BlockConsistent v s) {g i : Nat}
    (hg : g < v.groupsCount) (hi : i < v.blocksPerGroup) (hclear : bbit v s g i = false) :
    DataBlock v (blockOf v g i) := by
  refine ⟨by unfold blockOf; omega, ?_, fun hsys => ?_⟩
  · by_contra hge
    have hset := hs.past g hg i hi (by omega)
    rw [hclear] at hset
    cases hset
  · have hset := hs.system g hg i hi hsys
    rw [hclear] at hset
    cases hset

theorem BlockFree.data {v : Volume} {s : Fs} (hs : BlockConsistent v s) {b : Nat}
    (h : BlockFree v s b) : DataBlock v b := by
  obtain ⟨g, i, hg, hi, rfl, hclear⟩ := h
  exact hs.dataBlock hg hi hclear

/-- A free block can be taken only from a group whose descriptor reports one. -/
theorem BlockConsistent.gd_ne_zero {v : Volume} {s : Fs} (hs : BlockConsistent v s) {g i : Nat}
    (hg : g < v.groupsCount) (hi : i < v.blocksPerGroup) (hclear : bbit v s g i = false) :
    (s.gd g).freeBlocksCount ≠ 0 := fun h0 => by
  have hc := hs.free_count g hg
  rw [h0] at hc
  exact Nat.count_iff_forall_not.mp hc.symm i hi hclear

/-- No group has more free blocks than blocks. -/
theorem BlockConsistent.count_lt {v : Volume} {s : Fs} (hs : BlockConsistent v s) {g i : Nat}
    (hg : g < v.groupsCount) (hi : i < v.blocksPerGroup) (hset : bbit v s g i = true) :
    (s.gd g).freeBlocksCount.toNat < v.blocksPerGroup := by
  rw [hs.free_count g hg]
  exact Bits.count_lt hi (by simp [hset]) fun j hj _ => hj

/-- The global counter counts the free bits of all groups taken together. -/
theorem BlockConsistent.free_total {v : Volume} (hv : BlockGeom v) {s : Fs}
    (hs : BlockConsistent v s) :
    s.freeBlocksCount.toNat =
      Nat.count (fun n => bbit v s (n / v.blocksPerGroup) (n % v.blocksPerGroup) = false)
        (v.groupsCount * v.blocksPerGroup) := by
  rw [hs.free_sum, ← sum_count_groups]
  refine Finset.sum_congr rfl fun g hg => ?_
  rw [hs.free_count g (Finset.mem_range.mp hg)]
  refine count_congr fun i hi => ?_
  rw [Nat.mul_comm, Nat.mul_add_div hv.bpg_pos, Nat.div_eq_of_lt hi, Nat.mul_add_mod,
    Nat.mod_eq_of_lt hi, Nat.add_zero]

/-- The global counter stays below `s_blocks_count`. -/
theorem BlockConsistent.free_lt {v : Volume} (hv : BlockGeom v) {s : Fs}
    (hs : BlockConsistent v s) {g i : Nat} (hi : i < v.blocksPerGroup)
    (hset : bbit v s g i = true) (hhi : blockOf v g i < v.blocksCount) :
    s.freeBlocksCount.toNat < v.blocksCount := by
  rw [hs.free_total hv]
  have hpos := hv.bpg_pos
  have hdm : (g * v.blocksPerGroup + i) / v.blocksPerGroup = g ∧
      (g * v.blocksPerGroup + i) % v.blocksPerGroup = i := by
    rw [Nat.mul_comm, Nat.mul_add_div hpos, Nat.div_eq_of_lt hi, Nat.mul_add_mod,
      Nat.mod_eq_of_lt hi]
    exact ⟨rfl, rfl⟩
  refine Bits.count_lt (i := g * v.blocksPerGroup + i) ?_ ?_ fun n hn hclear => ?_
  · unfold blockOf at hhi
    omega
  · rw [hdm.1, hdm.2, hset]
    simp
  · have hg : n / v.blocksPerGroup < v.groupsCount :=
      Nat.div_lt_of_lt_mul (by rw [Nat.mul_comm]; exact hn)
    obtain ⟨-, hlt, -⟩ := hs.dataBlock hg (Nat.mod_lt n hpos) hclear
    have hn := Nat.div_add_mod n v.blocksPerGroup
    rw [Nat.mul_comm] at hn
    unfold blockOf at hlt
    omega

/-! ## Marking and unmarking one block -/

/-- The state in which the bit of one block is set and the counters follow. -/
def markBlock (v : Volume) (s : Fs) (g i : Nat) : Fs :=
  { s with
    blk := Function.update s.blk (v.blockBitmap g) (setBitAt v.beCpu (s.blk (v.blockBitmap g)) i)
    dirtyBlk := Function.update s.dirtyBlk (v.blockBitmap g) true
    gd := Function.update s.gd g
      { s.gd g with freeBlocksCount := (s.gd g).freeBlocksCount - 1 }
    freeBlocksCount := s.freeBlocksCount - 1 }

/-- The state in which the bit of one block is cleared, the counters follow, and
the block's own buffer is gone. -/
def unmarkBlock (v : Volume) (env : Env) (s : Fs) (g i : Nat) : Fs :=
  { s with
    blk := Function.update
      (Function.update s.blk (v.blockBitmap g) (clearBitAt v.beCpu (s.blk (v.blockBitmap g)) i))
      (blockOf v g i) (env.stale (blockOf v g i))
    dirtyBlk := Function.update (Function.update s.dirtyBlk (v.blockBitmap g) true)
      (blockOf v g i) false
    gd := Function.update s.gd g
      { s.gd g with freeBlocksCount := (s.gd g).freeBlocksCount + 1 }
    freeBlocksCount := s.freeBlocksCount + 1 }

theorem bbit_markBlock {v : Volume} (hv : BlockGeom v) {s : Fs} {g i : Nat}
    (hg : g < v.groupsCount) {h j : Nat} (hh : h < v.groupsCount) :
    bbit v (markBlock v s g i) h j = if g = h ∧ i = j then true else bbit v s h j := by
  unfold bbit markBlock
  by_cases hgh : g = h
  · subst hgh
    by_cases hij : i = j
    · simp [hij, bitAt_setBitAt]
    · simp [hij, bitAt_setBitAt]
  · have hne : v.blockBitmap h ≠ v.blockBitmap g := fun he => hgh (hv.block_bitmap_inj h g hh hg he).symm
    simp [hgh, Function.update_of_ne hne]

theorem bbit_unmarkBlock {v : Volume} (hv : BlockGeom v) {env : Env} {s : Fs} {g i : Nat}
    (hg : g < v.groupsCount) (hsys : ¬ SystemBlock v (blockOf v g i)) {h j : Nat}
    (hh : h < v.groupsCount) :
    bbit v (unmarkBlock v env s g i) h j = if g = h ∧ i = j then false else bbit v s h j := by
  have hblock : v.blockBitmap h ≠ blockOf v g i := fun he => hsys (.inr ⟨h, hh, .inl he.symm⟩)
  unfold bbit unmarkBlock
  simp only [Function.update_of_ne hblock]
  by_cases hgh : g = h
  · subst hgh
    by_cases hij : i = j
    · simp [hij, bitAt_clearBitAt]
    · simp [hij, bitAt_clearBitAt]
  · have hne : v.blockBitmap h ≠ v.blockBitmap g := fun he => hgh (hv.block_bitmap_inj h g hh hg he).symm
    simp [hgh, Function.update_of_ne hne]

/-- A change of one bit, as a change of the bit of one block. -/
theorem onlyBlockBit_of_bit {v : Volume} {s s' : Fs} {g i : Nat} {x : Bool}
    (hi : i < v.blocksPerGroup)
    (h : ∀ k j, k < v.groupsCount → bbit v s' k j = if g = k ∧ i = j then x else bbit v s k j) :
    OnlyBlockBit v s s' (blockOf v g i) x := by
  intro k j hk hj
  rw [h k j hk]
  by_cases hsame : g = k ∧ i = j
  · rw [if_pos hsame, if_pos (by rw [hsame.1, hsame.2])]
  · rw [if_neg hsame, if_neg fun he => hsame ?_]
    obtain ⟨h1, h2⟩ := blockOf_inj hj hi he
    exact ⟨h1.symm, h2.symm⟩

theorem OnlyBlockBit.free_of_set {v : Volume} {s s' : Fs} {b : Nat}
    (h : OnlyBlockBit v s s' b true) (c : Nat) : BlockFree v s' c ↔ BlockFree v s c ∧ c ≠ b := by
  constructor
  · intro ⟨g, i, hg, hi, hc, hclear⟩
    rw [h g i hg hi] at hclear
    split at hclear
    · cases hclear
    next hne => exact ⟨⟨g, i, hg, hi, hc, hclear⟩, hc ▸ hne⟩
  · intro ⟨⟨g, i, hg, hi, hc, hclear⟩, hne⟩
    refine ⟨g, i, hg, hi, hc, ?_⟩
    rw [h g i hg hi, if_neg (hc ▸ hne)]
    exact hclear

theorem OnlyBlockBit.free_of_clear {v : Volume} {s s' : Fs} {b : Nat}
    (h : OnlyBlockBit v s s' b false) (hb : BlockUsed v s b) (c : Nat) :
    BlockFree v s' c ↔ BlockFree v s c ∨ c = b := by
  constructor
  · intro ⟨g, i, hg, hi, hc, hclear⟩
    rw [h g i hg hi] at hclear
    split at hclear
    next heq => exact .inr (hc.trans heq)
    · exact .inl ⟨g, i, hg, hi, hc, hclear⟩
  · intro hc
    have hgi : ∃ g i, g < v.groupsCount ∧ i < v.blocksPerGroup ∧ c = blockOf v g i ∧
        (bbit v s g i = false ∨ blockOf v g i = b) := by
      rcases hc with ⟨g, i, hg, hi, hc, hclear⟩ | rfl
      · exact ⟨g, i, hg, hi, hc, .inl hclear⟩
      · obtain ⟨g, i, hg, hi, hc, -⟩ := hb
        exact ⟨g, i, hg, hi, hc, .inr hc.symm⟩
    obtain ⟨g, i, hg, hi, hc, hbit⟩ := hgi
    refine ⟨g, i, hg, hi, hc, ?_⟩
    rw [h g i hg hi]
    split
    · rfl
    next hne => exact hbit.resolve_right hne

/-- Marking a free block keeps the state consistent. -/
theorem markBlock_consistent {v : Volume} (hv : BlockGeom v) {s : Fs} (hs : BlockConsistent v s)
    {g i : Nat} (hg : g < v.groupsCount) (hi : i < v.blocksPerGroup)
    (hclear : bbit v s g i = false) : BlockConsistent v (markBlock v s g i) := by
  have hfree := hs.gd_ne_zero hg hi hclear
  have hgd : ∀ h, h ≠ g → (markBlock v s g i).gd h = s.gd h :=
    fun h hne => Function.update_of_ne hne _ _
  have hgdg : ((markBlock v s g i).gd g).freeBlocksCount = (s.gd g).freeBlocksCount - 1 := by
    simp [markBlock]
  have hcount : Nat.count (fun j => bbit v s g j = false) v.blocksPerGroup =
      Nat.count (fun j => bbit v (markBlock v s g i) g j = false) v.blocksPerGroup + 1 := by
    refine count_withdraw hi hclear ?_ fun j hj hne => ?_
    · rw [bbit_markBlock hv hg hg]
      simp
    · rw [bbit_markBlock hv hg hg, if_neg fun he => hne he.2.symm]
  have hsum : ∑ h ∈ Finset.range v.groupsCount, (s.gd h).freeBlocksCount.toNat =
      ∑ h ∈ Finset.range v.groupsCount, ((markBlock v s g i).gd h).freeBlocksCount.toNat + 1 := by
    refine sum_withdraw hg ?_ fun j _ hne => by rw [hgd j hne]
    rw [hgdg]
    exact (toNat_pred16 hfree).symm
  -- only the counters of group `g` and of the volume change, each by the one bit
  constructor
  · intro h hh
    by_cases hgh : h = g
    · subst hgh
      have hc := hs.free_count h hh
      have hp := toNat_pred16 hfree
      rw [hgdg]
      omega
    · rw [hgd h hgh, hs.free_count h hh]
      refine (count_congr fun j hj => ?_).symm
      rw [bbit_markBlock hv hg hh, if_neg fun he => hgh he.1.symm]
  · have hf := hs.free_sum
    have hne : s.freeBlocksCount ≠ 0 := fun h0 => by
      rw [hsum, h0] at hf
      exact absurd hf (by simp)
    have hp := toNat_pred32 hne
    show (s.freeBlocksCount - 1).toNat = _
    omega
  · -- the bits that must be set stay set
    intro h hh j hj hsys
    rw [bbit_markBlock hv hg hh]
    split
    · rfl
    · exact hs.system h hh j hj hsys
  · intro h hh j hj hpast
    rw [bbit_markBlock hv hg hh]
    split
    · rfl
    · exact hs.past h hh j hj hpast

/-- Unmarking a marked data block keeps the state consistent. -/
theorem unmarkBlock_consistent {v : Volume} (hv : BlockGeom v) {env : Env} {s : Fs}
    (hs : BlockConsistent v s) {g i : Nat} (hg : g < v.groupsCount) (hi : i < v.blocksPerGroup)
    (hset : bbit v s g i = true) (hdata : DataBlock v (blockOf v g i)) :
    BlockConsistent v (unmarkBlock v env s g i) := by
  obtain ⟨-, hhi, hnsys⟩ := hdata
  have hgd : ∀ h, h ≠ g → (unmarkBlock v env s g i).gd h = s.gd h :=
    fun h hne => Function.update_of_ne hne _ _
  have hgdg : ((unmarkBlock v env s g i).gd g).freeBlocksCount = (s.gd g).freeBlocksCount + 1 := by
    simp [unmarkBlock]
  have hlt := hs.count_lt hg hi hset
  have hup : ((s.gd g).freeBlocksCount + 1).toNat = (s.gd g).freeBlocksCount.toNat + 1 :=
    toNat_succ16 (by have := hv.bpg_lt; omega)
  have hcount : Nat.count (fun j => bbit v (unmarkBlock v env s g i) g j = false)
      v.blocksPerGroup = Nat.count (fun j => bbit v s g j = false) v.blocksPerGroup + 1 := by
    refine count_withdraw hi ?_ (by simp [hset]) fun j hj hne => ?_
    · rw [bbit_unmarkBlock hv hg hnsys hg, if_pos ⟨rfl, rfl⟩]
    · rw [bbit_unmarkBlock hv hg hnsys hg, if_neg fun he => hne he.2.symm]
  have hsum : ∑ h ∈ Finset.range v.groupsCount,
      ((unmarkBlock v env s g i).gd h).freeBlocksCount.toNat =
      ∑ h ∈ Finset.range v.groupsCount, (s.gd h).freeBlocksCount.toNat + 1 := by
    refine sum_withdraw hg ?_ fun j _ hne => by rw [hgd j hne]
    rw [hgdg, hup]
  -- the counters go up by one, which neither passes its width
  constructor
  · intro h hh
    by_cases hgh : h = g
    · subst hgh
      rw [hgdg, hup, hs.free_count h hh, hcount]
    · rw [hgd h hgh, hs.free_count h hh]
      refine (count_congr fun j hj => ?_).symm
      rw [bbit_unmarkBlock hv hg hnsys hh, if_neg fun he => hgh he.1.symm]
  · have hf := hs.free_sum
    have htotal := hs.free_lt hv hi hset hhi
    have hb := hv.blocks_lt
    show (s.freeBlocksCount + 1).toNat = _
    rw [toNat_succ32 (by omega), hsum, hf]
  · -- the bit cleared is that of a data block
    intro h hh j hj hsys
    rw [bbit_unmarkBlock hv hg hnsys hh, if_neg]
    · exact hs.system h hh j hj hsys
    · rintro ⟨rfl, rfl⟩
      exact hnsys hsys
  · intro h hh j hj hpast
    rw [bbit_unmarkBlock hv hg hnsys hh, if_neg]
    · exact hs.past h hh j hj hpast
    · rintro ⟨rfl, rfl⟩
      omega

/-! ## What the two functions do -/

/-- Blocks that can hold data pass the check. -/
theorem checkBlockNumber_ok {v : Volume} {g b : Nat} (hg : g < v.groupsCount)
    (hb : DataBlock v b) : checkBlockNumber v g b = .ok () := by
  obtain ⟨-, hhi, hsys⟩ := hb
  unfold checkBlockNumber
  rw [if_neg, if_neg (by omega)]
  rintro (he | he | ⟨hlo, hlt⟩)
  · exact hsys (.inr ⟨g, hg, .inr (.inl he)⟩)
  · exact hsys (.inr ⟨g, hg, .inl he⟩)
  · exact hsys (.inr ⟨g, hg, .inr (.inr ⟨hlo, Nat.lt_of_lt_of_le hlt (Nat.mod_le _ _)⟩)⟩)

/-- The loop stops at the first group with a free block, or finds none in the
groups it still has to visit. -/
theorem allocBlockLoop_spec {v : Volume} (hv : BlockGeom v) {s : Fs} (hs : BlockConsistent v s) :
    ∀ (n i word : Nat),
      (allocBlockLoop v s n i word = .ok (s, noBlock) ∧
        ∀ k, i ≤ k → k < i + n → (s.gd (k % v.groupsCount)).freeBlocksCount = 0) ∨
      ∃ k j, (i ≤ k ∧ k < i + n ∧
          ∀ l, i ≤ l → l < k → (s.gd (l % v.groupsCount)).freeBlocksCount = 0) ∧
        j < v.blocksPerGroup ∧ bbit v s (k % v.groupsCount) j = false ∧
        allocBlockLoop v s n i word =
          .ok (markBlock v s (k % v.groupsCount) j, blockOf v (k % v.groupsCount) j) := by
  intro n
  induction n with
  | zero => exact fun i _ => .inl ⟨rfl, fun k h1 h2 => absurd h2 (by omega)⟩
  | succ n ih =>
    intro i word
    have hg : i % v.groupsCount < v.groupsCount := Nat.mod_lt _ (groupsCount_pos hv)
    rw [allocBlockLoop]
    simp only
    rw [if_neg (by omega)]
    by_cases h0 : (s.gd (i % v.groupsCount)).freeBlocksCount = 0
    · rw [if_pos h0]
      rcases ih (i + 1) 0 with ⟨hrun, hnone⟩ | ⟨k, j, ⟨hlo, hhi, hbefore⟩, hfound⟩
      · refine .inl ⟨hrun, fun k h1 h2 => ?_⟩
        rcases Nat.eq_or_lt_of_le h1 with rfl | hlt
        · exact h0
        · exact hnone k hlt (by omega)
      · refine .inr ⟨k, j, ⟨by omega, by omega, fun l h1 h2 => ?_⟩, hfound⟩
        rcases Nat.eq_or_lt_of_le h1 with rfl | hlt
        · exact h0
        · exact hbefore l hlt h2
    · rw [if_neg h0]
      have hsize := bitmap_words_le hv.log_le hv.bpg_le
      obtain ⟨r, hr, hres⟩ := allocBit_spec v.beCpu
        (s.blk (v.blockBitmap (i % v.groupsCount))) 0 hsize
      rw [hr]
      cases hres with
      | found j hlo hj hclear hfirst =>
        have hdata := hs.dataBlock hg hj hclear
        have hmod : (v.firstDataBlock + i % v.groupsCount * v.blocksPerGroup + j) % 2 ^ 32 =
            blockOf v (i % v.groupsCount) j :=
          Nat.mod_eq_of_lt (Nat.lt_trans hdata.2.1 hv.blocks_lt)
        refine .inr ⟨i, j, ⟨Nat.le_refl i, by omega, fun l h1 h2 => absurd h2 (by omega)⟩, hj,
          hclear, ?_⟩
        simp only [bind, Except.bind, hmod, checkBlockNumber_ok hg hdata]
        rfl
      | full hset =>
        -- a group whose bitmap is full has free count 0
        refine absurd (UInt16.toNat_inj.mp ((hs.free_count _ hg).trans ?_)) h0
        show Nat.count _ _ = 0
        rw [Nat.count_iff_forall_not]
        intro j hj
        simp [bbit, hset j (by omega) hj]

/-- `alloc_block` marks a free block of the first group that has one, or there is none. -/
theorem allocBlock_first {v : Volume} (hv : BlockGeom v) {s : Fs} (hs : BlockConsistent v s)
    (env : Env) (ino goal : Nat) :
    (allocBlock v env s ino goal = .ok (s, noBlock) ∧
      ∀ g i, g < v.groupsCount → i < v.blocksPerGroup → bbit v s g i = true) ∨
    ∃ g i, g < v.groupsCount ∧ i < v.blocksPerGroup ∧ bbit v s g i = false ∧
      (∀ h, h < g → (s.gd h).freeBlocksCount = 0) ∧
      allocBlock v env s ino goal = .ok (markBlock v s g i, blockOf v g i) := by
  have hfull : (∀ g, g < v.groupsCount → (s.gd g).freeBlocksCount = 0) →
      ∀ g i, g < v.groupsCount → i < v.blocksPerGroup → bbit v s g i = true := by
    intro hzero g i hg hi
    by_contra hclear
    exact hs.gd_ne_zero hg hi (by simpa using hclear) (hzero g hg)
  have hpos : 0 < v.groupsCount := groupsCount_pos hv
  unfold allocBlock
  by_cases h0 : s.freeBlocksCount = 0
  · rw [if_pos h0]
    refine .inl ⟨rfl, hfull fun g hg => ?_⟩
    -- no group counts a free block where the volume counts none
    have hsum := hs.free_sum
    rw [h0] at hsum
    have hz := (Finset.sum_eq_zero_iff.mp hsum.symm) g (Finset.mem_range.mpr hg)
    exact UInt16.toNat_inj.mp hz
  · rw [if_neg h0]
    rcases allocBlockLoop_spec hv hs (v.groupsCount + 1) 0
      ((allocGoal v env ino goal + 2 ^ 32 - v.firstDataBlock) % 2 ^ 32 % v.blocksPerGroup / 32)
      with ⟨hrun, hnone⟩ | ⟨k, i, ⟨-, hk, hbefore⟩, hi, hclear, hrun⟩
    · refine .inl ⟨hrun, hfull fun g hg => ?_⟩
      have hz := hnone g (by omega) (by omega)
      rwa [Nat.mod_eq_of_lt hg] at hz
    · have hgd := hs.gd_ne_zero (Nat.mod_lt k hpos) hi hclear
      have hlt : k < v.groupsCount := by
        -- the turn that comes back to group 0 has seen it before
        by_contra hge
        obtain rfl : k = v.groupsCount := by omega
        refine hgd ?_
        rw [Nat.mod_self, ← Nat.zero_mod v.groupsCount]
        exact hbefore 0 (Nat.le_refl 0) hpos
      rw [Nat.mod_eq_of_lt hlt] at hclear hrun
      refine .inr ⟨k, i, hlt, hi, hclear, fun h hh => ?_, hrun⟩
      rw [← Nat.mod_eq_of_lt (Nat.lt_trans hh hlt)]
      exact hbefore h (Nat.zero_le h) hh

/-- `alloc_block` marks a free block and returns it, or there is none and it
returns `NO_BLOCK`. -/
theorem allocBlock_spec {v : Volume} (hv : BlockGeom v) {s : Fs} (hs : BlockConsistent v s)
    (env : Env) (ino goal : Nat) :
    (allocBlock v env s ino goal = .ok (s, noBlock) ∧
      ∀ g i, g < v.groupsCount → i < v.blocksPerGroup → bbit v s g i = true) ∨
    ∃ g i, g < v.groupsCount ∧ i < v.blocksPerGroup ∧ bbit v s g i = false ∧
      DataBlock v (blockOf v g i) ∧
      allocBlock v env s ino goal = .ok (markBlock v s g i, blockOf v g i) := by
  rcases allocBlock_first hv hs env ino goal with hnone | ⟨g, i, hg, hi, hclear, -, hrun⟩
  · exact .inl hnone
  · exact .inr ⟨g, i, hg, hi, hclear, hs.dataBlock hg hi hclear, hrun⟩

/-- `free_block` unmarks a marked data block. -/
theorem freeBlock_spec {v : Volume} (hv : BlockGeom v) {s : Fs} {env : Env} {g i : Nat}
    (hg : g < v.groupsCount) (hi : i < v.blocksPerGroup) (hset : bbit v s g i = true)
    (hdata : DataBlock v (blockOf v g i)) :
    freeBlock v env s (blockOf v g i) = .ok (unmarkBlock v env s g i) := by
  have hcheck := checkBlockNumber_ok hg hdata
  obtain ⟨hlo, hhi, -⟩ := hdata
  obtain ⟨hdiv, hmod⟩ := blockOf_div_mod (v := v) (g := g) hi
  have hsize : 4 * (i / 32) + 4 ≤ v.blockSize := by
    have hle := bitmap_words_le hv.log_le hv.bpg_le
    omega
  unfold freeBlock
  rw [if_neg (by omega)]
  simp only [hdiv, hmod]
  rw [if_neg (by omega), hcheck, clearBit_of_set hsize hset]
  rfl

/-! ## Sequences of calls -/

/-- A call of one of the two functions, with what it is given from outside. -/
inductive BlockOp where
  | alloc (env : Env) (ino goal : Nat)
  | free (env : Env) (block : Nat)

/-- What a sequence of calls does, `held` being the blocks handed out and not yet
released. An allocation returns `NO_BLOCK` exactly when no bit is clear, and
then changes nothing; otherwise it returns a data block whose bit was clear,
and changes that bit only. A release of a held block clears its bit only. No
call ends in a panic, and every state passed is consistent. -/
def BlockRunOk (v : Volume) : Fs → List Nat → List BlockOp → Prop
  | s, _, [] => BlockConsistent v s
  | s, held, .alloc env ino goal :: ops =>
    BlockConsistent v s ∧
      ∃ s' b, allocBlock v env s ino goal = .ok (s', b) ∧
        (b = noBlock ↔ ∀ c, ¬ BlockFree v s c) ∧
        (b = noBlock → s' = s) ∧
        (b ≠ noBlock → DataBlock v b ∧ BlockFree v s b ∧ OnlyBlockBit v s s' b true) ∧
        BlockRunOk v s' (if b = noBlock then held else b :: held) ops
  | s, held, .free env b :: ops =>
    BlockConsistent v s ∧
      (b ∈ held →
        ∃ s', freeBlock v env s b = .ok s' ∧ OnlyBlockBit v s s' b false ∧
          BlockRunOk v s' (held.erase b) ops)

/-- What is known of the blocks handed out. -/
structure Held (v : Volume) (s : Fs) (held : List Nat) : Prop where
  nodup : held.Nodup
  data : ∀ b ∈ held, DataBlock v b
  used : ∀ b ∈ held, BlockUsed v s b

theorem blockRun_of_held {v : Volume} (hv : BlockGeom v) :
    ∀ (ops : List BlockOp) (s : Fs) (held : List Nat),
      BlockConsistent v s → Held v s held → BlockRunOk v s held ops := by
  intro ops
  -- the blocks handed out and not given back carry the induction
  induction ops with
  | nil => exact fun s _ hs _ => hs
  | cons op ops ih =>
    intro s held hs hheld
    cases op with
    | alloc env ino goal =>
      refine ⟨hs, ?_⟩
      rcases allocBlock_spec hv hs env ino goal with
        ⟨hrun, hfull⟩ | ⟨g, i, hg, hi, hclear, hdata, hrun⟩
      · -- no block is free: the state is the same
        refine ⟨s, noBlock, hrun, ⟨fun _ c hc => ?_, fun _ => rfl⟩, fun _ => rfl,
          fun h => absurd rfl h, ih s held hs hheld⟩
        obtain ⟨g, i, hg, hi, -, hclear⟩ := hc
        rw [hfull g i hg hi] at hclear
        cases hclear
      · -- the block was free, so it is none of those that are held
        have hfree : BlockFree v s (blockOf v g i) := ⟨g, i, hg, hi, rfl, hclear⟩
        refine ⟨_, _, hrun, ⟨fun h => absurd h hdata.ne_noBlock, fun h => absurd hfree (h _)⟩,
          fun h => absurd h hdata.ne_noBlock, fun _ => ⟨hdata, hfree, onlyBlockBit_of_bit hi
            fun k j hk => bbit_markBlock hv hg hk⟩, ?_⟩
        rw [if_neg hdata.ne_noBlock]
        refine ih _ _ (markBlock_consistent hv hs hg hi hclear) ⟨?_, ?_, ?_⟩
        · exact List.nodup_cons.mpr ⟨fun hmem => (hheld.used _ hmem).not_free hfree, hheld.nodup⟩
        · exact List.forall_mem_cons.mpr ⟨hdata, hheld.data⟩
        · refine List.forall_mem_cons.mpr ⟨⟨g, i, hg, hi, rfl, ?_⟩, fun b hb => ?_⟩
          · rw [bbit_markBlock hv hg hg, if_pos ⟨rfl, rfl⟩]
          · obtain ⟨h, j, hh, hj, hbj, hset⟩ := hheld.used b hb
            refine ⟨h, j, hh, hj, hbj, ?_⟩
            rw [bbit_markBlock hv hg hh, hset, ite_self]
    | free env b =>
      refine ⟨hs, fun hmem => ?_⟩
      obtain ⟨g, i, hg, hi, rfl, hset⟩ := hheld.used b hmem
      have hdata := hheld.data _ hmem
      refine ⟨_, freeBlock_spec hv hg hi hset hdata, onlyBlockBit_of_bit hi
        fun k j hk => bbit_unmarkBlock hv hg hdata.2.2 hk, ?_⟩
      refine ih _ _ (unmarkBlock_consistent hv hs hg hi hset hdata) ⟨?_, ?_, ?_⟩
      · exact hheld.nodup.erase _
      · exact fun c hc => hheld.data c (List.mem_of_mem_erase hc)
      · intro c hc
        -- those still held keep their bits
        obtain ⟨hne, hc⟩ := (List.Nodup.mem_erase_iff hheld.nodup).mp hc
        obtain ⟨h, j, hh, hj, rfl, hset'⟩ := hheld.used c hc
        refine ⟨h, j, hh, hj, rfl, ?_⟩
        rw [bbit_unmarkBlock hv hg hdata.2.2 hh, if_neg, hset']
        rintro ⟨rfl, rfl⟩
        exact hne rfl

/-- Over every sequence of calls on a consistent state that releases only blocks
handed out before, the block allocator does what it should. -/
theorem blockRun_ok {v : Volume} (hv : BlockGeom v) {s : Fs} (hs : BlockConsistent v s)
    (ops : List BlockOp) : BlockRunOk v s [] ops :=
  blockRun_of_held hv ops s [] hs ⟨List.nodup_nil, by simp, by simp⟩

/-! ## The small volume -/

theorem sampleVolume_blockGeom : BlockGeom sampleVolume where
  log_le := by decide
  bpg_pos := by decide
  bpg_le := by decide
  bpg_lt := by decide
  first_lt := by decide
  blocks_lt := by decide
  block_bitmap_inj := by
    intro g h hg hh _
    have hone : sampleVolume.groupsCount = 1 := by decide
    omega

theorem sampleFs_blockConsistent : BlockConsistent sampleVolume sampleFs where
  free_count := by decide
  free_sum := by decide
  system := by decide
  past := by decide

/-- `blockRun_ok` at the small volume: take a block, give it back, take one again. -/
theorem blockRun_ok_sample :
    BlockRunOk sampleVolume sampleFs []
      [.alloc sampleEnv 2 0, .free sampleEnv 10, .alloc sampleEnv 2 0] :=
  blockRun_ok sampleVolume_blockGeom sampleFs_blockConsistent _

end Cheviot.Ext2
