import Cheviot.Lib.Forest
import Cheviot.Ext2.InodeCache

/-!
# The block map: `read_map_entry`, `enter_map_entry`, `new_block`

The fifteen entries of `i_block` are the roots of a forest: twelve hold data
blocks, the other three an indirect, a double and a triple indirect block. A
byte position is turned into an entry and a path of indices below it
(`calcBlockIndirectionOffsets`); positions of different blocks have different
paths (`calc_spec`).

* `FilesOk` — over the inodes of a set: no block is reachable from two places,
  every block reachable is a data block marked as used, and the block bitmaps
  are consistent.
* `SlotStep` — what a step on behalf of one inode leaves alone.
* `Replacing.interior`, `Replacing.top` — a block put into an entry, of an indirect
  block or of `i_block`, turns up at the place of that entry and nowhere else
  (`Replaced`).

Mirroring notes:
- `offs[0]` is only used at depth 0; below an indirect block the source goes by
  `depth`, which is the length of the path here.
- `get_block` never fails (`BLK_READ` waits for the disk), so the null checks on
  its result have no counterpart.
- In `enter_map_entry` the buffer of the parent is the one `BLK_READ` returned
  before the new block was allocated; the two are different blocks.
-/

namespace Cheviot.Ext2

open Cheviot.Bytes Cheviot.Bits Cheviot.Forest

/-! ## The functions -/

/-- `EXT2_IND_BLOCK`, `EXT2_DIND_BLOCK`, `EXT2_TIND_BLOCK`. -/
def indBlock : Fin 15 := 12
def dindBlock : Fin 15 := 13
def tindBlock : Fin 15 := 14

/-- The cases of `calc_block_indirection_offsets`, for block `block_pos` of a file. -/
def indirectionOffsets (v : Volume) (blockPos : Nat) : Option (Fin 15 × List Nat) :=
  if outRangeS ≤ blockPos then none
  else if h : blockPos < ndirBlocks then some (⟨blockPos, Nat.lt_trans h (by decide)⟩, [])
  else if blockPos < v.doubIndS then some (indBlock, [blockPos - ndirBlocks])
  else if blockPos < v.tripleIndS then
    let rel := blockPos - v.doubIndS
    some (dindBlock, [rel / v.addrInBlock, rel % v.addrInBlock])
  else
    let rel := blockPos - v.tripleIndS
    some (tindBlock, [rel / v.addrInBlock2, rel % v.addrInBlock2 / v.addrInBlock,
      rel % v.addrInBlock2 % v.addrInBlock])

/-- `calc_block_indirection_offsets`: the entry of `i_block` and the indices below it. -/
def calcBlockIndirectionOffsets (v : Volume) (position : Nat) : Option (Fin 15 × List Nat) :=
  indirectionOffsets v (position % 2 ^ 32 / v.blockSize)

/-- `read_indirect_block_entry`. -/
def readIndirectBlockEntry (be : Bool) (b : Buf) (index : Nat) : Nat :=
  (bswap4 be (ld32 be b (4 * index))).toNat

/-- `write_indirect_block_entry`. -/
def writeIndirectBlockEntry (be : Bool) (b : Buf) (index block : Nat) : Buf :=
  st32 be b (4 * index) (bswap4 be (UInt32.ofNat block))

/-- `read_map_entry`: from the entry of `i_block` down the indirect blocks, until
one of them is `NO_BLOCK`. -/
def readMapEntry (v : Volume) (blk : Nat → Buf) (odi : OndiskInode) (position : Nat) : Nat :=
  match calcBlockIndirectionOffsets v position with
  | none => noBlock
  | some (k, path) =>
    follow (readIndirectBlockEntry v.beCpu) blk (odi.block k).toNat path

/-- `inode->odi.i_blocks += sb_sectors_in_block`. -/
def addSectors (v : Volume) (s : Fs) (i : Nat) : Fs :=
  s.modOdi i fun odi => { odi with blocks := odi.blocks + UInt32.ofNat v.sectorsInBlock }

/-- An entry of `i_block` set, as `set_toplevel_indirect_block_entry` does. -/
def setBlockEntry (s : Fs) (i : Nat) (k : Fin 15) (block : Nat) : Fs :=
  s.modOdi i fun odi => { odi with block := Function.update odi.block k (UInt32.ofNat block) }

/-- The descent of `enter_map_entry` from the indirect block `block`: blocks that
are missing on the path are added, and the last one gets the new entry. -/
def enterIndirect (v : Volume) (env : Env) (i newBlock : Nat) :
    Fs → Nat → List Nat → Except Fault (Fs × Except Errno Unit)
  | s, _, [] => .ok (s, .ok ())
  | s, block, [index] =>
    let s := s.writeBlk block (writeIndirectBlockEntry v.beCpu (s.blk block) index newBlock)
    .ok (addSectors v s i, .ok ())
  | s, block, index :: path => do
    let next := readIndirectBlockEntry v.beCpu (s.blk block) index
    if next = noBlock then
      let (s, next) ← allocBlock v env s (s.slot i).ino noBlock
      if next = noBlock then return (s, .error .enospc)
      let s := s.writeBlk next zeroed
      let s := s.writeBlk block (writeIndirectBlockEntry v.beCpu (s.blk block) index next)
      enterIndirect v env i newBlock (addSectors v s i) next path
    else enterIndirect v env i newBlock s next path

/-- `enter_map_entry`, on cache slot `i`. -/
def enterMapEntry (v : Volume) (env : Env) (s : Fs) (i position newBlock : Nat) :
    Except Fault (Fs × Except Errno Unit) :=
  match calcBlockIndirectionOffsets v position with
  | none => .ok (s, .error .einval)
  | some (k, path) => do
    let s := inodeMarkdirty s i
    if path = [] then return (addSectors v (setBlockEntry s i k newBlock) i, .ok ())
    let block := ((s.slot i).odi.block k).toNat
    if block = noBlock then
      let (s, block) ← allocBlock v env s (s.slot i).ino noBlock
      if block = noBlock then return (s, .error .enospc)
      let s := s.writeBlk block zeroed
      enterIndirect v env i newBlock (addSectors v (setBlockEntry s i k block) i) block path
    else enterIndirect v env i newBlock s block path

/-- `new_block`, on cache slot `i`: the block whose cleared buffer it returns, or
`none` for a null pointer. -/
def newBlock (v : Volume) (env : Env) (s : Fs) (i position : Nat) :
    Except Fault (Fs × Option Nat) := do
  let block := readMapEntry v s.blk (s.slot i).odi position
  if block = noBlock then
    let (s, block) ← allocBlock v env s (s.slot i).ino noBlock
    if block = noBlock then return (s, none)
    let (s, sc) ← enterMapEntry v env s i position block
    match sc with
    | .error _ => return (← freeBlock v env s block, none)
    | .ok _ => return (s.setBlk block zeroed, some block)
  else return (s.setBlk block zeroed, some block)

/-! ## Positions and paths -/

/-- How many levels of indirect blocks hang off an entry of `i_block`. -/
def levels (k : Fin 15) : Nat := k.val - 11

/-- The block maps of all inodes, as one forest: a root for each entry of each `i_block`. -/
def mapShape (v : Volume) : Shape (Nat × Fin 15) where
  depth r := levels r.2
  width := v.addrInBlock

/-- The number, within its file, of the block at the end of a path. -/
def blockPosOf (v : Volume) (k : Fin 15) : List Nat → Nat
  | [] => k
  | [a] => ndirBlocks + a
  | [a, b] => v.doubIndS + (a * v.addrInBlock + b)
  | [a, b, c] => v.tripleIndS + (a * v.addrInBlock2 + (b * v.addrInBlock + c))
  | _ => 0

/-- Every position has a path of full length, from which the number of its block
can be read back. -/
theorem calc_spec {v : Volume} (hlog : v.logBlockSize ≤ 5) {pos : Nat} (hpos : pos < 2 ^ 32) :
    ∃ k p, calcBlockIndirectionOffsets v pos = some (k, p) ∧ p.length = levels k ∧
      (∀ n, Place (mapShape v) (n, k) p) ∧ blockPosOf v k p = pos / v.blockSize := by
  obtain ⟨hlo, hhi, hmod⟩ := Volume.blockSize_bounds hlog
  have haddr : 256 ≤ v.addrInBlock := by
    unfold Volume.addrInBlock
    omega
  have haddr2 : v.addrInBlock * 256 ≤ v.addrInBlock2 := Nat.mul_le_mul_left _ haddr
  -- with 32 bits a position has a block that the triple indirect block reaches
  have hblk : pos / v.blockSize < 2 ^ 22 := by
    refine Nat.div_lt_of_lt_mul ?_
    have : 1024 * 2 ^ 22 ≤ v.blockSize * 2 ^ 22 := Nat.mul_le_mul_right _ hlo
    omega
  rw [calcBlockIndirectionOffsets, Nat.mod_eq_of_lt hpos]
  generalize pos / v.blockSize = bp at hblk
  unfold indirectionOffsets
  rw [if_neg (by unfold outRangeS; omega)]
  -- one case for each depth; the offsets are the digits of the block number
  by_cases h1 : bp < ndirBlocks
  · have h12 : bp < 12 := h1
    rw [dif_pos h1]
    refine ⟨_, _, rfl, ?_, fun n => ⟨Nat.zero_le _, by simp⟩, rfl⟩
    show 0 = bp - 11
    omega
  · rw [dif_neg h1]
    by_cases h2 : bp < v.doubIndS
    · rw [if_pos h2]
      unfold Volume.doubIndS at h2
      refine ⟨_, _, rfl, rfl, fun n => ⟨Nat.le_refl 1, ?_⟩, ?_⟩
      · intro a ha
        rw [List.mem_singleton.mp ha]
        show bp - ndirBlocks < v.addrInBlock
        omega
      · show ndirBlocks + (bp - ndirBlocks) = bp
        omega
    · rw [if_neg h2]
      by_cases h3 : bp < v.tripleIndS
      · rw [if_pos h3]
        unfold Volume.tripleIndS at h3
        have hlt : (bp - v.doubIndS) / v.addrInBlock < v.addrInBlock :=
          Nat.div_lt_of_lt_mul (by unfold Volume.addrInBlock2 at h3; omega)
        have hrem : (bp - v.doubIndS) % v.addrInBlock < v.addrInBlock := Nat.mod_lt _ (by omega)
        have hdm := Nat.div_add_mod' (bp - v.doubIndS) v.addrInBlock
        refine ⟨_, _, rfl, rfl, fun n => ⟨Nat.le_refl 2, ?_⟩, ?_⟩
        · intro a ha
          simp only [List.mem_cons, List.not_mem_nil, or_false] at ha
          rcases ha with rfl | rfl
          · exact hlt
          · exact hrem
        · show v.doubIndS + _ = bp
          omega
      · rw [if_neg h3]
        have hpos2 : 0 < v.addrInBlock2 := by omega
        have hd : (bp - v.tripleIndS) / v.addrInBlock2 < v.addrInBlock := by
          calc (bp - v.tripleIndS) / v.addrInBlock2
              ≤ (bp - v.tripleIndS) / 65536 := Nat.div_le_div_left (by omega) (by decide)
            _ < v.addrInBlock := by omega
        have hm : (bp - v.tripleIndS) % v.addrInBlock2 < v.addrInBlock2 := Nat.mod_lt _ hpos2
        have hdm := Nat.div_add_mod' (bp - v.tripleIndS) v.addrInBlock2
        have hdm2 := Nat.div_add_mod' ((bp - v.tripleIndS) % v.addrInBlock2) v.addrInBlock
        refine ⟨_, _, rfl, rfl, fun n => ⟨Nat.le_refl 3, ?_⟩, ?_⟩
        · intro a ha
          simp only [List.mem_cons, List.not_mem_nil, or_false] at ha
          rcases ha with rfl | rfl | rfl
          · exact hd
          · exact Nat.div_lt_of_lt_mul hm
          · exact Nat.mod_lt _ (by show 0 < v.addrInBlock; omega)
        · show v.tripleIndS + _ = bp
          omega

/-- Positions with the same path lie in the same block of the file. -/
theorem calc_inj {v : Volume} (hlog : v.logBlockSize ≤ 5) {pos pos' : Nat} (hpos : pos < 2 ^ 32)
    (hpos' : pos' < 2 ^ 32)
    (h : calcBlockIndirectionOffsets v pos = calcBlockIndirectionOffsets v pos') :
    pos / v.blockSize = pos' / v.blockSize := by
  obtain ⟨k, p, hcalc, -, -, hnum⟩ := calc_spec hlog hpos
  obtain ⟨k', p', hcalc', -, -, hnum'⟩ := calc_spec hlog hpos'
  rw [hcalc, hcalc', Option.some.injEq, Prod.mk.injEq] at h
  rw [← hnum, ← hnum', h.1, h.2]

/-- Positions in the same block of the file have the same path. -/
theorem calc_congr {v : Volume} {pos pos' : Nat} (hpos : pos < 2 ^ 32) (hpos' : pos' < 2 ^ 32)
    (h : pos / v.blockSize = pos' / v.blockSize) :
    calcBlockIndirectionOffsets v pos = calcBlockIndirectionOffsets v pos' := by
  rw [calcBlockIndirectionOffsets, calcBlockIndirectionOffsets, Nat.mod_eq_of_lt hpos,
    Nat.mod_eq_of_lt hpos', h]

/-! The depth and `offs` as the source returns them. -/

/-- What `calc_block_indirection_offsets` returns, with the entries of `offs` up to this depth. -/
def depthAndOffs (v : Volume) (position : UInt32) : Option (Nat × List Nat) :=
  (calcBlockIndirectionOffsets v position.toNat).map fun r => (r.2.length, r.1.val :: r.2)

/-- The block of a file that offsets lead to, `a` addresses to a block. -/
def layoutBlock (a depth : Nat) (offs : List Nat) : Nat :=
  match depth with
  | 0 => offs.getD 0 0
  | 1 => 12 + offs.getD 1 0
  | 2 => 12 + a + (offs.getD 1 0 * a + offs.getD 2 0)
  | _ => 12 + a + a * a + (offs.getD 1 0 * a + offs.getD 2 0) * a + offs.getD 3 0

/-- The path of a position is no longer than the indirect blocks there are. -/
theorem levels_le (k : Fin 15) : levels k ≤ 3 := by
  unfold levels
  omega

/-- The block of a path, as the layout of ext2 has it. -/
theorem layoutBlock_eq (v : Volume) {k : Fin 15} {p : List Nat} (hlen : p.length ≤ 3) :
    layoutBlock v.addrInBlock p.length (k.val :: p) = blockPosOf v k p := by
  match p, hlen with
  | [], _ => rfl
  | [a], _ => rfl
  | [a, b], _ => rfl
  | [a, b, c], _ =>
    show 12 + v.addrInBlock + v.addrInBlock * v.addrInBlock +
      (a * v.addrInBlock + b) * v.addrInBlock + c =
      12 + v.addrInBlock + v.addrInBlock * v.addrInBlock +
        (a * (v.addrInBlock * v.addrInBlock) + (b * v.addrInBlock + c))
    rw [Nat.add_mul, Nat.mul_assoc]
    omega

/-- Equal paths are equal depths and offsets. -/
theorem depthAndOffs_eq_iff {v : Volume} {pos pos' : UInt32} :
    depthAndOffs v pos = depthAndOffs v pos' ↔
      calcBlockIndirectionOffsets v pos.toNat = calcBlockIndirectionOffsets v pos'.toNat := by
  have hinj : Function.Injective fun r : Fin 15 × List Nat => (r.2.length, r.1.val :: r.2) := by
    intro r r' h
    simp only [Prod.mk.injEq, List.cons.injEq] at h
    exact Prod.ext (Fin.ext h.2.1) h.2.2
  exact (Option.map_injective hinj).eq_iff

theorem depthAndOffs_spec {v : Volume} (hlog : v.logBlockSize ≤ 5) (pos : UInt32) :
    ∃ depth offs, depthAndOffs v pos = some (depth, offs) ∧ depth ≤ 3 ∧
      offs.length = depth + 1 ∧ offs.getD 0 0 < 15 ∧
      (∀ i, 1 ≤ i → i ≤ depth → offs.getD i 0 < v.addrInBlock) ∧
      layoutBlock v.addrInBlock depth offs = pos.toNat / v.blockSize ∧
      ∀ pos' : UInt32, depthAndOffs v pos' = some (depth, offs) ↔
        pos'.toNat / v.blockSize = pos.toNat / v.blockSize := by
  obtain ⟨k, p, hcalc, hlen, hplace, hnum⟩ := calc_spec hlog pos.toNat_lt
  have h3 : p.length ≤ 3 := by
    rw [hlen]
    exact levels_le k
  have hoffs : depthAndOffs v pos = some (p.length, k.val :: p) := by
    rw [depthAndOffs, hcalc]
    rfl
  refine ⟨p.length, k.val :: p, hoffs, h3, rfl, k.isLt, fun i h1 hi => ?_, ?_, fun pos' => ?_⟩
  · obtain ⟨j, rfl⟩ : ∃ j, i = j + 1 := ⟨i - 1, by omega⟩
    have hj : j < p.length := by omega
    rw [List.getD_cons_succ, List.getD_eq_getElem?_getD, List.getElem?_eq_getElem hj]
    exact (hplace 0).2 _ (List.getElem_mem _)
  · rw [layoutBlock_eq v h3, hnum]
  · rw [← hoffs, depthAndOffs_eq_iff]
    exact ⟨calc_inj hlog pos'.toNat_lt pos.toNat_lt, calc_congr pos'.toNat_lt pos.toNat_lt⟩

/-- Byte 0xfffffc00 of a file on a volume with blocks of 1024 bytes. -/
theorem depthAndOffs_spec_sample : (sampleVolume.logBlockSize ≤ 5) ∧
    ∃ depth offs, depthAndOffs sampleVolume 0xfffffc00 = some (depth, offs) ∧ depth ≤ 3 :=
  have hlog : sampleVolume.logBlockSize ≤ 5 := by decide
  have ⟨depth, offs, h, h3, _⟩ := depthAndOffs_spec hlog 0xfffffc00
  ⟨hlog, depth, offs, h, h3⟩

/-! ## The maps of a set of inodes -/

/-- The roots of the forest: the entries of `i_block`. -/
def mapRoot (node : Nat → OndiskInode) (r : Nat × Fin 15) : Nat := ((node r.1).block r.2).toNat

/-- The block at a place of the map of inode `n`. -/
def mapAt (v : Volume) (node : Nat → OndiskInode) (blk : Nat → Buf) (n : Nat) (k : Fin 15)
    (p : List Nat) : Nat :=
  ptr (readIndirectBlockEntry v.beCpu) blk (mapRoot node) (n, k) p

/-- `mapAt` in a state of the handler. -/
def blockAt (v : Volume) (s : Fs) (n : Nat) (k : Fin 15) (p : List Nat) : Nat :=
  mapAt v (nodeAt v s) s.blk n k p

/-- A place that can hold a data block of a file. -/
def Leaf (v : Volume) (n : Nat) (k : Fin 15) (p : List Nat) : Prop :=
  Place (mapShape v) (n, k) p ∧ p.length = levels k

/-- No block is reachable from two places in the maps of the inodes of `live`,
and what is reachable are data blocks. -/
structure MapOk (v : Volume) (node : Nat → OndiskInode) (blk : Nat → Buf)
    (live : Nat → Prop) : Prop where
  unshared : Unshared (mapShape v) (fun r => live r.1) (readIndirectBlockEntry v.beCpu) blk
    (mapRoot node)
  data : ∀ n, live n → ∀ k p, Place (mapShape v) (n, k) p → mapAt v node blk n k p ≠ 0 →
    DataBlock v (mapAt v node blk n k p)

/-- The files of the inodes of `live` are in order, and so is the block allocator. -/
structure FilesOk (v : Volume) (s : Fs) (live : Nat → Prop) : Prop where
  on_volume : ∀ n, live n → OnVolume v n
  blocks : BlockConsistent v s
  map : MapOk v (nodeAt v s) s.blk live
  used : ∀ n, live n → ∀ k p, Place (mapShape v) (n, k) p → blockAt v s n k p ≠ 0 →
    BlockUsed v s (blockAt v s n k p)

/-- A data block that is marked as used and in no file. -/
structure Fresh (v : Volume) (s : Fs) (live : Nat → Prop) (b : Nat) : Prop where
  data : DataBlock v b
  used : BlockUsed v s b
  not_mapped : ∀ n, live n → ∀ k p, Place (mapShape v) (n, k) p → blockAt v s n k p ≠ b

/-- Cache slot `i` holds inode `n`, and is where the bucket search finds it. -/
def Found (s : Fs) (n i : Nat) : Prop := searchBucket s (n % inodeHashSize) n = some i

theorem Found.ino {s : Fs} {n i : Nat} (h : Found s n i) : (s.slot i).ino = n := by
  simpa using List.find?_some h

/-- What a step on behalf of the inode in slot `i` leaves alone: everything but
the map of that inode, the data blocks, the block bitmaps and their counters. -/
structure SlotStep (v : Volume) (i : Nat) (s s' : Fs) : Prop where
  hash : s'.hash = s.hash
  unused : s'.unused = s.unused
  slot : ∀ j, j ≠ i → s'.slot j = s.slot j
  ino : (s'.slot i).ino = (s.slot i).ino
  count : (s'.slot i).count = (s.slot i).count
  kept : ∃ block blocks, (s'.slot i).odi = { (s.slot i).odi with block := block, blocks := blocks }
  system : ∀ b, SystemBlock v b → (∀ g, g < v.groupsCount → v.blockBitmap g ≠ b) →
    s'.blk b = s.blk b
  inodes : s'.freeInodesCount = s.freeInodesCount ∧ s'.dirsCounter = s.dirsCounter ∧
    ∀ g, (s'.gd g).freeInodesCount = (s.gd g).freeInodesCount ∧
      (s'.gd g).usedDirsCount = (s.gd g).usedDirsCount

section Maps

variable {v : Volume} {live : Nat → Prop} {n i : Nat} {s s' s'' : Fs}

theorem SlotStep.refl (v : Volume) (i : Nat) (s : Fs) : SlotStep v i s s :=
  ⟨rfl, rfl, fun _ _ => rfl, rfl, rfl, ⟨_, _, rfl⟩, fun _ _ _ => rfl,
    rfl, rfl, fun _ => ⟨rfl, rfl⟩⟩

theorem SlotStep.trans (h : SlotStep v i s s') (h' : SlotStep v i s' s'') :
    SlotStep v i s s'' := by
  obtain ⟨block, blocks, hodi⟩ := h.kept
  obtain ⟨block', blocks', hodi'⟩ := h'.kept
  refine ⟨h'.hash.trans h.hash, h'.unused.trans h.unused, fun j hj => ?_, h'.ino.trans h.ino,
    h'.count.trans h.count, ⟨block', blocks', by rw [hodi', hodi]⟩, fun b hb hne => ?_,
    h'.inodes.1.trans h.inodes.1, h'.inodes.2.1.trans h.inodes.2.1, fun g => ?_⟩
  · rw [h'.slot j hj, h.slot j hj]
  · rw [h'.system b hb hne, h.system b hb hne]
  · obtain ⟨h1, h2⟩ := h.inodes.2.2 g
    obtain ⟨h1', h2'⟩ := h'.inodes.2.2 g
    exact ⟨h1'.trans h1, h2'.trans h2⟩

/-- The bucket search goes by bucket and number only. -/
theorem SlotStep.search (h : SlotStep v i s s') (k m : Nat) :
    searchBucket s' k m = searchBucket s k m := by
  have hino : ∀ j, (s'.slot j).ino = (s.slot j).ino := by
    intro j
    by_cases hj : j = i
    · rw [hj, h.ino]
    · rw [h.slot j hj]
  simp only [searchBucket, h.hash, hino]

theorem SlotStep.found (h : SlotStep v i s s') (hf : Found s n i) : Found s' n i := by
  rw [Found, h.search]
  exact hf

theorem Found.nodeAt (h : Found s n i) : nodeAt v s n = (s.slot i).odi := by
  unfold Found at h
  rw [Ext2.nodeAt, h]

/-- The inode table is out of reach. -/
theorem SlotStep.diskInode (h : SlotStep v i s s') (hv : Layout v) {m : Nat} (hm : OnVolume v m) :
    diskInode v s' m = diskInode v s m :=
  diskInode_congr <| h.system _ (inodeTableBlock_system hv hm) fun _ hg =>
    inodeTableBlock_ne_block_bitmap hv hm hg

/-- The other inodes are the same as before. -/
theorem SlotStep.nodeAt_ne (h : SlotStep v i s s') (hv : Layout v) (hf : Found s n i) {m : Nat}
    (hm : OnVolume v m) (hne : m ≠ n) : nodeAt v s' m = nodeAt v s m := by
  unfold Ext2.nodeAt
  rw [h.search]
  cases hs : searchBucket s (m % inodeHashSize) m with
  | none => exact h.diskInode hv hm
  | some j =>
    have hj : j ≠ i := by
      rintro rfl
      have := Found.ino (show Found s m j from hs)
      rw [hf.ino] at this
      exact hne this.symm
    simp only [h.slot j hj]

/-- The roots of the forest, when the entries of inode `n` have not changed either. -/
theorem SlotStep.mapRoot_eq (h : SlotStep v i s s') (hv : Layout v) (hf : Found s n i)
    (hblock : (s'.slot i).odi.block = (s.slot i).odi.block) {r : Nat × Fin 15}
    (hr : OnVolume v r.1) : mapRoot (nodeAt v s') r = mapRoot (nodeAt v s) r := by
  unfold mapRoot
  by_cases hrn : r.1 = n
  · rw [hrn, (h.found hf).nodeAt, hf.nodeAt, hblock]
  · rw [h.nodeAt_ne hv hf hr hrn]

/-! ## Entries of indirect blocks -/

theorem readIndirectBlockEntry_write (be : Bool) (b : Buf) (index j : Nat) {block : Nat}
    (h : block < 2 ^ 32) :
    readIndirectBlockEntry be (writeIndirectBlockEntry be b index block) j =
      if j = index then block else readIndirectBlockEntry be b j := by
  unfold readIndirectBlockEntry writeIndirectBlockEntry
  rw [bswap4_ld32, bswap4_ld32, st32_bswap4]
  by_cases hj : j = index
  · rw [if_pos hj, hj, ld32_st32, UInt32.toNat_ofNat', Nat.mod_eq_of_lt h]
  · rw [if_neg hj, ld32_st32_ne (by omega)]

theorem readIndirectBlockEntry_zeroed (be : Bool) (j : Nat) :
    readIndirectBlockEntry be zeroed j = 0 := by
  unfold readIndirectBlockEntry
  rw [bswap4_ld32, ld32_zeroed]
  rfl

theorem DataBlock.lt (hv : Layout v) {b : Nat} (h : DataBlock v b) : b < 2 ^ 32 :=
  Nat.lt_trans h.2.1 hv.blocks_lt

/-! ## Changing what is at one place -/

/-- Place `p₀` below entry `k₀` of inode `n` holds `b₀` now, which leads nowhere; the
other places and the file data are as before, and blocks held back stay so. -/
structure Replaced (v : Volume) (live : Nat → Prop) (n i : Nat) (s s' : Fs) (k₀ : Fin 15)
    (p₀ : List Nat) (b₀ : Nat) : Prop where
  slot : SlotStep v i s s'
  ok : FilesOk v s' live
  place : ∀ m, live m → ∀ k p, Place (mapShape v) (m, k) p →
    blockAt v s' m k p = setAt (n, k₀) p₀ b₀ (fun r => blockAt v s r.1 r.2) (m, k) p
  data : ∀ m, live m → ∀ k p, Leaf v m k p → blockAt v s m k p ≠ 0 →
    s'.blk (blockAt v s m k p) = s.blk (blockAt v s m k p)
  fresh : ∀ b, Fresh v s live b → b ≠ b₀ → Fresh v s' live b

/-- What a step must be for it to be such a change: it works for the inode of slot `i`,
keeps the block bitmaps in order, and the block, if it is one, is a data block, used in
the end, and in no file at the start. -/
structure Replacing (v : Volume) (live : Nat → Prop) (n i : Nat) (s s' : Fs) (b₀ : Nat) :
    Prop where
  files : FilesOk v s live
  live_n : live n
  found : Found s n i
  slot : SlotStep v i s s'
  blocks : BlockConsistent v s'
  used : ∀ b, BlockUsed v s b → BlockUsed v s' b
  data₀ : b₀ ≠ 0 → DataBlock v b₀
  used₀ : b₀ ≠ 0 → BlockUsed v s' b₀
  not_mapped : b₀ ≠ 0 → ∀ m, live m → ∀ k p, Place (mapShape v) (m, k) p → blockAt v s m k p ≠ b₀

theorem Replacing.lt (hv : Layout v) (h : Replacing v live n i s s' b₀) : b₀ < 2 ^ 32 := by
  by_cases h0 : b₀ = 0
  · rw [h0]
    decide
  · exact (h.data₀ h0).lt hv

/-- What is in a file is not the new block. -/
theorem Replacing.ne (h : Replacing v live n i s s' b₀) {m : Nat} (hm : live m) {k : Fin 15}
    {p : List Nat} (hp : Place (mapShape v) (m, k) p) (hne : blockAt v s m k p ≠ 0) :
    blockAt v s m k p ≠ b₀ := by
  by_cases h0 : b₀ = 0
  · rw [h0]
    exact hne
  · exact h.not_mapped h0 m hm k p hp

/-- The change seen on the places is all there is to show. -/
theorem Replacing.replaced (h : Replacing v live n i s s' b₀) {k₀ : Fin 15} {p₀ : List Nat}
    (hplace : ∀ r p, live r.1 → Place (mapShape v) r p →
      ptr (readIndirectBlockEntry v.beCpu) s'.blk (mapRoot (nodeAt v s')) r p =
        setAt (n, k₀) p₀ b₀ (ptr (readIndirectBlockEntry v.beCpu) s.blk (mapRoot (nodeAt v s))) r p)
    (hdata : ∀ m, live m → ∀ k p, Leaf v m k p → blockAt v s m k p ≠ 0 →
      s'.blk (blockAt v s m k p) = s.blk (blockAt v s m k p)) :
    Replaced v live n i s s' k₀ p₀ b₀ := by
  have hat : ∀ m, live m → ∀ k p, Place (mapShape v) (m, k) p → blockAt v s' m k p =
      setAt (n, k₀) p₀ b₀ (fun r => blockAt v s r.1 r.2) (m, k) p :=
    fun m hm k p hp => hplace (m, k) p hm hp
  -- a block in a file is the new one or was in a file
  have hcases : ∀ m, live m → ∀ k p, Place (mapShape v) (m, k) p → blockAt v s' m k p ≠ 0 →
      blockAt v s' m k p = b₀ ∨ blockAt v s' m k p = blockAt v s m k p := by
    intro m hm k p hp hne
    rw [hat m hm k p hp, setAt] at hne ⊢
    split
    next hin =>
      rw [if_pos hin] at hne
      split
      · exact .inl rfl
      next hp => exact absurd (if_neg hp) hne
    next => exact .inr rfl
  refine ⟨h.slot, ⟨h.files.on_volume, h.blocks, ⟨?_, ?_⟩, ?_⟩, hat, hdata, ?_⟩
  · exact unshared_of_set h.files.map.unshared
      (fun h0 r p hr hp => h.not_mapped h0 r.1 hr r.2 p hp) hplace
  · intro m hm k p hp hne
    have hne : blockAt v s' m k p ≠ 0 := hne
    show DataBlock v (blockAt v s' m k p)
    rcases hcases m hm k p hp hne with heq | heq
    · rw [heq] at hne ⊢
      exact h.data₀ hne
    · rw [heq] at hne ⊢
      exact h.files.map.data m hm k p hp hne
  · intro m hm k p hp hne
    rcases hcases m hm k p hp hne with heq | heq
    · rw [heq] at hne ⊢
      exact h.used₀ hne
    · rw [heq] at hne ⊢
      exact h.used _ (h.files.used m hm k p hp hne)
  · -- a fresh block is still in no file
    intro b hb hne
    refine ⟨hb.data, h.used b hb.used, fun m hm k p hp he => ?_⟩
    have hb0 : blockAt v s' m k p ≠ 0 := by
      rw [he]
      exact hb.data.ne_noBlock
    rcases hcases m hm k p hp hb0 with heq | heq
    · exact hne (he.symm.trans heq)
    · exact hb.not_mapped m hm k p hp (heq.symm.trans he)

/-- An entry written into an indirect block changes the place below it. -/
theorem Replacing.interior (hv : Layout v) (h : Replacing v live n i s s' b₀) {k₀ : Fin 15}
    {q : List Nat} {index : Nat} (hp₀ : Place (mapShape v) (n, k₀) (q ++ [index]))
    (hparent : blockAt v s n k₀ q ≠ 0)
    (hentries : (s'.slot i).odi.block = (s.slot i).odi.block)
    (hwrite : s'.blk (blockAt v s n k₀ q) =
      writeIndirectBlockEntry v.beCpu (s.blk (blockAt v s n k₀ q)) index b₀)
    (hclear : b₀ ≠ 0 → q.length + 1 < levels k₀ → s'.blk b₀ = zeroed)
    (hother : ∀ b, DataBlock v b → b ≠ blockAt v s n k₀ q → b ≠ b₀ → s'.blk b = s.blk b) :
    Replaced v live n i s s' k₀ (q ++ [index]) b₀ := by
  have hq := hp₀.init
  refine h.replaced (fun r p hr hp => ?_) (fun m hm k p hp hne => ?_)
  · refine ptr_set h.files.map.unshared h.live_n hp₀ hparent
      (fun r hr => h.slot.mapRoot_eq hv h.found hentries (h.files.on_volume r.1 hr))
      (fun j _ => ?_) (fun r q' hr hq' _ hne hnp j _ => ?_) (fun h0 hlen j _ => ?_) hr hp
    · refine (congrArg (fun b => readIndirectBlockEntry v.beCpu b j) hwrite).trans ?_
      exact readIndirectBlockEntry_write _ _ _ _ (h.lt hv)
    · have hd : DataBlock v _ := h.files.map.data r.1 hr r.2 q' hq' hne
      exact congrArg (fun b => readIndirectBlockEntry v.beCpu b j)
        (hother _ hd hnp (h.ne hr hq' hne))
    · rw [hclear h0 hlen, readIndirectBlockEntry_zeroed]
  · refine hother _ (h.files.map.data m hm k p hp.1 hne) (fun he => ?_) (h.ne hm hp.1 hne)
    -- a leaf is no indirect block
    obtain ⟨hr, rfl⟩ := h.files.map.unshared (m, k) p (n, k₀) q hm h.live_n hp.1 hq.1 he hne
    rw [Prod.mk.injEq] at hr
    have hlen : p.length < levels k₀ := hq.2.1
    rw [hp.2, hr.2] at hlen
    exact Nat.lt_irrefl _ hlen

/-- An entry of `i_block` set changes the place at its top. -/
theorem Replacing.top (hv : Layout v) (h : Replacing v live n i s s' b₀) {k₀ : Fin 15}
    (hentries : (s'.slot i).odi.block =
      Function.update (s.slot i).odi.block k₀ (UInt32.ofNat b₀))
    (hclear : b₀ ≠ 0 → 0 < levels k₀ → s'.blk b₀ = zeroed)
    (hother : ∀ b, DataBlock v b → b ≠ b₀ → s'.blk b = s.blk b) :
    Replaced v live n i s s' k₀ [] b₀ := by
  refine h.replaced (fun r p hr hp => ?_) (fun m hm k p hp hne => ?_)
  · refine ptr_setRoot (fun r => live r.1) (n, k₀) (fun r hr => ?_)
      (fun r q hr hq _ hne j _ => ?_) (fun h0 hlen j _ => ?_) hr hp
    · obtain ⟨m, k⟩ := r
      by_cases hm : m = n
      · subst hm
        show ((nodeAt v s' m).block k).toNat = _
        rw [(h.slot.found h.found).nodeAt, hentries, mapRoot, h.found.nodeAt]
        by_cases hk : k = k₀
        · rw [if_pos (by rw [hk]), hk, Function.update_self, UInt32.toNat_ofNat',
            Nat.mod_eq_of_lt (h.lt hv)]
        · rw [if_neg (by simpa using hk), Function.update_of_ne hk]
      · rw [if_neg fun he => hm (Prod.mk.inj he).1, mapRoot, mapRoot,
          h.slot.nodeAt_ne hv h.found (h.files.on_volume m hr) hm]
    · have hd : DataBlock v _ := h.files.map.data r.1 hr r.2 q hq hne
      exact congrArg (fun b => readIndirectBlockEntry v.beCpu b j)
        (hother _ hd (h.ne hr hq hne))
    · rw [hclear h0 hlen, readIndirectBlockEntry_zeroed]
  · exact hother _ (h.files.map.data m hm k p hp.1 hne) (h.ne hm hp.1 hne)

/-- At a place that was empty, nothing else has changed. -/
theorem Replaced.of_null (h : Replaced v live n i s s' k₀ p₀ b₀)
    (hempty : blockAt v s n k₀ p₀ = 0) {m : Nat} (hm : live m) {k : Fin 15} {p : List Nat}
    (hp : Place (mapShape v) (m, k) p) : blockAt v s' m k p =
      if m = n ∧ k = k₀ ∧ p = p₀ then b₀ else blockAt v s m k p := by
  refine (h.place m hm k p hp).trans ((setAt_of_null hempty).trans ?_)
  simp only [Prod.mk.injEq, and_assoc]
  rfl

end Maps

end Cheviot.Ext2
