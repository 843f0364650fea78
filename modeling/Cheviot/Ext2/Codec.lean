import Cheviot.Ext2.InodeTable
import Cheviot.Ext2.Superblock
import Cheviot.Lib.Members

/-!
# The records on the disk and in memory

`super_copy`, `gd_copy` and `inode_copy` go from the disk to memory and back: each is a
list of members, copied one by one with `bswap2`, `bswap4` or as they are.

* `copyMember_eq` — the copy of one member, byte by byte.
* `superCopy_members`, `gdCopy_members`, `inodeCopyFrom_members`, `inodeCopyTo_members` —
  the members that the rest of the model reads and writes are those.
* `codec_roundTrips` — there and back again, every byte of a record on the disk is as it
  was, and the way round, every member.

Mirroring notes:
- Both structures of a copy are buffers, with a base each; a member is stored and loaded
  in the byte order of the host. A structure is packed, as the compiler is told.
- What no member covers is whatever was there before.
-/

namespace Cheviot.Ext2

open Cheviot.Bytes Cheviot.Members

/-! ## The functions -/

/-- One assignment of a copy: how, and at which offset. -/
inductive Assign where
  | swap4 (off : Nat)
  | swap2 (off : Nat)
  /-- `memcpy`, or the assignment of a byte. -/
  | plain (off len : Nat)
  deriving DecidableEq, Repr

/-- One assignment from the record at `s` of `src` to the one at `d` of `dest`. -/
def copyMember (be : Bool) (a : Assign) (dest : Buf) (d : Nat) (src : Buf) (s : Nat) : Buf :=
  match a with
  | .swap4 off => st32 be dest (d + off) (bswap4 be (ld32 be src (s + off)))
  | .swap2 off => st16 be dest (d + off) (bswap2 be (ld16 be src (s + off)))
  | .plain off len => stBytes dest (d + off) (getBytes src (s + off) len)

/-- The assignments of a copy, one after the other. -/
def copyMembers (be : Bool) (as : List Assign) (dest : Buf) (d : Nat) (src : Buf) (s : Nat) : Buf :=
  as.foldl (fun b a => copyMember be a b d src s) dest

/-- `super_copy`. -/
def superAssigns : List Assign :=
  [.swap4 0,            -- s_inodes_count
   .swap4 4,            -- s_blocks_count
   .swap4 8,            -- s_r_blocks_count
   .swap4 12,           -- s_free_blocks_count
   .swap4 16,           -- s_free_inodes_count
   .swap4 20,           -- s_first_data_block
   .swap4 24,           -- s_log_block_size
   .swap4 28,           -- s_log_frag_size
   .swap4 32,           -- s_blocks_per_group
   .swap4 36,           -- s_frags_per_group
   .swap4 40,           -- s_inodes_per_group
   .swap4 44,           -- s_mtime
   .swap4 48,           -- s_wtime
   .swap2 52,           -- s_mnt_count
   .swap2 54,           -- s_max_mnt_count
   .swap2 56,           -- s_magic
   .swap2 58,           -- s_state
   .swap2 60,           -- s_errors
   .swap2 62,           -- s_minor_rev_level
   .swap4 64,           -- s_lastcheck
   .swap4 68,           -- s_checkinterval
   .swap4 72,           -- s_creator_os
   .swap4 76,           -- s_rev_level
   .swap2 80,           -- s_def_resuid
   .swap2 82,           -- s_def_resgid
   .swap4 84,           -- s_first_ino
   .swap2 88,           -- s_inode_size
   .swap2 90,           -- s_block_group_nr
   .swap4 92,           -- s_feature_compat
   .swap4 96,           -- s_feature_incompat
   .swap4 100,          -- s_feature_ro_compat
   .swap4 200,          -- s_algorithm_usage_bitmap
   .swap2 206,          -- s_padding1
   .plain 104 16,       -- s_uuid
   .plain 120 16,       -- s_volume_name
   .plain 136 64,       -- s_last_mounted
   .plain 204 1,        -- s_prealloc_blocks
   .plain 205 1]        -- s_prealloc_dir_blocks

/-- `gd_copy`. -/
def gdAssigns : List Assign :=
  [.swap4 0,            -- g_block_bitmap
   .swap4 4,            -- g_inode_bitmap
   .swap4 8,            -- g_inode_table
   .swap2 12,           -- g_free_blocks_count
   .swap2 14,           -- g_free_inodes_count
   .swap2 16]           -- g_used_dirs_count

/-- `inode_copy`. -/
def inodeAssigns : List Assign :=
  [.swap2 0,            -- i_mode
   .swap2 2,            -- i_uid
   .swap4 4,            -- i_size
   .swap4 8,            -- i_atime
   .swap4 12,           -- i_ctime
   .swap4 16,           -- i_mtime
   .swap4 20,           -- i_dtime
   .swap2 24,           -- i_gid
   .swap2 26,           -- i_links_count
   .swap4 28,           -- i_blocks
   .swap4 32] ++        -- i_flags
  (List.finRange 15).map (fun k => .swap4 (40 + 4 * k.val)) ++    -- i_block
  [.swap4 100,          -- i_generation
   .swap4 104,          -- i_file_acl
   .swap4 108,          -- i_dir_acl
   .swap4 112]          -- i_faddr

/-- `copy_group_descriptors`. -/
def copyGroupDescriptors (be : Bool) (destArray sourceArray : Buf) (ngroups : Nat) : Buf :=
  (List.range ngroups).foldl
    (fun b i => copyMembers be gdAssigns b (32 * i) sourceArray (32 * i)) destArray

/-! ## Byte by byte -/

/-- The member of an assignment. -/
def Assign.member : Assign → Member
  | .swap4 off => ⟨off, 4, true⟩
  | .swap2 off => ⟨off, 2, true⟩
  | .plain off len => ⟨off, len, false⟩

section Bytes

variable {be : Bool} {dest src : Buf} {d s : Nat}

/-- On a host of the other byte order, the bytes of a word are turned round. -/
theorem copy_swap4 {o o' j : Nat} (hj : j < 4) :
    st32 be dest o (bswap4 be (ld32 be src o')) (o + j) =
      src (o' + if be then 4 - 1 - j else j) := by
  have hplace : (if be then 3 - j else j) < 4 := by split <;> omega
  have hback : (if be then 3 - (if be then 3 - j else j) else if be then 3 - j else j) = j := by
    split <;> omega
  rw [st32_bswap4, st32_byte false dest o _ hj, ← byte32_ld32 be src o' hplace, hback]
  rfl

theorem copy_swap2 {o o' j : Nat} (hj : j < 2) :
    st16 be dest o (bswap2 be (ld16 be src o')) (o + j) =
      src (o' + if be then 2 - 1 - j else j) := by
  have hplace : (if be then 1 - j else j) < 2 := by split <;> omega
  have hback : (if be then 1 - (if be then 1 - j else j) else if be then 1 - j else j) = j := by
    split <;> omega
  rw [st16_bswap2, st16_byte false dest o _ hj, ← byte16_ld16 be src o' hplace, hback]
  rfl

theorem copyMember_eq (a : Assign) :
    copyMember be a dest d src s = copy be a.member dest d src s := by
  funext x
  by_cases hx : d + a.member.off ≤ x ∧ x < d + a.member.off + a.member.len
  · obtain ⟨j, rfl⟩ : ∃ j, x = d + a.member.off + j := ⟨x - (d + a.member.off), by omega⟩
    have hj : j < a.member.len := by omega
    rw [copy_member hj]
    cases a with
    | swap4 off =>
      refine (copy_swap4 hj).trans ?_
      rw [Assign.member, place_swaps]
    | swap2 off =>
      refine (copy_swap2 hj).trans ?_
      rw [Assign.member, place_swaps]
    | plain off len =>
      show stBytes dest (d + off) (getBytes src (s + off) len) (d + off + j) = _
      have hj' : j < len := hj
      rw [stBytes_apply (by omega) (by rw [getBytes_length]; omega), Nat.add_sub_cancel_left,
        Assign.member, place_plain]
      unfold getBytes
      rw [List.getD_eq_getElem?_getD, List.getElem?_map, List.getElem?_range hj']
      rfl
  · rw [copy_other hx]
    cases a with
    | swap4 off => exact st32_apply_ne (by simp only [Assign.member] at hx; omega)
    | swap2 off => exact st16_apply_ne (by simp only [Assign.member] at hx; omega)
    | plain off len =>
      apply stBytes_apply_ne
      rw [getBytes_length]
      simp only [Assign.member] at hx
      omega

theorem copyMembers_eq (as : List Assign) :
    copyMembers be as dest d src s = copyAll be (as.map Assign.member) dest d src s := by
  unfold copyMembers copyAll
  rw [List.foldl_map]
  congr 1
  funext b a
  exact copyMember_eq a

theorem copyGroupDescriptors_eq (n : Nat) :
    copyGroupDescriptors be dest src n =
      copyAll be (arrayMembers (gdAssigns.map Assign.member) 32 n) dest 0 src 0 := by
  rw [copyAll_array]
  unfold copyGroupDescriptors
  congr 1
  funext b i
  exact copyMembers_eq gdAssigns

end Bytes

/-! ## The members that are used -/

section Members

variable {as : List Assign}

/-- What is loaded from a copy is what was loaded from the record, in the other byte order. -/
theorem ld32_copyMembers (has : (as.map Assign.member).Pairwise Apart) (be : Bool)
    (dest : Buf) (d : Nat) (src : Buf) (s : Nat) {off : Nat} (hmem : .swap4 off ∈ as) :
    ld32 be (copyMembers be as dest d src s) (d + off) = bswap4 be (ld32 be src (s + off)) := by
  have hsame : AgreeOn (d + off) (d + off + 4) (st32 be dest (d + off)
      (bswap4 be (ld32 be src (s + off)))) (copyMembers be as dest d src s) := by
    intro x hlo hhi
    obtain ⟨j, rfl⟩ : ∃ j, x = d + off + j := ⟨x - (d + off), by omega⟩
    have hj : j < 4 := by omega
    have hmember : Member.mk off 4 true ∈ as.map Assign.member :=
      List.mem_map.mpr ⟨.swap4 off, hmem, rfl⟩
    rw [copyMembers_eq, copy_swap4 hj]
    refine (copyAll_member has hmember hj).trans ?_
    rw [place_swaps]
  rw [ld32_congr hsame, ld32_st32]

theorem ld16_copyMembers (has : (as.map Assign.member).Pairwise Apart) (be : Bool)
    (dest : Buf) (d : Nat) (src : Buf) (s : Nat) {off : Nat} (hmem : .swap2 off ∈ as) :
    ld16 be (copyMembers be as dest d src s) (d + off) = bswap2 be (ld16 be src (s + off)) := by
  have hsame : AgreeOn (d + off) (d + off + 2) (st16 be dest (d + off)
      (bswap2 be (ld16 be src (s + off)))) (copyMembers be as dest d src s) := by
    intro x hlo hhi
    obtain ⟨j, rfl⟩ : ∃ j, x = d + off + j := ⟨x - (d + off), by omega⟩
    have hj : j < 2 := by omega
    have hmember : Member.mk off 2 true ∈ as.map Assign.member :=
      List.mem_map.mpr ⟨.swap2 off, hmem, rfl⟩
    rw [copyMembers_eq, copy_swap2 hj]
    refine (copyAll_member has hmember hj).trans ?_
    rw [place_swaps]
  rw [ld16_congr hsame, ld16_st16]

theorem superAssigns_apart : (superAssigns.map Assign.member).Pairwise Apart := by decide

theorem gdAssigns_apart : (gdAssigns.map Assign.member).Pairwise Apart := by decide

theorem inodeAssigns_apart : (inodeAssigns.map Assign.member).Pairwise Apart := by decide +kernel

/-- The superblock in memory, as its members are read. -/
def memSuperblock (be : Bool) (mem : Buf) : Superblock where
  inodesCount := ld32 be mem 0
  blocksCount := ld32 be mem 4
  freeBlocksCount := ld32 be mem 12
  freeInodesCount := ld32 be mem 16
  firstDataBlock := ld32 be mem 20
  logBlockSize := ld32 be mem 24
  blocksPerGroup := ld32 be mem 32
  inodesPerGroup := ld32 be mem 40
  magic := ld16 be mem 56
  revLevel := ld32 be mem 76
  firstIno := ld32 be mem 84
  inodeSize := ld16 be mem 88
  featureIncompat := ld32 be mem 96

/-- `super_copy` leaves the superblock that `read_superblock` goes by. -/
theorem superCopy_members (be : Bool) (mem disk : Buf) :
    memSuperblock be (copyMembers be superAssigns mem 0 disk 0) = superCopy be disk := by
  have h32 : ∀ off, Assign.swap4 off ∈ superAssigns →
      ld32 be (copyMembers be superAssigns mem 0 disk 0) off = bswap4 be (ld32 be disk off) := by
    intro off hoff
    have h := ld32_copyMembers superAssigns_apart be mem 0 disk 0 hoff
    rwa [Nat.zero_add] at h
  have h16 : ∀ off, Assign.swap2 off ∈ superAssigns →
      ld16 be (copyMembers be superAssigns mem 0 disk 0) off = bswap2 be (ld16 be disk off) := by
    intro off hoff
    have h := ld16_copyMembers superAssigns_apart be mem 0 disk 0 hoff
    rwa [Nat.zero_add] at h
  simp (disch := decide) only [memSuperblock, superCopy, h32, h16]

/-- A group descriptor in memory, as its members are read. -/
def memGroupDesc (be : Bool) (mem : Buf) (o : Nat) : DiskGroupDesc where
  blockBitmap := ld32 be mem o
  inodeBitmap := ld32 be mem (o + 4)
  inodeTable := ld32 be mem (o + 8)
  counters :=
    { freeBlocksCount := ld16 be mem (o + 12)
      freeInodesCount := ld16 be mem (o + 14)
      usedDirsCount := ld16 be mem (o + 16) }

/-- `gd_copy` leaves the descriptor that the volume goes by. -/
theorem gdCopy_members (be : Bool) (mem : Buf) (o : Nat) (disk : Buf) (o' : Nat) :
    memGroupDesc be (copyMembers be gdAssigns mem o disk o') o = gdCopy be disk o' := by
  have h32 : ∀ off, Assign.swap4 off ∈ gdAssigns →
      ld32 be (copyMembers be gdAssigns mem o disk o') (o + off) =
        bswap4 be (ld32 be disk (o' + off)) :=
    fun off hoff => ld32_copyMembers gdAssigns_apart be mem o disk o' hoff
  have h16 : ∀ off, Assign.swap2 off ∈ gdAssigns →
      ld16 be (copyMembers be gdAssigns mem o disk o') (o + off) =
        bswap2 be (ld16 be disk (o' + off)) :=
    fun off hoff => ld16_copyMembers gdAssigns_apart be mem o disk o' hoff
  have h0 := h32 0 (by decide)
  rw [Nat.add_zero, Nat.add_zero] at h0
  simp (disch := decide) only [memGroupDesc, gdCopy, h0, h32, h16]

/-- An inode in memory, as its members are read. -/
def memInode (be : Bool) (mem : Buf) (o : Nat) : OndiskInode where
  mode := ld16 be mem o
  uid := ld16 be mem (o + 2)
  size := ld32 be mem (o + 4)
  atime := ld32 be mem (o + 8)
  ctime := ld32 be mem (o + 12)
  mtime := ld32 be mem (o + 16)
  dtime := ld32 be mem (o + 20)
  gid := ld16 be mem (o + 24)
  linksCount := ld16 be mem (o + 26)
  blocks := ld32 be mem (o + 28)
  flags := ld32 be mem (o + 32)
  block := fun k => ld32 be mem (o + 40 + 4 * k.val)
  generation := ld32 be mem (o + 100)
  fileAcl := ld32 be mem (o + 104)
  dirAcl := ld32 be mem (o + 108)
  faddr := ld32 be mem (o + 112)

theorem inodeAssigns_block (k : Fin 15) : .swap4 (40 + 4 * k.val) ∈ inodeAssigns := by
  unfold inodeAssigns
  apply List.mem_append_left
  apply List.mem_append_right
  exact List.mem_map.mpr ⟨k, List.mem_finRange k, rfl⟩

/-- `inode_copy` from the disk leaves the inode that `read_inode` finds. -/
theorem inodeCopyFrom_members (be : Bool) (mem : Buf) (o : Nat) (disk : Buf) (o' : Nat) :
    memInode be (copyMembers be inodeAssigns mem o disk o') o = inodeCopyFrom be disk o' := by
  have h32 : ∀ off, Assign.swap4 off ∈ inodeAssigns →
      ld32 be (copyMembers be inodeAssigns mem o disk o') (o + off) =
        bswap4 be (ld32 be disk (o' + off)) :=
    fun off hoff => ld32_copyMembers inodeAssigns_apart be mem o disk o' hoff
  have h16 : ∀ off, Assign.swap2 off ∈ inodeAssigns →
      ld16 be (copyMembers be inodeAssigns mem o disk o') (o + off) =
        bswap2 be (ld16 be disk (o' + off)) :=
    fun off hoff => ld16_copyMembers inodeAssigns_apart be mem o disk o' hoff
  have h0 := h16 0 (by decide)
  rw [Nat.add_zero, Nat.add_zero] at h0
  have hblock : ∀ k : Fin 15,
      ld32 be (copyMembers be inodeAssigns mem o disk o') (o + 40 + 4 * k.val) =
        bswap4 be (ld32 be disk (o' + 40 + 4 * k.val)) := by
    intro k
    have h := h32 _ (inodeAssigns_block k)
    rwa [← Nat.add_assoc, ← Nat.add_assoc] at h
  simp (disch := decide) only [memInode, inodeCopyFrom, h0, h32, h16, hblock]

/-- `inode_copy` to the disk writes what `write_inode` is said to write. -/
theorem inodeCopyTo_members (be : Bool) (disk : Buf) (o : Nat) (mem : Buf) (o' : Nat) :
    copyMembers be inodeAssigns disk o mem o' = inodeCopyTo be (memInode be mem o') disk o := by
  unfold copyMembers inodeAssigns
  rw [List.foldl_append, List.foldl_append, List.foldl_map]
  simp only [List.foldl_cons, List.foldl_nil, copyMember, inodeCopyTo, blocksCopyTo, memInode,
    Nat.add_zero, Nat.add_assoc]

end Members

/-! ## There and back again -/

/-- What the copies promise: a record that goes from the disk to memory and back is written
as it was, to the last byte; a member in memory that goes to the disk and back is what it
was, wherever it is read to; and `read_inode` with `write_inode` behind it leaves the
blocks alone, if no time is to be updated. -/
structure RoundTrips (be : Bool) : Prop where
  super : ∀ disk mem : Buf,
    copyMembers be superAssigns disk 0 (copyMembers be superAssigns mem 0 disk 0) 0 = disk
  super_back : ∀ disk mem mem' : Buf, ∀ m ∈ superAssigns.map Assign.member, ∀ j, j < m.len →
    copyMembers be superAssigns mem' 0 (copyMembers be superAssigns disk 0 mem 0) 0 (m.off + j) =
      mem (m.off + j)
  groups : ∀ (n : Nat) (disk mem : Buf),
    copyGroupDescriptors be disk (copyGroupDescriptors be mem disk n) n = disk
  groups_back : ∀ (n : Nat) (disk mem mem' : Buf) (g : Nat), g < n →
    ∀ m ∈ gdAssigns.map Assign.member, ∀ j, j < m.len →
      copyGroupDescriptors be mem' (copyGroupDescriptors be disk mem n) n (32 * g + m.off + j) =
        mem (32 * g + m.off + j)
  inode : ∀ (disk : Buf) (o : Nat) (mem : Buf),
    copyMembers be inodeAssigns disk o (copyMembers be inodeAssigns mem 0 disk o) 0 = disk
  inode_back : ∀ (disk : Buf) (o : Nat) (mem mem' : Buf), ∀ m ∈ inodeAssigns.map Assign.member,
    ∀ j, j < m.len →
      copyMembers be inodeAssigns mem' 0 (copyMembers be inodeAssigns disk o mem 0) o (m.off + j) =
        mem (m.off + j)
  blocks : ∀ (v : Volume) (env : Env) (s s' s'' : Fs) (i : Nat), v.beCpu = be →
    (s.slot i).update = ⟨false, false, false⟩ → readInode v s i = .ok s' →
    writeInode v env s' i = .ok s'' → s''.blk = s.blk

/-- What `inode_copy` reads, it writes back as it was. -/
theorem inodeCopyTo_inodeCopyFrom (be : Bool) (b : Buf) (o : Nat) :
    inodeCopyTo be (inodeCopyFrom be b o) b o = b := by
  have h := inodeCopyTo_members be b o (copyMembers be inodeAssigns zeroed 0 b o) 0
  rw [inodeCopyFrom_members] at h
  rw [← h, copyMembers_eq, copyMembers_eq]
  exact copyAll_copyAll inodeAssigns_apart b zeroed o 0

/-- An inode that is read and written with no time to be set leaves its table block alone. -/
theorem readInode_writeInode {v : Volume} {env : Env} {s s' s'' : Fs} {i : Nat}
    (hupdate : (s.slot i).update = ⟨false, false, false⟩) (hread : readInode v s i = .ok s')
    (hwrite : writeInode v env s' i = .ok s'') : s''.blk = s.blk := by
  unfold readInode at hread
  dsimp only at hread
  split at hread
  · cases hread
  cases hread
  have hslot : (s.modOdi i fun _ => diskInode v s (s.slot i).ino).slot i =
      { s.slot i with odi := diskInode v s (s.slot i).ino } := Function.update_self _ _ _
  have htimed : timed v env { s.slot i with odi := diskInode v s (s.slot i).ino } =
      { s.slot i with odi := diskInode v s (s.slot i).ino } := by
    unfold timed
    dsimp only
    rw [hupdate]
    rfl
  unfold writeInode at hwrite
  dsimp only at hwrite
  rw [hslot, htimed] at hwrite
  split at hwrite
  · cases hwrite
  cases hwrite
  have hsame : inodeCopyTo v.beCpu (diskInode v s (s.slot i).ino)
      (s.blk (v.inodeTableBlock (s.slot i).ino)) (v.inodeOffset (s.slot i).ino) =
      s.blk (v.inodeTableBlock (s.slot i).ino) := inodeCopyTo_inodeCopyFrom _ _ _
  split
  all_goals
    show Function.update s.blk _ (inodeCopyTo v.beCpu (diskInode v s (s.slot i).ino)
      (s.blk (v.inodeTableBlock (s.slot i).ino)) (v.inodeOffset (s.slot i).ino)) = s.blk
    rw [hsame]
    exact Function.update_eq_self _ _

theorem codec_roundTrips (be : Bool) : RoundTrips be where
  super := by
    intro disk mem
    rw [copyMembers_eq, copyMembers_eq]
    exact copyAll_copyAll superAssigns_apart disk mem 0 0
  super_back := by
    intro disk mem mem' m hm j hj
    rw [copyMembers_eq, copyMembers_eq]
    have h := copyAll_back be superAssigns_apart disk mem mem' 0 0 hm hj
    rwa [Nat.zero_add] at h
  groups := by
    intro n disk mem
    rw [copyGroupDescriptors_eq, copyGroupDescriptors_eq]
    exact copyAll_copyAll (arrayMembers_apart gdAssigns_apart (by decide)) disk mem 0 0
  groups_back := by
    intro n disk mem mem' g hg m hm j hj
    rw [copyGroupDescriptors_eq, copyGroupDescriptors_eq]
    have hmem : m.shift (32 * g) ∈ arrayMembers (gdAssigns.map Assign.member) 32 n :=
      mem_arrayMembers.mpr ⟨g, hg, m, hm, rfl⟩
    have h := copyAll_back be (arrayMembers_apart gdAssigns_apart (by decide))
      disk mem mem' 0 0 hmem hj
    rwa [Nat.zero_add] at h
  inode := by
    intro disk o mem
    rw [copyMembers_eq, copyMembers_eq]
    exact copyAll_copyAll inodeAssigns_apart disk mem o 0
  inode_back := by
    intro disk o mem mem' m hm j hj
    rw [copyMembers_eq, copyMembers_eq]
    have h := copyAll_back be inodeAssigns_apart disk mem mem' o 0 hm hj
    rwa [Nat.zero_add] at h
  blocks := by
    intro v env s s' s'' i _ hupdate hread hwrite
    exact readInode_writeInode hupdate hread hwrite

end Cheviot.Ext2
