import Cheviot.Ext2.InodeTable
import Cheviot.Ext2.Superblock

/-!
# The slots of the inodes

`read_inode` and `write_inode` look for an inode in the table of its group, at a place
that they work out from its number, the inodes in a group and the size of an inode.
`read_superblock` checks of these numbers that the size is a power of two and not larger
than a block, and that there are inodes in a group.

* `Accepted` — what a volume is like that `read_superblock` accepts.
* `tableBlock_le_last`, `exists_last` — the last block of a table that is looked at.
* `slots_fit_iff` — when every inode has a place of its own, in the table of its group.
* `acceptedSlots_iff` — so much for every volume that is mounted.
-/

namespace Cheviot.Ext2

open Cheviot.Bytes Cheviot.Run

/-! ## Slots -/

/-- The 128 bytes of inode `i` lie in one block of the table of its group. -/
structure SlotInTable (v : Volume) (i : Nat) : Prop where
  group : v.inodeGroup i < v.groupsCount
  one_block : v.inodeOffset i + 128 ≤ v.blockSize
  from_table : v.inodeTable (v.inodeGroup i) ≤ v.inodeTableBlock i
  in_table : v.inodeTableBlock i < v.inodeTable (v.inodeGroup i) + v.inodeTableBlocksPerGroup

/-- The 128 bytes of one inode are not those of the other. -/
def SlotsApart (v : Volume) (i j : Nat) : Prop :=
  v.inodeTableBlock i ≠ v.inodeTableBlock j ∨
    v.inodeOffset i + 128 ≤ v.inodeOffset j ∨ v.inodeOffset j + 128 ≤ v.inodeOffset i

/-- The tables of the groups do not overlap. -/
def TablesApart (v : Volume) : Prop :=
  ∀ g, g < v.groupsCount → ∀ h, h < v.groupsCount → g ≠ h →
    v.inodeTable g + v.inodeTableBlocksPerGroup ≤ v.inodeTable h ∨
      v.inodeTable h + v.inodeTableBlocksPerGroup ≤ v.inodeTable g

/-- `write_inode` of inode `i` leaves what `read_inode` finds of inode `j`. -/
def WriteKeeps (v : Volume) (i j : Nat) : Prop :=
  ∀ (env : Env) (s s' : Fs) (k : Nat), (s.slot k).ino = i → writeInode v env s k = .ok s' →
    diskInode v s' j = diskInode v s j

/-- Every inode has a slot in the table of its group, and if the tables do not overlap, no
two of them share one. -/
structure SlotsOk (v : Volume) : Prop where
  in_table : ∀ i, 0 < i → i ≤ v.inodesCount → SlotInTable v i
  apart : TablesApart v → ∀ i j, 0 < i → i ≤ v.inodesCount → 0 < j → j ≤ v.inodesCount → i ≠ j →
    SlotsApart v i j ∧ WriteKeeps v i j

/-- Slots in the tables of different groups are apart, if the tables are. -/
theorem TablesApart.slots {v : Volume} (htables : TablesApart v) {i j : Nat} (hi : SlotInTable v i)
    (hj : SlotInTable v j) (hne : v.inodeGroup i ≠ v.inodeGroup j) : SlotsApart v i j := by
  left
  intro heq
  have h1 := hi.from_table
  have h2 := hi.in_table
  have h3 := hj.from_table
  have h4 := hj.in_table
  rcases htables _ hi.group _ hj.group hne with hle | hle <;> omega

theorem SlotsApart.symm {v : Volume} {i j : Nat} (h : SlotsApart v i j) : SlotsApart v j i := by
  rcases h with hne | hle | hle
  · exact .inl fun heq => hne heq.symm
  · exact .inr (.inr hle)
  · exact .inr (.inl hle)

/-- What is not within the slot of the other is left alone. -/
theorem SlotsApart.writeKeeps {v : Volume} {i j : Nat} (h : SlotsApart v i j) :
    WriteKeeps v i j := by
  intro env s s' k hk hrun
  unfold writeInode at hrun
  dsimp only at hrun
  rw [hk] at hrun
  split at hrun
  · cases hrun
  cases hrun
  have hblk : ∀ (t : Fs) (b : Nat) (buf : Buf),
      (if v.readOnly = true then t.setBlk b buf else t.writeBlk b buf).blk =
        Function.update t.blk b buf := by
    intro t b buf
    split <;> rfl
  unfold diskInode
  show inodeCopyFrom v.beCpu
    ((if v.readOnly = true then Fs.setBlk _ _ _ else Fs.writeBlk _ _ _).blk _) _ = _
  rw [hblk]
  by_cases hb : v.inodeTableBlock j = v.inodeTableBlock i
  · rw [hb, Function.update_self]
    apply inodeCopyFrom_congr
    intro x hlo hhi
    apply inodeCopyTo_apply_ne
    rcases h with hne | hle | hle
    · exact absurd hb.symm hne
    · omega
    · omega
  · rw [Function.update_of_ne hb]
    rfl

/-! ## Places in a group -/

/-- What is known of the numbers that the places are worked out from. -/
structure SlotGeom (v : Volume) : Prop where
  log_le : v.logBlockSize ≤ 5
  ipg_pos : 0 < v.inodesPerGroup
  size_pow : ∃ e, v.inodeSize = 2 ^ e
  size_le : v.inodeSize ≤ v.blockSize
  table_lt : ∀ g, v.inodeTable g < 2 ^ 32

/-- How many of the inodes are in group `g`. -/
def groupInodes (v : Volume) (g : Nat) : Nat :=
  min v.inodesPerGroup (v.inodesCount - g * v.inodesPerGroup)

/-- The last block of the table that is looked at for an inode of group `g`: the place
of an inode has 32 bits. -/
def lastTableBlock (v : Volume) (g : Nat) : Nat :=
  min ((groupInodes v g - 1) * v.inodeSize) (2 ^ 32 - 1) / v.blockSize

section Places

variable {v : Volume}

theorem groupInodes_le (v : Volume) (g : Nat) : groupInodes v g ≤ groupInodes v 0 := by
  unfold groupInodes
  omega

namespace SlotGeom

variable (hv : SlotGeom v)

include hv

theorem blockSize_pow : v.blockSize = 2 ^ (v.logBlockSize + 10) := by
  rw [Volume.blockSize_eq hv.log_le, Nat.pow_add, Nat.mul_comm]

theorem size_pos : 0 < v.inodeSize := by
  obtain ⟨e, he⟩ := hv.size_pow
  rw [he]
  exact Nat.two_pow_pos e

theorem size_dvd : v.inodeSize ∣ v.blockSize := by
  obtain ⟨e, he⟩ := hv.size_pow
  have hle := hv.size_le
  rw [hv.blockSize_pow, he] at hle ⊢
  exact Nat.pow_dvd_pow 2 ((Nat.pow_le_pow_iff_right (by decide)).mp hle)

theorem blockSize_dvd : v.blockSize ∣ 2 ^ 32 := by
  have hlog := hv.log_le
  rw [hv.blockSize_pow]
  exact Nat.pow_dvd_pow 2 (by omega)

theorem offset_eq (i : Nat) : v.inodeOffset i = v.inodePos i % v.blockSize := by
  rw [Volume.inodeOffset, hv.blockSize_pow, Nat.and_two_pow_sub_one_eq_mod]

theorem tableBlock_eq (i : Nat) : v.inodeTableBlock i =
    (v.inodeTable (v.inodeGroup i) + v.inodePos i / v.blockSize) % 2 ^ 32 := by
  rw [Volume.inodeTableBlock, Nat.shiftRight_eq_div_pow, hv.blockSize_pow]

/-- The inode at place `k` of group `g`. -/
theorem at_place {g k : Nat} (hk : k < groupInodes v g) :
    g * v.inodesPerGroup + k + 1 ≤ v.inodesCount ∧
      v.inodeGroup (g * v.inodesPerGroup + k + 1) = g ∧
      v.inodePos (g * v.inodesPerGroup + k + 1) = k * v.inodeSize % 2 ^ 32 := by
  have hipg := hv.ipg_pos
  unfold groupInodes at hk
  have hpred : pred32 (g * v.inodesPerGroup + k + 1) = v.inodesPerGroup * g + k := by
    rw [pred32_of_pos (Nat.succ_pos _), Nat.mul_comm g]
    rfl
  have hlt : k < v.inodesPerGroup := by omega
  refine ⟨by omega, ?_, ?_⟩
  · rw [Volume.inodeGroup, hpred, Nat.mul_add_div hipg, Nat.div_eq_of_lt hlt]
    rfl
  · rw [Volume.inodePos, hpred, Nat.mul_add_mod, Nat.mod_eq_of_lt hlt]

/-- Every inode has a place. -/
theorem exists_place {i : Nat} (hpos : 0 < i) (hle : i ≤ v.inodesCount) :
    ∃ g k, k < groupInodes v g ∧ i = g * v.inodesPerGroup + k + 1 := by
  have hdiv := Nat.div_add_mod (i - 1) v.inodesPerGroup
  have hlt := Nat.mod_lt (i - 1) hv.ipg_pos
  rw [Nat.mul_comm] at hdiv
  refine ⟨(i - 1) / v.inodesPerGroup, (i - 1) % v.inodesPerGroup, ?_, by omega⟩
  unfold groupInodes
  omega

omit hv in
/-- No inode of the group is looked for behind the last block. -/
theorem tableBlock_le_last {g k : Nat} (hk : k < groupInodes v g) :
    k * v.inodeSize % 2 ^ 32 / v.blockSize ≤ lastTableBlock v g := by
  apply Nat.div_le_div_right
  apply Nat.le_min_of_le_of_le
  · exact Nat.le_trans (Nat.mod_le _ _) (Nat.mul_le_mul_right _ (by omega))
  · have := Nat.mod_lt (k * v.inodeSize) (show 0 < 2 ^ 32 by decide)
    omega

/-- Some inode of the group is looked for there: the last one, or the last one before the
places wrap. -/
theorem exists_last {g : Nat} (hg : 0 < groupInodes v g) :
    ∃ k, k < groupInodes v g ∧ k * v.inodeSize % 2 ^ 32 / v.blockSize = lastTableBlock v g := by
  unfold lastTableBlock
  by_cases hwrap : (groupInodes v g - 1) * v.inodeSize < 2 ^ 32
  · refine ⟨groupInodes v g - 1, by omega, ?_⟩
    rw [Nat.mod_eq_of_lt hwrap, Nat.min_eq_left (by omega)]
  · have hsize := hv.size_pos
    have hle := hv.size_le
    obtain ⟨d, hd⟩ := Nat.dvd_trans hv.size_dvd hv.blockSize_dvd
    obtain ⟨m, hm⟩ := hv.blockSize_dvd
    have hd1 : d ≤ groupInodes v g - 1 := by
      apply Nat.le_of_mul_le_mul_left _ hsize
      rw [← hd, Nat.mul_comm v.inodeSize]
      exact Nat.le_of_not_lt hwrap
    have hd0 : 0 < d := Nat.pos_of_ne_zero fun h0 => by rw [h0, Nat.mul_zero] at hd; omega
    have hlast : (d - 1) * v.inodeSize = 2 ^ 32 - v.inodeSize := by
      rw [Nat.sub_one_mul, hd, Nat.mul_comm d]
    have hm1 : (m - 1 + 1) * v.blockSize = 2 ^ 32 := by
      rw [Nat.sub_add_cancel, hm, Nat.mul_comm m]
      exact Nat.pos_of_ne_zero fun h0 => by rw [h0, Nat.mul_zero] at hm; omega
    have hsplit : (m - 1) * v.blockSize + v.blockSize = 2 ^ 32 := by
      rw [← hm1, Nat.add_mul, Nat.one_mul]
    refine ⟨d - 1, by omega, ?_⟩
    rw [hlast, Nat.mod_eq_of_lt (by omega), Nat.min_eq_right (by omega),
      Nat.div_eq_of_lt_le (k := m - 1) (by omega) (by rw [hm1]; omega),
      Nat.div_eq_of_lt_le (k := m - 1) (by omega) (by rw [hm1]; omega)]

/-- The slot of the inode at place `k`. -/
theorem slotInTable_iff {g k : Nat} (hk : k < groupInodes v g) :
    SlotInTable v (g * v.inodesPerGroup + k + 1) ↔
      g < v.groupsCount ∧ k * v.inodeSize % 2 ^ 32 % v.blockSize + 128 ≤ v.blockSize ∧
        k * v.inodeSize % 2 ^ 32 / v.blockSize < v.inodeTableBlocksPerGroup ∧
        v.inodeTable g + k * v.inodeSize % 2 ^ 32 / v.blockSize < 2 ^ 32 := by
  obtain ⟨-, hgroup, hpos⟩ := hv.at_place hk
  have htable := hv.table_lt g
  have hq : k * v.inodeSize % 2 ^ 32 / v.blockSize < 2 ^ 32 :=
    Nat.lt_of_le_of_lt (Nat.div_le_self _ _) (Nat.mod_lt _ (by decide))
  have hblock := hv.tableBlock_eq (g * v.inodesPerGroup + k + 1)
  have hoffset := hv.offset_eq (g * v.inodesPerGroup + k + 1)
  rw [hgroup, hpos] at hblock
  rw [hpos] at hoffset
  generalize k * v.inodeSize % 2 ^ 32 / v.blockSize = q at *
  constructor
  · rintro ⟨h1, h2, h3, h4⟩
    rw [hgroup] at h1 h3 h4
    rw [hoffset] at h2
    rw [hblock] at h3 h4
    refine ⟨h1, h2, ?_⟩
    -- a block number that has wrapped is before the table
    omega
  · rintro ⟨h1, h2, h3, h4⟩
    rw [Nat.mod_eq_of_lt h4] at hblock
    exact ⟨by rwa [hgroup], by rwa [hoffset], by rw [hgroup, hblock]; omega,
      by rw [hgroup, hblock]; omega⟩

end SlotGeom

/-! ## When the slots are in order -/

/-- What is asked of the numbers: there are groups for all inodes, a record fits into what
is left of the block behind every place, the last place is within the table and its
block number within 32 bits, and if the tables do not overlap, there is one inode in a
group or no place starts within the record of another. -/
structure SlotsFit (v : Volume) : Prop where
  groups : v.inodesCount ≤ v.groupsCount * v.inodesPerGroup
  records : 128 ≤ v.inodeSize ∨ (groupInodes v 0 - 1) * v.inodeSize + 128 ≤ v.blockSize
  tables : ∀ g, 0 < groupInodes v g →
    lastTableBlock v g < v.inodeTableBlocksPerGroup ∧ v.inodeTable g + lastTableBlock v g < 2 ^ 32
  apart : TablesApart v → groupInodes v 0 ≤ 1 ∨
    (128 ≤ v.inodeSize ∧ (groupInodes v 0 - 1) * v.inodeSize < 2 ^ 32)

namespace SlotGeom

variable (hv : SlotGeom v)

include hv

/-- With records of a full 128 bytes, none runs over the end of the block. -/
theorem record_in_block (hsize : 128 ≤ v.inodeSize) (k : Nat) :
    k * v.inodeSize % 2 ^ 32 % v.blockSize + 128 ≤ v.blockSize := by
  obtain ⟨c, hc⟩ := hv.size_dvd
  have hpos : 0 < v.blockSize := Nat.lt_of_lt_of_le hv.size_pos hv.size_le
  have hdvd : v.inodeSize ∣ k * v.inodeSize % 2 ^ 32 % v.blockSize := by
    rw [Nat.mod_mod_of_dvd _ hv.blockSize_dvd]
    exact (Nat.dvd_mod_iff hv.size_dvd).mpr (Nat.dvd_mul_left _ _)
  obtain ⟨a, ha⟩ := hdvd
  have hlt := Nat.mod_lt (k * v.inodeSize % 2 ^ 32) hpos
  rw [ha, hc] at hlt
  have hac : a + 1 ≤ c := Nat.lt_of_mul_lt_mul_left hlt
  have hmul := Nat.mul_le_mul_left v.inodeSize hac
  rw [Nat.mul_add, Nat.mul_one] at hmul
  rw [ha, hc]
  omega

/-- With smaller ones, some record does, if there are enough of them. -/
theorem exists_record_out (hsize : v.inodeSize < 128)
    (hmany : v.blockSize < (groupInodes v 0 - 1) * v.inodeSize + 128) :
    ∃ k, k < groupInodes v 0 ∧ v.blockSize < k * v.inodeSize % 2 ^ 32 % v.blockSize + 128 := by
  have hbs := Volume.blockSize_bounds hv.log_le
  have hpos := hv.size_pos
  -- the first place in the last 127 bytes of the block
  have hle := Nat.mul_div_le (v.blockSize - 128) v.inodeSize
  have hlt := Nat.lt_mul_div_succ (v.blockSize - 128) hpos
  have hk : (v.blockSize - 128) / v.inodeSize < groupInodes v 0 - 1 := by
    apply Nat.div_lt_of_lt_mul
    rw [Nat.mul_comm]
    omega
  generalize (v.blockSize - 128) / v.inodeSize = q at *
  rw [Nat.mul_add, Nat.mul_one] at hlt
  have hplace : (q + 1) * v.inodeSize = v.inodeSize * q + v.inodeSize := by
    rw [Nat.add_mul, Nat.one_mul, Nat.mul_comm]
  have hin : (q + 1) * v.inodeSize < v.blockSize := by omega
  refine ⟨q + 1, by omega, ?_⟩
  rw [Nat.mod_eq_of_lt (show (q + 1) * v.inodeSize < 2 ^ 32 by omega), Nat.mod_eq_of_lt hin]
  omega

/-- The slots are in the tables if and only if the first three conditions are met. -/
theorem all_in_table_iff :
    (∀ i, 0 < i → i ≤ v.inodesCount → SlotInTable v i) ↔
      v.inodesCount ≤ v.groupsCount * v.inodesPerGroup ∧
        (128 ≤ v.inodeSize ∨ (groupInodes v 0 - 1) * v.inodeSize + 128 ≤ v.blockSize) ∧
        ∀ g, 0 < groupInodes v g → lastTableBlock v g < v.inodeTableBlocksPerGroup ∧
          v.inodeTable g + lastTableBlock v g < 2 ^ 32 := by
  constructor
  · intro hall
    have hplace : ∀ g k, k < groupInodes v g →
        SlotInTable v (g * v.inodesPerGroup + k + 1) :=
      fun g k hk => hall _ (Nat.succ_pos _) (hv.at_place hk).1
    refine ⟨?_, ?_, ?_⟩
    · by_contra hmore
      -- an inode past the groups
      have hk : 0 < groupInodes v v.groupsCount := by
        have := hv.ipg_pos
        unfold groupInodes
        omega
      exact absurd ((hv.slotInTable_iff hk).mp (hplace _ 0 hk)).1 (Nat.lt_irrefl _)
    · by_contra hsmall
      rw [not_or, Nat.not_le, Nat.not_le] at hsmall
      -- an inode whose record is cut by the end of its block
      obtain ⟨k, hk, hout⟩ := hv.exists_record_out hsmall.1 hsmall.2
      exact absurd ((hv.slotInTable_iff hk).mp (hplace 0 k hk)).2.1 (Nat.not_le_of_lt hout)
    · intro g hg
      obtain ⟨k, hk, hlast⟩ := hv.exists_last hg
      rw [← hlast]
      exact ((hv.slotInTable_iff hk).mp (hplace g k hk)).2.2
  · rintro ⟨hgroups, hrecords, htables⟩ i hi hle
    obtain ⟨g, k, hk, rfl⟩ := hv.exists_place hi hle
    -- the last inode of a group has the last block of its table
    obtain ⟨hlast, hend⟩ := htables g (by omega)
    have hq := tableBlock_le_last hk
    refine (hv.slotInTable_iff hk).mpr ⟨?_, ?_, by omega, by omega⟩
    · by_contra hge
      have hmul := Nat.mul_le_mul_right v.inodesPerGroup (Nat.le_of_not_lt hge)
      unfold groupInodes at hk
      omega
    · rcases hrecords with hsize | hfew
      · exact hv.record_in_block hsize k
      · have hfirst := groupInodes_le v g
        have hbs := Volume.blockSize_bounds hv.log_le
        have hplace : k * v.inodeSize ≤ (groupInodes v 0 - 1) * v.inodeSize :=
          Nat.mul_le_mul_right _ (by omega)
        rw [Nat.mod_eq_of_lt (show k * v.inodeSize < 2 ^ 32 by omega),
          Nat.mod_eq_of_lt (show k * v.inodeSize < v.blockSize by omega)]
        omega

/-- Two places of one group are apart, if records are large enough and no place wraps. -/
theorem places_apart (hsize : 128 ≤ v.inodeSize) {g k l : Nat} (hk : k < groupInodes v g)
    (hl : l < groupInodes v g) (hkl : k < l)
    (hwrap : (groupInodes v 0 - 1) * v.inodeSize < 2 ^ 32)
    (hin : SlotInTable v (g * v.inodesPerGroup + k + 1))
    (hin' : SlotInTable v (g * v.inodesPerGroup + l + 1)) :
    SlotsApart v (g * v.inodesPerGroup + k + 1) (g * v.inodesPerGroup + l + 1) := by
  obtain ⟨-, hgroup, hpos⟩ := hv.at_place hk
  obtain ⟨-, hgroup', hpos'⟩ := hv.at_place hl
  obtain ⟨-, -, -, hend⟩ := (hv.slotInTable_iff hk).mp hin
  obtain ⟨-, -, -, hend'⟩ := (hv.slotInTable_iff hl).mp hin'
  have hfirst := groupInodes_le v g
  have hstep : (k + 1) * v.inodeSize ≤ l * v.inodeSize := Nat.mul_le_mul_right _ hkl
  have hlast : l * v.inodeSize ≤ (groupInodes v 0 - 1) * v.inodeSize :=
    Nat.mul_le_mul_right _ (by omega)
  rw [Nat.add_mul, Nat.one_mul] at hstep
  rw [Nat.mod_eq_of_lt (show k * v.inodeSize < 2 ^ 32 by omega)] at hpos hend
  rw [Nat.mod_eq_of_lt (show l * v.inodeSize < 2 ^ 32 by omega)] at hpos' hend'
  unfold SlotsApart
  rw [hv.tableBlock_eq, hv.tableBlock_eq, hv.offset_eq, hv.offset_eq, hgroup, hgroup', hpos, hpos',
    Nat.mod_eq_of_lt hend, Nat.mod_eq_of_lt hend']
  have hdiv := Nat.div_add_mod (k * v.inodeSize) v.blockSize
  have hdiv' := Nat.div_add_mod (l * v.inodeSize) v.blockSize
  by_cases hsame : k * v.inodeSize / v.blockSize = l * v.inodeSize / v.blockSize
  · rw [hsame] at hdiv
    right
    left
    generalize k * v.inodeSize % v.blockSize = a at *
    generalize l * v.inodeSize % v.blockSize = b at *
    omega
  · left
    intro heq
    exact hsame (Nat.add_left_cancel heq)

end SlotGeom

/-- Every inode has a slot of its own, in the table of its group, if and only if the numbers
fit. -/
theorem slots_fit_iff (hv : SlotGeom v) : SlotsOk v ↔ SlotsFit v := by
  constructor
  · rintro ⟨hin, hapart⟩
    obtain ⟨hgroups, hrecords, htables⟩ := hv.all_in_table_iff.mp hin
    refine ⟨hgroups, hrecords, htables, fun htab => ?_⟩
    by_contra hnot
    rw [not_or, Nat.not_le] at hnot
    obtain ⟨htwo, hnot⟩ := hnot
    have hsize := hv.size_pos
    -- the place of another inode that starts in the record of the first
    obtain ⟨k, hk, hk0, hnear⟩ : ∃ k, k < groupInodes v 0 ∧ 0 < k ∧
        k * v.inodeSize % 2 ^ 32 < 128 ∧ k * v.inodeSize % 2 ^ 32 < v.blockSize := by
      have hbs := Volume.blockSize_bounds hv.log_le
      by_cases hsmall : v.inodeSize < 128
      · refine ⟨1, htwo, Nat.one_pos, ?_⟩
        rw [Nat.one_mul, Nat.mod_eq_of_lt (by omega)]
        omega
      · obtain ⟨d, hd⟩ := Nat.dvd_trans hv.size_dvd hv.blockSize_dvd
        have hwrap : 2 ^ 32 ≤ (groupInodes v 0 - 1) * v.inodeSize :=
          Nat.le_of_not_lt fun hlt => hnot ⟨Nat.le_of_not_lt hsmall, hlt⟩
        have hle : d ≤ groupInodes v 0 - 1 := by
          apply Nat.le_of_mul_le_mul_left _ hsize
          rw [← hd, Nat.mul_comm v.inodeSize]
          exact hwrap
        have hd0 : 0 < d := Nat.pos_of_ne_zero fun h0 => by rw [h0, Nat.mul_zero] at hd; omega
        refine ⟨d, by omega, hd0, ?_⟩
        rw [Nat.mul_comm, ← hd, Nat.mod_self]
        omega
    -- the records of the first inode and of that one overlap
    obtain ⟨hle, hgroup, hpos⟩ := hv.at_place hk
    obtain ⟨hle1, hgroup1, hpos1⟩ := hv.at_place (Nat.zero_lt_of_lt hk)
    rw [Nat.zero_mul v.inodeSize, Nat.zero_mod] at hpos1
    have hshare := (hapart htab _ _ (Nat.succ_pos _) hle1 (Nat.succ_pos _) hle (by omega)).1
    unfold SlotsApart at hshare
    rw [hv.tableBlock_eq, hv.tableBlock_eq, hv.offset_eq, hv.offset_eq, hgroup, hgroup1, hpos,
      hpos1, Nat.div_eq_of_lt hnear.2, Nat.mod_eq_of_lt hnear.2, Nat.zero_div, Nat.zero_mod] at hshare
    rcases hshare with hne | hle | hle
    · exact hne rfl
    · omega
    · omega
  · rintro ⟨hgroups, hrecords, htables, hapart⟩
    have hin := hv.all_in_table_iff.mpr ⟨hgroups, hrecords, htables⟩
    refine ⟨hin, fun htab i j hi hin_i hj hin_j hne => ?_⟩
    have hslots : SlotsApart v i j := by
      have hsi := hin i hi hin_i
      have hsj := hin j hj hin_j
      -- in one group the records are next to each other; the tables are apart
      by_cases hgroup : v.inodeGroup i = v.inodeGroup j
      · obtain ⟨g, k, hk, rfl⟩ := hv.exists_place hi hin_i
        obtain ⟨h, l, hl, rfl⟩ := hv.exists_place hj hin_j
        obtain ⟨-, hg, -⟩ := hv.at_place hk
        obtain ⟨-, hh, -⟩ := hv.at_place hl
        obtain rfl : g = h := by rw [← hg, hgroup, hh]
        have hfirst := groupInodes_le v g
        rcases hapart htab with hone | ⟨hsize, hwrap⟩
        · omega
        rcases Nat.lt_or_ge k l with hkl | hlk
        · exact hv.places_apart hsize hk hl hkl hwrap hsi hsj
        · exact (hv.places_apart hsize hl hk (by omega) hwrap hsj hsi).symm
      · exact htab.slots hsi hsj hgroup
    exact ⟨hslots, hslots.writeKeeps⟩

end Places

/-! ## Every volume that is mounted -/

/-- What is known of a volume that is accepted, and that the numbers the slots are worked
out from are those that were left behind. -/
structure Accepted (m : Mounted) (v : Volume) : Prop extends SlotGeom v where
  block_size : m.blockSize.toNat = v.blockSize
  table_blocks : m.inodeTableBlocksPerGroup.toNat = v.inodeTableBlocksPerGroup
  groups : m.table.groupsCount.toNat = v.groupsCount

section Mount

variable {sb : Superblock} {be : Bool} {d : Device} {host : Volume}

/-- An inode size that is let pass is a power of two. -/
theorem inodeSize_pow {size blockSize : UInt32} (h : inodeSizeIncorrect size blockSize = false)
    (hne : size ≠ 0) : (∃ e, size.toNat = 2 ^ e) ∧ size.toNat ≤ blockSize.toNat := by
  unfold inodeSizeIncorrect at h
  rw [Bool.or_eq_false_iff, decide_eq_false_iff_not, decide_eq_false_iff_not, not_not] at h
  obtain ⟨hand, hle⟩ := h
  have hne' : size.toNat ≠ 0 := ne_zero_toNat.mp hne
  have hsub : (size - 1).toNat = size.toNat - 1 :=
    UInt32.toNat_sub_of_le size 1 (UInt32.le_iff_toNat_le.mpr (Nat.pos_of_ne_zero hne'))
  have hzero := congrArg UInt32.toNat hand
  rw [UInt32.toNat_and, hsub] at hzero
  exact ⟨(Nat.and_sub_one_eq_zero_iff_isPowerOfTwo hne').mp hzero,
    Nat.le_of_not_lt fun hlt => hle (UInt32.lt_iff_toNat_lt.mpr hlt)⟩

theorem readGroupDescs_accepted {blockSize : UInt16} {inodesPerBlock : UInt32}
    (h : Checked sb blockSize inodesPerBlock) :
    Ends (readGroupDescs be d sb blockSize sb.sbInodeSize inodesPerBlock) fun r =>
      ∀ m w, r = (.ok m, w) → Accepted m (m.volume sb be host) := by
  have hpow : 2 ^ sb.logBlockSize.toNat ≤ 2 ^ 5 := Nat.pow_le_pow_right (by omega) h.log_le
  have hvbs : 1024 * 2 ^ sb.logBlockSize.toNat % 2 ^ 16 = blockSize.toNat := by
    rw [h.block_size]
    exact Nat.mod_eq_of_lt (by omega)
  obtain ⟨hsize, hle⟩ := inodeSize_pow h.inode_size h.inode_size_ne
  have hipb : inodesPerBlock.toNat = blockSize.toNat / sb.sbInodeSize.toNat := by
    rw [h.per_block, UInt32.toNat_div]
    rfl
  unfold readGroupDescs
  rw [divU_ok h.per_block_ne]
  refine Ends.bind (P := fun q => q = sb.inodesPerGroup / inodesPerBlock) (.ok rfl) ?_
  rintro _ rfl
  refine Ends.bind (P := fun r => ∀ m : Mounted,
    r.1.groupsCount.toNat = (m.volume sb be host).groupsCount) ?_ ?_
  · unfold groupTable
    refine Ends.bind (sbGroupsCount_volume sb be host) fun groups hgroups => ?_
    dsimp only
    refine Ends.bind (Ends.self _) fun blocks _ => ?_
    exact .ok hgroups
  -- whatever the table is, the volume has these numbers if it is accepted
  rintro ⟨t, w⟩ hgroups
  dsimp only
  split
  · exact .error _
  split
  · exact .ok fun m w hm => nomatch hm
  split
  · exact .ok fun m w hm => nomatch hm
  refine .ok fun m w hm => ?_
  cases hm
  refine ⟨⟨h.log_le, Nat.pos_of_ne_zero (ne_zero_toNat.mp h.per_group_ne), hsize, ?_,
    fun g => UInt32.toNat_lt _⟩, hvbs.symm, ?_, hgroups _⟩
  · show sb.sbInodeSize.toNat ≤ 1024 * 2 ^ sb.logBlockSize.toNat % 2 ^ 16
    rw [hvbs]
    exact hle
  · show (sb.inodesPerGroup / inodesPerBlock).toNat = sb.inodesPerGroup.toNat /
      (1024 * 2 ^ sb.logBlockSize.toNat % 2 ^ 16 / sb.sbInodeSize.toNat)
    rw [UInt32.toNat_div, hipb, hvbs]

theorem readSuperblock_accepted (be : Bool) (d : Device) (host : Volume) :
    Ends (readSuperblock be d) fun r =>
      ∀ m w, r = (.ok m, w) → Accepted m (m.volume (d.superblock be) be host) := by
  refine readSuperblock_ends be d ?_ ?_
  · exact fun e w m w hm => nomatch hm
  · exact fun _ _ h => readGroupDescs_accepted h

end Mount

/-- On a volume that `read_superblock` accepts, every inode has a slot of its own in the
table of its group if and only if the numbers fit. -/
theorem acceptedSlots_iff (be : Bool) (d : Device) (host : Volume) {m : Mounted} {w : Bool}
    (hmount : readSuperblock be d = .ok (.ok m, w)) :
    SlotsOk (m.volume (d.superblock be) be host) ↔ SlotsFit (m.volume (d.superblock be) be host) :=
  slots_fit_iff (readSuperblock_accepted be d host _ hmount m w rfl).toSlotGeom

/-- A device with a superblock of 32 inodes and 32 blocks of 1024 bytes in one group, whose
inode table is in block 5. The size of an inode is a parameter. -/
def oneGroupDevice (inodeSize : UInt8) : Device where
  byte := fun i => match i with
    | 1024 => 32      -- s_inodes_count
    | 1028 => 33      -- s_blocks_count
    | 1044 => 1       -- s_first_data_block
    | 1056 => 32      -- s_blocks_per_group
    | 1064 => 32      -- s_inodes_per_group
    | 1080 => 0x53
    | 1081 => 0xEF
    | 1100 => 1       -- s_rev_level
    | 1112 => inodeSize
    | 2048 => 3
    | 2052 => 4
    | 2056 => 5
    | _ => 0
  read := fun _ n => n
  mmap := true

/-- What is looked at of a mounted device. -/
def mountedNumbers (be : Bool) (d : Device) : Option (Bool × List Nat) :=
  match readSuperblock be d with
  | .ok (.ok m, w) =>
    let v := m.volume (d.superblock be) be sampleVolume
    some (w, [v.inodesCount, v.blockSize, v.inodeSize, v.inodesPerGroup, v.inodeTable 0,
      v.groupsCount])
  | _ => none

theorem mounted_of_numbers (be : Bool) (d : Device) {w : Bool} {l : List Nat}
    (h : mountedNumbers be d = some (w, l)) :
    ∃ m, readSuperblock be d = .ok (.ok m, w) ∧
      let v := m.volume (d.superblock be) be sampleVolume
      l = [v.inodesCount, v.blockSize, v.inodeSize, v.inodesPerGroup, v.inodeTable 0,
        v.groupsCount] := by
  unfold mountedNumbers at h
  split at h
  next m w' hm =>
    cases h
    exact ⟨m, hm, rfl⟩
  · cases h

/-- `acceptedSlots_iff` with inodes of 128 bytes. -/
theorem acceptedSlots_sample : ∃ m,
    readSuperblock false (oneGroupDevice 128) = .ok (.ok m, false) ∧
      (SlotsOk (m.volume ((oneGroupDevice 128).superblock false) false sampleVolume) ↔
        SlotsFit (m.volume ((oneGroupDevice 128).superblock false) false sampleVolume)) := by
  obtain ⟨m, hm, -⟩ := mounted_of_numbers false (oneGroupDevice 128) (w := false)
    (l := [32, 1024, 128, 32, 5, 1]) (by decide +kernel)
  exact ⟨m, hm, acceptedSlots_iff false _ sampleVolume hm⟩

/-- Inodes of 64 bytes are accepted, and the record of number 16 runs over the end of its
block. -/
theorem acceptedSlots_small : ∃ m,
    readSuperblock false (oneGroupDevice 64) = .ok (.ok m, false) ∧
      ¬ SlotsOk (m.volume ((oneGroupDevice 64).superblock false) false sampleVolume) := by
  obtain ⟨m, hm, hl⟩ := mounted_of_numbers false (oneGroupDevice 64) (w := false)
    (l := [32, 1024, 64, 32, 5, 1]) (by decide +kernel)
  refine ⟨m, hm, fun hok => ?_⟩
  dsimp only at hl
  generalize m.volume ((oneGroupDevice 64).superblock false) false sampleVolume = v at *
  injection hl with hcount hl
  injection hl with hblock hl
  injection hl with hsize hl
  injection hl with hipg hl
  have hslot := (hok.in_table 16 (by decide) (by omega)).one_block
  rw [Volume.inodeOffset, Volume.inodePos, ← hblock, ← hsize, ← hipg] at hslot
  exact absurd hslot (by decide)

end Cheviot.Ext2
