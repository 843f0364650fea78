import Cheviot.Ext2.NewInode
import Cheviot.Lib.Scan

/-!
# Which group

Three functions look for a group: `alloc_block` for a block near a goal,
`find_free_inode_file_group` for an inode near the directory, and
`find_free_inode_dir_group` for an inode where there is room.

* `allocBlock_near_iff` — `alloc_block` starts at group 0 whatever the goal is; when that
  is the group nearest the goal all the same.
* `findFreeInodeFileGroup_eq` — the search near the directory asks the directory's group
  again and again; what it answers, as one equation.
* `findFreeInodeFileGroup_ok_iff` — when this answer is a group with a free inode.
* `findFreeInodeDirGroup_ok` — the search for room finds the best of all groups, if the
  32-bit numbers of the groups it looks at do not wrap.
-/

namespace Cheviot.Ext2

open Cheviot.Scan

variable {v : Volume} {s s' : Fs}

/-! ## A block near a goal -/

section Near

/-- Group `g` has a free block. -/
def HasFreeBlock (v : Volume) (s : Fs) (g : Nat) : Prop :=
  ∃ i, i < v.blocksPerGroup ∧ bbit v s g i = false

/-- The block to be near to: the one asked for, or the first of the inode's group. -/
def goalBlock (v : Volume) (ino goal : Nat) : Nat :=
  if goal = noBlock then blockOf v (v.inodeGroup ino) 0 else goal

/-- The group of the goal. -/
def goalGroup (v : Volume) (ino goal : Nat) : Nat :=
  (goalBlock v ino goal - v.firstDataBlock) / v.blocksPerGroup

/-- What `alloc_block` is called with: an inode of the volume, or a block that can hold data. -/
def GoalOk (v : Volume) (ino goal : Nat) : Prop :=
  (goal = noBlock ∧ OnVolume v ino) ∨ DataBlock v goal

theorem hasFreeBlock_iff (hs : BlockConsistent v s) {g : Nat} (hg : g < v.groupsCount) :
    HasFreeBlock v s g ↔ (s.gd g).freeBlocksCount ≠ 0 := by
  constructor
  · rintro ⟨i, hi, hclear⟩
    exact hs.gd_ne_zero hg hi hclear
  · intro hne
    by_contra hnone
    apply hne
    apply UInt16.toNat_inj.mp
    rw [hs.free_count g hg]
    show Nat.count _ _ = 0
    rw [Nat.count_iff_forall_not]
    exact fun i hi hclear => hnone ⟨i, hi, hclear⟩

/-- The first block of a group is on the volume. -/
theorem blockOf_zero_lt (hv : BlockGeom v) {g : Nat} (hg : g < v.groupsCount) :
    blockOf v g 0 < v.blocksCount := by
  have h1 := hv.first_lt
  have h2 := hv.blocks_lt
  have hgroups : v.groupsCount ≤ (v.blocksCount - v.firstDataBlock - 1) / v.blocksPerGroup + 1 := by
    unfold Volume.groupsCount
    rw [show (v.blocksCount + 2 * 2 ^ 32 - v.firstDataBlock - 1) % 2 ^ 32 =
      v.blocksCount - v.firstDataBlock - 1 from by omega]
    exact Nat.mod_le _ _
  have hle : g * v.blocksPerGroup ≤ v.blocksCount - v.firstDataBlock - 1 := by
    apply (Nat.le_div_iff_mul_le hv.bpg_pos).mp
    omega
  unfold blockOf
  omega

theorem goalBlock_bounds (hv : BlockGeom v) {ino goal : Nat} (hgoal : GoalOk v ino goal) :
    v.firstDataBlock ≤ goalBlock v ino goal ∧ goalBlock v ino goal < v.blocksCount := by
  unfold goalBlock
  rcases hgoal with ⟨rfl, hino⟩ | hdata
  · rw [if_pos rfl]
    refine ⟨by unfold blockOf; omega, blockOf_zero_lt hv (inodeGroup_lt hino)⟩
  · rw [if_neg hdata.ne_noBlock]
    exact ⟨hdata.1, hdata.2.1⟩

/-- The code works the goal out as it should. -/
theorem allocGoal_eq (hv : BlockGeom v) (env : Env) {ino goal : Nat} (hgoal : GoalOk v ino goal) :
    allocGoal v env ino goal = goalBlock v ino goal := by
  obtain ⟨hlo, hhi⟩ := goalBlock_bounds hv hgoal
  have h32 := hv.blocks_lt
  have hgoal' : (if goal = noBlock then
      (v.blocksPerGroup * (pred32 ino / v.inodesPerGroup) + v.firstDataBlock) % 2 ^ 32
      else goal) = goalBlock v ino goal := by
    unfold goalBlock at hlo hhi ⊢
    split
    next hno =>
      rw [if_pos hno] at hhi
      have hsame : v.blocksPerGroup * (pred32 ino / v.inodesPerGroup) + v.firstDataBlock =
          blockOf v (v.inodeGroup ino) 0 := by
        unfold blockOf Volume.inodeGroup
        rw [Nat.mul_comm]
        omega
      rw [hsame, Nat.mod_eq_of_lt (Nat.lt_trans hhi h32)]
    next => rfl
  unfold allocGoal
  dsimp only
  rw [hgoal', if_neg]
  rintro (hge | ⟨hlt, -⟩) <;> omega

theorem goalGroup_lt (hv : BlockGeom v) {ino goal : Nat} (hgoal : GoalOk v ino goal) :
    goalGroup v ino goal < v.groupsCount := by
  obtain ⟨hlo, hhi⟩ := goalBlock_bounds hv hgoal
  obtain ⟨g, i, hg, hi, heq⟩ := exists_blockOf hv hlo hhi
  unfold goalGroup
  rw [← heq, (blockOf_div_mod hi).1]
  exact hg

/-- A block that `alloc_block` returns is in the group nearest the goal if and only if no
group before the goal's has a free block, or none from the goal's on has. -/
theorem allocBlock_near_iff (hv : BlockGeom v) (hs : BlockConsistent v s) (env : Env)
    {ino goal b : Nat} (hgoal : GoalOk v ino goal)
    (hrun : allocBlock v env s ino goal = .ok (s', b)) (hb : b ≠ noBlock) :
    CyclicFirst (HasFreeBlock v s) v.groupsCount (goalGroup v ino goal)
        ((b - v.firstDataBlock) / v.blocksPerGroup) ↔
      (∀ g, g < goalGroup v ino goal → ¬ HasFreeBlock v s g) ∨
        ∀ g, goalGroup v ino goal ≤ g → g < v.groupsCount → ¬ HasFreeBlock v s g := by
  have hlt := goalGroup_lt hv hgoal
  rcases allocBlock_first hv hs env ino goal with
    ⟨hnone, -⟩ | ⟨g, i, hg, hi, hclear, hbefore, hrun'⟩
  · rw [hnone] at hrun
    cases hrun
    exact absurd rfl hb
  · rw [hrun'] at hrun
    cases hrun
    rw [(blockOf_div_mod hi).1]
    apply cyclicFirst_iff hlt hg ⟨i, hi, hclear⟩
    intro h hh hfree
    exact (hasFreeBlock_iff hs (Nat.lt_trans hh hg)).mp hfree (hbefore h hh)

/-- The small volume with a second group of blocks and inodes. -/
def sampleTwoGroups : Volume where
  __ := sampleVolume
  inodesCount := 64
  blocksCount := 65
  blockBitmap := fun g => if g = 0 then 3 else 35
  inodeBitmap := fun g => if g = 0 then 4 else 36
  inodeTable := fun g => if g = 0 then 5 else 37

/-- A filesystem with free blocks in both groups. -/
def sampleTwoGroupsFs : Fs where
  __ := sampleFs
  freeBlocksCount := 47
  freeInodesCount := 54
  gd := fun g => if g = 0 then ⟨23, 22, 1⟩ else ⟨24, 32, 0⟩
  blk := fun b => match b with
    | 35 => fun i => match i with
      | 0 => 0xFF | _ => 0
    | b => sampleBlk b

theorem sampleTwoGroups_blockGeom : BlockGeom sampleTwoGroups where
  log_le := by decide
  bpg_pos := by decide
  bpg_le := by decide
  bpg_lt := by decide
  first_lt := by decide
  blocks_lt := by decide
  block_bitmap_inj := by
    intro g h hg hh heq
    have htwo : sampleTwoGroups.groupsCount = 2 := by decide
    simp only [sampleTwoGroups] at heq
    split at heq <;> split at heq <;> omega

theorem sampleTwoGroupsFs_blockConsistent : BlockConsistent sampleTwoGroups sampleTwoGroupsFs where
  free_count := by decide
  free_sum := by decide
  system := by decide
  past := by decide

/-- Wherever the goal is, the block comes from the first group. -/
theorem sampleTwoGroups_alloc (goal : Nat) : ∃ s' b,
    allocBlock sampleTwoGroups sampleEnv sampleTwoGroupsFs 2 goal = .ok (s', b) ∧
      b ≠ noBlock ∧ (b - sampleTwoGroups.firstDataBlock) / sampleTwoGroups.blocksPerGroup = 0 := by
  rcases allocBlock_first sampleTwoGroups_blockGeom sampleTwoGroupsFs_blockConsistent sampleEnv 2
    goal with ⟨-, hfull⟩ | ⟨g, i, hg, hi, hclear, hbefore, hrun⟩
  · exact absurd (hfull 0 9 (by decide) (by decide)) (by decide)
  · have hg0 : g = 0 := by
      by_contra hne
      exact absurd (hbefore 0 (Nat.pos_of_ne_zero hne)) (by decide)
    subst hg0
    have hdata := sampleTwoGroupsFs_blockConsistent.dataBlock hg hi hclear
    exact ⟨_, _, hrun, hdata.ne_noBlock, (blockOf_div_mod hi).1⟩

/-- `allocBlock_near_iff` with a goal in the first group. -/
theorem allocBlock_near_sample : ∃ s' b,
    allocBlock sampleTwoGroups sampleEnv sampleTwoGroupsFs 2 20 = .ok (s', b) ∧
      (CyclicFirst (HasFreeBlock sampleTwoGroups sampleTwoGroupsFs) sampleTwoGroups.groupsCount
          (goalGroup sampleTwoGroups 2 20)
          ((b - sampleTwoGroups.firstDataBlock) / sampleTwoGroups.blocksPerGroup) ↔
        (∀ g, g < goalGroup sampleTwoGroups 2 20 →
          ¬ HasFreeBlock sampleTwoGroups sampleTwoGroupsFs g) ∨
        ∀ g, goalGroup sampleTwoGroups 2 20 ≤ g → g < sampleTwoGroups.groupsCount →
          ¬ HasFreeBlock sampleTwoGroups sampleTwoGroupsFs g) := by
  obtain ⟨s', b, hrun, hb, -⟩ := sampleTwoGroups_alloc 20
  have hgoal : GoalOk sampleTwoGroups 2 20 := .inr ⟨by decide, by decide, by decide⟩
  exact ⟨s', b, hrun, allocBlock_near_iff sampleTwoGroups_blockGeom
    sampleTwoGroupsFs_blockConsistent sampleEnv hgoal hrun hb⟩

/-- Block 50 and its group have room, and the block is taken from the group before. -/
theorem allocBlock_far : ∃ s' b,
    BlockGeom sampleTwoGroups ∧ BlockConsistent sampleTwoGroups sampleTwoGroupsFs ∧
      GoalOk sampleTwoGroups 2 50 ∧
      allocBlock sampleTwoGroups sampleEnv sampleTwoGroupsFs 2 50 = .ok (s', b) ∧ b ≠ noBlock ∧
      ¬ CyclicFirst (HasFreeBlock sampleTwoGroups sampleTwoGroupsFs) sampleTwoGroups.groupsCount
        (goalGroup sampleTwoGroups 2 50)
        ((b - sampleTwoGroups.firstDataBlock) / sampleTwoGroups.blocksPerGroup) := by
  obtain ⟨s', b, hrun, hb, hgroup0⟩ := sampleTwoGroups_alloc 50
  refine ⟨s', b, sampleTwoGroups_blockGeom, sampleTwoGroupsFs_blockConsistent,
    .inr ⟨by decide, by decide, by decide⟩, hrun, hb, ?_⟩
  rw [hgroup0]
  rintro ⟨k, hk, hgroup, -, hnone⟩
  have hgoal : goalGroup sampleTwoGroups 2 50 = 1 := by decide
  have htwo : sampleTwoGroups.groupsCount = 2 := by decide
  rw [hgoal, htwo] at hgroup hnone
  have hk0 : k ≠ 0 := by
    rintro rfl
    omega
  exact hnone 0 (Nat.pos_of_ne_zero hk0) ⟨17, by decide, by decide⟩

end Near

/-! ## An inode near the directory -/

section FileGroup

variable {gd : GroupDesc}

/-- The quadratic search asks the same descriptor on every turn, so it finds nothing. It
ends before the 32-bit `t` overflows. -/
theorem fileGroupQuadratic_none (hcount : v.groupsCount ≤ 2 ^ 31)
    (hfull : ¬ (gd.freeInodesCount ≠ 0 ∧ gd.freeBlocksCount ≠ 0)) :
    ∀ fuel k group : Nat, k + fuel = 33 → k ≤ 31 →
      fileGroupQuadratic v gd fuel (2 ^ k) group = .ok none := by
  intro fuel
  induction fuel with
  | zero =>
    intro k group hsum hk
    omega
  | succ fuel ih =>
    intro k group hsum hk
    unfold fileGroupQuadratic
    by_cases hlt : 2 ^ k < v.groupsCount
    · rw [if_pos hlt]
      have hk' : k < 31 := (Nat.pow_lt_pow_iff_right (by decide)).mp (Nat.lt_of_lt_of_le hlt hcount)
      have hdouble : 2 ^ k * 2 % 2 ^ 32 = 2 ^ (k + 1) := by
        rw [← Nat.pow_succ]
        exact Nat.mod_eq_of_lt (Nat.pow_lt_pow_right (by decide) (by omega))
      dsimp only
      rw [if_neg hfull, hdouble]
      exact ih (k + 1) _ (by omega) (by omega)
    · rw [if_neg hlt]

/-- With more than `2 ^ 31` groups `t` becomes 0 and stays 0. -/
theorem fileGroupQuadratic_hang (hcount : 2 ^ 31 < v.groupsCount)
    (hfull : ¬ (gd.freeInodesCount ≠ 0 ∧ gd.freeBlocksCount ≠ 0)) :
    ∀ fuel k group : Nat, k + fuel = 33 →
      fileGroupQuadratic v gd fuel (2 ^ k % 2 ^ 32) group = .error .hang := by
  intro fuel
  induction fuel with
  | zero => exact fun k group hsum => rfl
  | succ fuel ih =>
    intro k group hsum
    have hlt : 2 ^ k % 2 ^ 32 < v.groupsCount := by
      rcases Nat.lt_or_ge k 32 with hk | hk
      · have hpow : 2 ^ k ≤ 2 ^ 31 := Nat.pow_le_pow_right (by decide) (by omega)
        exact Nat.lt_of_le_of_lt (Nat.mod_le _ _) (Nat.lt_of_le_of_lt hpow hcount)
      · obtain rfl : k = 32 := by omega
        rw [Nat.mod_self]
        omega
    unfold fileGroupQuadratic
    dsimp only
    rw [if_pos hlt, if_neg hfull, Nat.mod_mul_mod, ← Nat.pow_succ]
    exact ih (k + 1) _ (by omega)

/-- What the linear search finds, it finds on the first turn. -/
theorem fileGroupLinear_none (h0 : gd.freeInodesCount = 0) (n group : Nat) :
    fileGroupLinear v gd n group = none := by
  induction n generalizing group with
  | zero => rfl
  | succ n ih =>
    unfold fileGroupLinear
    dsimp only
    rw [if_neg fun hne => hne h0]
    exact ih _

theorem fileGroupLinear_some (hne : gd.freeInodesCount ≠ 0) {n : Nat} (hn : 0 < n) (group : Nat) :
    fileGroupLinear v gd n group = some ((group + 1) % 2 ^ 32 % v.groupsCount) := by
  obtain ⟨n, rfl⟩ : ∃ m, n = m + 1 := ⟨n - 1, by omega⟩
  unfold fileGroupLinear
  dsimp only
  rw [if_pos hne]

/-- What `find_free_inode_file_group` answers: the directory's group, or the one behind it,
or none, all by the counters of the directory's group. -/
theorem findFreeInodeFileGroup_eq (v : Volume) (s : Fs) (parentIno : Nat) :
    findFreeInodeFileGroup v s parentIno =
      let parent := v.inodeGroup parentIno
      if v.groupsCount ≤ parent then .error .outOfBounds
      else if (s.gd parent).freeInodesCount ≠ 0 ∧ (s.gd parent).freeBlocksCount ≠ 0 then
        .ok (some parent)
      else if 2 ^ 31 < v.groupsCount then .error .hang
      else if (s.gd parent).freeInodesCount ≠ 0 then .ok (some ((parent + 1) % v.groupsCount))
      else .ok none := by
  unfold findFreeInodeFileGroup Volume.inodeGroup
  dsimp only
  by_cases hparent : v.groupsCount ≤ pred32 parentIno / v.inodesPerGroup
  · rw [if_pos hparent, if_pos hparent]
  rw [if_neg hparent, if_neg hparent]
  by_cases hroom : (s.gd (pred32 parentIno / v.inodesPerGroup)).freeInodesCount ≠ 0 ∧
      (s.gd (pred32 parentIno / v.inodesPerGroup)).freeBlocksCount ≠ 0
  · rw [if_pos hroom, if_pos hroom]
  rw [if_neg hroom, if_neg hroom]
  by_cases hmany : 2 ^ 31 < v.groupsCount
  · have hhang := fileGroupQuadratic_hang hmany hroom 33 0
    rw [Nat.pow_zero, Nat.mod_eq_of_lt (by decide)] at hhang
    rw [if_pos hmany, hhang _ (by decide)]
    rfl
  · have hnone := fileGroupQuadratic_none (Nat.le_of_not_lt hmany) hroom 33 0
    rw [Nat.pow_zero] at hnone
    rw [if_neg hmany, bind_of_ok (hnone _ (by decide) (by decide))]
    show Except.ok (fileGroupLinear v _ _ _) = _
    by_cases hne : (s.gd (pred32 parentIno / v.inodesPerGroup)).freeInodesCount ≠ 0
    · have hlt := Nat.lt_of_not_le hparent
      have hnext : pred32 parentIno / v.inodesPerGroup + 1 < 2 ^ 32 :=
        Nat.lt_of_le_of_lt (Nat.succ_le_of_lt hlt) (by omega)
      rw [if_pos hne, fileGroupLinear_some hne (Nat.zero_lt_of_lt hlt), Nat.mod_eq_of_lt hnext]
    · rw [if_neg hne, fileGroupLinear_none (Decidable.not_not.mp hne)]

/-- No group has a free inode. -/
def NoFreeInode (v : Volume) (s : Fs) : Prop :=
  ∀ g, g < v.groupsCount → (s.gd g).freeInodesCount = 0

/-- The call answers: with no group if and only if no group has a free inode, and else with
a group that has one. -/
def FileGroupOk (v : Volume) (s : Fs) (r : Except Fault (Option Nat)) : Prop :=
  ∃ group, r = .ok group ∧ (group = none ↔ NoFreeInode v s) ∧
    ∀ g, group = some g → g < v.groupsCount ∧ (s.gd g).freeInodesCount ≠ 0

theorem fileGroupOk_none : FileGroupOk v s (.ok none) ↔ NoFreeInode v s := by
  constructor
  · rintro ⟨group, hrun, hnone, -⟩
    cases hrun
    exact hnone.mp rfl
  · intro h
    exact ⟨none, rfl, ⟨fun _ => h, fun _ => rfl⟩, fun g hg => nomatch hg⟩

theorem fileGroupOk_some {g : Nat} (hg : g < v.groupsCount) :
    FileGroupOk v s (.ok (some g)) ↔ (s.gd g).freeInodesCount ≠ 0 := by
  constructor
  · rintro ⟨group, hrun, -, hsome⟩
    cases hrun
    exact (hsome g rfl).2
  · intro hne
    refine ⟨some g, rfl, ⟨fun h => (nomatch h), fun h => absurd (h g hg) hne⟩, fun h hh => ?_⟩
    cases hh
    exact ⟨hg, hne⟩

theorem not_fileGroupOk_error {e : Fault} : ¬ FileGroupOk v s (.error e) :=
  fun ⟨_, hrun, _⟩ => nomatch hrun

/-- The search near the directory is right if and only if the directory's group has a free
inode and a free block, or has no free inode like all others, or has a free inode and so
has the group behind. -/
theorem findFreeInodeFileGroup_ok_iff (v : Volume) (s : Fs) (parentIno : Nat) :
    FileGroupOk v s (findFreeInodeFileGroup v s parentIno) ↔
      let parent := v.inodeGroup parentIno
      parent < v.groupsCount ∧
        ((s.gd parent).freeInodesCount ≠ 0 ∧ (s.gd parent).freeBlocksCount ≠ 0 ∨
          v.groupsCount ≤ 2 ^ 31 ∧
            (NoFreeInode v s ∨ (s.gd parent).freeInodesCount ≠ 0 ∧
              (s.gd ((parent + 1) % v.groupsCount)).freeInodesCount ≠ 0)) := by
  rw [findFreeInodeFileGroup_eq]
  dsimp only
  by_cases hparent : v.groupsCount ≤ v.inodeGroup parentIno
  · rw [if_pos hparent]
    exact ⟨fun h => absurd h not_fileGroupOk_error, fun h => absurd h.1 (by omega)⟩
  have hlt : v.inodeGroup parentIno < v.groupsCount := Nat.lt_of_not_le hparent
  rw [if_neg hparent]
  by_cases hroom : (s.gd (v.inodeGroup parentIno)).freeInodesCount ≠ 0 ∧
      (s.gd (v.inodeGroup parentIno)).freeBlocksCount ≠ 0
  · rw [if_pos hroom, fileGroupOk_some hlt]
    exact ⟨fun _ => ⟨hlt, .inl hroom⟩, fun _ => hroom.1⟩
  rw [if_neg hroom]
  by_cases hmany : 2 ^ 31 < v.groupsCount
  · rw [if_pos hmany]
    -- the loop counts its groups in an `int`, which comes around
    refine ⟨fun h => absurd h not_fileGroupOk_error, ?_⟩
    rintro ⟨-, h | h⟩
    · exact absurd h hroom
    · exact absurd h.1 (by omega)
  rw [if_neg hmany]
  have hle : v.groupsCount ≤ 2 ^ 31 := Nat.le_of_not_lt hmany
  by_cases hne : (s.gd (v.inodeGroup parentIno)).freeInodesCount ≠ 0
  · rw [if_pos hne, fileGroupOk_some (Nat.mod_lt _ (Nat.zero_lt_of_lt hlt))]
    -- the loop looks at the group of the parent on every turn, and answers with the next
    refine ⟨fun h => ⟨hlt, .inr ⟨hle, .inr ⟨hne, h⟩⟩⟩, ?_⟩
    rintro ⟨-, h | ⟨-, h | h⟩⟩
    · exact absurd h hroom
    · exact absurd (h _ hlt) hne
    · exact h.2
  · rw [if_neg hne, fileGroupOk_none]
    refine ⟨fun h => ⟨hlt, .inr ⟨hle, .inl h⟩⟩, ?_⟩
    rintro ⟨-, h | ⟨-, h | h⟩⟩
    · exact absurd h hroom
    · exact h
    · exact absurd h.1 hne

/-- The first group has no free inode left, the second has: the search says there is none. -/
theorem findFreeInodeFileGroup_misses :
    ¬ FileGroupOk sampleTwoGroups
      { sampleTwoGroupsFs with gd := fun g => if g = 0 then ⟨23, 0, 1⟩ else ⟨24, 32, 0⟩ }
      (findFreeInodeFileGroup sampleTwoGroups
        { sampleTwoGroupsFs with gd := fun g => if g = 0 then ⟨23, 0, 1⟩ else ⟨24, 32, 0⟩ } 2) := by
  rintro ⟨group, hrun, hnone, -⟩
  have hanswer : (findFreeInodeFileGroup sampleTwoGroups { sampleTwoGroupsFs with
      gd := fun g => if g = 0 then ⟨23, 0, 1⟩ else ⟨24, 32, 0⟩ } 2) = .ok none := by
    rw [findFreeInodeFileGroup_eq]
    dsimp only
    rw [if_neg (by decide), if_neg (by decide), if_neg (by decide), if_neg (by decide)]
  rw [hanswer] at hrun
  cases hrun
  exact absurd (hnone.mp rfl 1 (by decide)) (by decide)

end FileGroup

/-! ## An inode where there is room -/

section DirGroup

/-- Where the search for room starts. -/
def dirSearchStart (v : Volume) (env : Env) (parentIno : Nat) : Nat :=
  if parentIno = rootIno then env.rand % v.groupsCount else v.inodeGroup parentIno

/-- Group `g` has a free inode, and as many as the average. -/
def Roomy (v : Volume) (s : Fs) (g : Nat) : Prop :=
  (s.gd g).freeInodesCount ≠ 0 ∧
    s.freeInodesCount.toNat / v.groupsCount ≤ (s.gd g).freeInodesCount.toNat

/-- `s_free_inodes_count` is the sum over the groups. -/
def FreeInodesSum (v : Volume) (s : Fs) : Prop :=
  s.freeInodesCount.toNat = ∑ g ∈ Finset.range v.groupsCount, (s.gd g).freeInodesCount.toNat

/-- No group is found if and only if no inode is free, and a group that is found has the most
free blocks of those with room. -/
def DirGroupOk (v : Volume) (s : Fs) (r : Option Nat) : Prop :=
  (r = none ↔ NoFreeInode v s) ∧
    ∀ g, r = some g → (g < v.groupsCount ∧ Roomy v s g) ∧
      ∀ h, h < v.groupsCount → Roomy v s h →
        (s.gd h).freeBlocksCount.toNat ≤ (s.gd g).freeBlocksCount.toNat

/-- If any inode is free, then some group has room. -/
theorem exists_roomy (hsum : FreeInodesSum v s) (h : ¬ NoFreeInode v s) :
    ∃ g, g < v.groupsCount ∧ Roomy v s g := by
  have hsome : ∃ g, g < v.groupsCount ∧ (s.gd g).freeInodesCount.toNat ≠ 0 := by
    by_contra hnone
    apply h
    intro g hg
    by_contra hne
    exact hnone ⟨g, hg, fun h0 => hne (UInt16.toNat_inj.mp h0)⟩
  obtain ⟨g, hg, hne, hle⟩ := exists_ge_average hsome
  refine ⟨g, hg, fun h0 => hne (by rw [h0]; rfl), ?_⟩
  rw [hsum]
  exact hle

/-- The average fits in an `int`: no group has more than 65535 free inodes. -/
theorem average_int (hsum : FreeInodesSum v s) :
    offT (s.freeInodesCount.toNat / v.groupsCount) =
      (s.freeInodesCount.toNat / v.groupsCount : Nat) := by
  have hle : s.freeInodesCount.toNat ≤ v.groupsCount * 65535 := by
    rw [hsum]
    apply Nat.le_trans (Finset.sum_le_card_nsmul _ _ 65535 _)
    · rw [Finset.card_range]
      exact Nat.le_refl _
    · intro g _
      have := (s.gd g).freeInodesCount.toNat_lt
      omega
  have hdiv : s.freeInodesCount.toNat / v.groupsCount ≤ 65535 := Nat.div_le_of_le_mul hle
  exact if_pos (by omega)

/-- The groups of the first `t` turns. -/
def Visited (v : Volume) (start t g : Nat) : Prop :=
  ∃ u, u < t ∧ g = (start + u) % 2 ^ 32 % v.groupsCount

theorem visited_succ {start t g : Nat} :
    Visited v start (t + 1) g ↔
      Visited v start t g ∨ g = (start + t) % 2 ^ 32 % v.groupsCount := by
  constructor
  · rintro ⟨u, hu, rfl⟩
    rcases Nat.lt_or_ge u t with hlt | hge
    · exact .inl ⟨u, hlt, rfl⟩
    · obtain rfl : u = t := by omega
      exact .inr rfl
  · rintro (⟨u, hu, rfl⟩ | rfl)
    · exact ⟨u, by omega, rfl⟩
    · exact ⟨t, by omega, rfl⟩

/-- The loop holds the best group of those it has looked at. -/
theorem dirGroupLoop_best (v : Volume) (s : Fs) (avg : Int) (start : Nat) :
    ∀ (n t : Nat) (best : Option Nat),
      Best (Visited v start t)
        (fun g => ¬ ((s.gd g).freeInodesCount = 0 ∨ ((s.gd g).freeInodesCount.toNat : Int) < avg))
        (fun g => (s.gd g).freeBlocksCount.toNat) best →
      Best (Visited v start (t + n))
        (fun g => ¬ ((s.gd g).freeInodesCount = 0 ∨ ((s.gd g).freeInodesCount.toNat : Int) < avg))
        (fun g => (s.gd g).freeBlocksCount.toNat) (dirGroupLoop v s avg start n t best) := by
  intro n
  induction n with
  | zero => exact fun t best hbest => hbest
  | succ n ih =>
    intro t best hbest
    rw [show t + (n + 1) = t + 1 + n from by omega]
    unfold dirGroupLoop
    dsimp only
    split
    next hskip =>
      apply ih
      exact (hbest.skip (not_not_intro hskip)).congr fun g => visited_succ
    next hroom =>
      cases best with
      | none =>
        apply ih
        exact (hbest.start hroom).congr fun g => visited_succ
      | some b =>
        dsimp only
        split
        next hlt =>
          apply ih
          exact (hbest.better hroom (UInt16.lt_iff_toNat_lt.mp hlt)).congr fun g => visited_succ
        next hge =>
          have hle := Nat.le_of_not_lt fun h => hge (UInt16.lt_iff_toNat_lt.mpr h)
          apply ih
          exact (hbest.worse hle).congr fun g => visited_succ

/-- The loop looks at every group, unless the number of a turn's group wraps. -/
theorem visited_all {start : Nat} (hwrap : start + v.groupsCount ≤ 2 ^ 32) (g : Nat) :
    Visited v start v.groupsCount g ↔ g < v.groupsCount := by
  constructor
  · rintro ⟨u, hu, rfl⟩
    exact Nat.mod_lt _ (Nat.zero_lt_of_lt hu)
  · intro hg
    obtain ⟨u, hu, hgu⟩ := exists_cyclic hg start
    refine ⟨u, hu, ?_⟩
    rw [Nat.mod_eq_of_lt (show start + u < 2 ^ 32 by omega), hgu]

/-- What the search is the best of. -/
theorem findFreeInodeDirGroup_best (v : Volume) (env : Env) (s : Fs) (parentIno : Nat) :
    Best (Visited v (dirSearchStart v env parentIno) v.groupsCount)
      (fun g => ¬ ((s.gd g).freeInodesCount = 0 ∨
        ((s.gd g).freeInodesCount.toNat : Int) < offT (s.freeInodesCount.toNat / v.groupsCount)))
      (fun g => (s.gd g).freeBlocksCount.toNat) (findFreeInodeDirGroup v env s parentIno) := by
  have hbest := dirGroupLoop_best v s (offT (s.freeInodesCount.toNat / v.groupsCount))
    (dirSearchStart v env parentIno) v.groupsCount 0 none (by rintro g ⟨u, hu, -⟩; omega)
  rwa [Nat.zero_add] at hbest

theorem findFreeInodeDirGroup_some {env : Env} {parentIno g : Nat}
    (h : findFreeInodeDirGroup v env s parentIno = some g) :
    Visited v (dirSearchStart v env parentIno) v.groupsCount g ∧
      (s.gd g).freeInodesCount ≠ 0 := by
  have hbest := findFreeInodeDirGroup_best v env s parentIno
  rw [h] at hbest
  exact ⟨hbest.1.1, fun h0 => hbest.1.2 (.inl h0)⟩

theorem roomy_eq (hsum : FreeInodesSum v s) :
    Roomy v s = fun g => ¬ ((s.gd g).freeInodesCount = 0 ∨
      ((s.gd g).freeInodesCount.toNat : Int) < offT (s.freeInodesCount.toNat / v.groupsCount)) := by
  funext g
  rw [average_int hsum, Int.ofNat_lt, not_or, Nat.not_lt]
  rfl

/-- The search for room is right, if the number of the group it starts from and the number
of groups do not add up to more than 32 bits hold. -/
theorem findFreeInodeDirGroup_ok (hsum : FreeInodesSum v s) (env : Env) (parentIno : Nat)
    (hwrap : dirSearchStart v env parentIno + v.groupsCount ≤ 2 ^ 32) :
    DirGroupOk v s (findFreeInodeDirGroup v env s parentIno) := by
  have hbest := (findFreeInodeDirGroup_best v env s parentIno).congr fun g =>
    (visited_all hwrap g).symm
  rw [← roomy_eq hsum] at hbest
  cases hr : findFreeInodeDirGroup v env s parentIno with
  | none =>
    rw [hr] at hbest
    refine ⟨⟨fun _ => ?_, fun _ => rfl⟩, fun g hg => nomatch hg⟩
    by_contra hfree
    obtain ⟨g, hg, hroom⟩ := exists_roomy hsum hfree
    exact hbest g hg hroom
  | some b =>
    rw [hr] at hbest
    obtain ⟨⟨hb, hroom⟩, hmax⟩ := hbest
    refine ⟨⟨fun h => (nomatch h), fun hnone => absurd (hnone b hb) hroom.1⟩, fun g hg => ?_⟩
    cases hg
    exact ⟨⟨hb, hroom⟩, hmax⟩

/-- `findFreeInodeDirGroup_ok` on the volume with two groups, below the root. -/
theorem findFreeInodeDirGroup_ok_sample :
    DirGroupOk sampleTwoGroups sampleTwoGroupsFs
      (findFreeInodeDirGroup sampleTwoGroups sampleEnv sampleTwoGroupsFs 2) :=
  findFreeInodeDirGroup_ok (by unfold FreeInodesSum; decide) sampleEnv 2 (by decide)

/-- Groups of one block and one inode, as many as there can be. -/
def sampleManyGroups : Volume where
  __ := sampleVolume
  inodesCount := 2 ^ 32 - 1
  blocksCount := 2 ^ 32 - 1
  firstDataBlock := 0
  blocksPerGroup := 1
  inodesPerGroup := 1

/-- One inode is free. -/
def sampleManyGroupsFs : Fs where
  __ := sampleFs
  freeInodesCount := 1
  gd := fun g => if g = 2 ^ 32 - 3 then ⟨0, 1, 0⟩ else ⟨0, 0, 0⟩

/-- From the last group on, the numbers of the groups wrap, and the one with the free inode
is never looked at. -/
theorem findFreeInodeDirGroup_misses :
    FreeInodesSum sampleManyGroups sampleManyGroupsFs ∧
      ¬ DirGroupOk sampleManyGroups sampleManyGroupsFs
        (findFreeInodeDirGroup sampleManyGroups sampleEnv sampleManyGroupsFs (2 ^ 32 - 1)) := by
  have hcount : sampleManyGroups.groupsCount = 2 ^ 32 - 1 := by decide
  have hstart : dirSearchStart sampleManyGroups sampleEnv (2 ^ 32 - 1) = 2 ^ 32 - 2 := by decide
  have hfree : ∀ g, g ≠ 2 ^ 32 - 3 → (sampleManyGroupsFs.gd g).freeInodesCount = 0 := by
    intro g hg
    show (if g = 2 ^ 32 - 3 then (⟨0, 1, 0⟩ : GroupDesc) else ⟨0, 0, 0⟩).freeInodesCount = 0
    rw [if_neg hg]
  have hone : (sampleManyGroupsFs.gd (2 ^ 32 - 3)).freeInodesCount = 1 := rfl
  have hsum : FreeInodesSum sampleManyGroups sampleManyGroupsFs := by
    unfold FreeInodesSum
    rw [Finset.sum_eq_single (2 ^ 32 - 3), hone]
    · rfl
    · intro g _ hg
      rw [hfree g hg]
      rfl
    · intro hmem
      exact absurd (Finset.mem_range.mpr (by rw [hcount]; omega)) hmem
  refine ⟨hsum, fun hok => ?_⟩
  cases hr : findFreeInodeDirGroup sampleManyGroups sampleEnv sampleManyGroupsFs (2 ^ 32 - 1) with
  | none =>
    rw [hr] at hok
    have hzero := hok.1.mp rfl (2 ^ 32 - 3) (by rw [hcount]; omega)
    rw [hone] at hzero
    cases hzero
  | some b =>
    obtain ⟨⟨u, hu, hb⟩, hne⟩ := findFreeInodeDirGroup_some hr
    rw [hstart, hcount] at hb
    rw [hcount] at hu
    apply hne
    apply hfree
    omega

end DirGroup

/-! ## The choice of `alloc_inode` -/

/-- The searches for a group end, and what they find is a group of the volume. -/
theorem findFreeInodeGroup_ok (hv : Layout v) (env : Env) (s : Fs) {n : Nat} (hn : OnVolume v n)
    (mode : UInt16) :
    ∃ r, findFreeInodeGroup v env s n mode = .ok r ∧ ∀ g, r = some g → g < v.groupsCount := by
  have hgroup : v.inodeGroup n < v.groupsCount := inodeGroup_lt hn
  have hpos : 0 < v.groupsCount := Nat.zero_lt_of_lt hgroup
  unfold findFreeInodeGroup
  split
  · refine ⟨_, rfl, fun g hg => ?_⟩
    obtain ⟨⟨u, -, rfl⟩, -⟩ := findFreeInodeDirGroup_some hg
    exact Nat.mod_lt _ hpos
  · have hcount : v.groupsCount ≤ 2 ^ 31 :=
      Nat.le_trans (Nat.le_mul_of_pos_right _ hv.ipg_pos) (Nat.le_of_lt hv.inos_lt)
    rw [findFreeInodeFileGroup_eq]
    dsimp only
    rw [if_neg (Nat.not_le_of_lt hgroup)]
    split
    · refine ⟨_, rfl, fun g hg => ?_⟩
      cases hg
      exact hgroup
    · rw [if_neg (Nat.not_lt_of_le hcount)]
      split
      · refine ⟨_, rfl, fun g hg => ?_⟩
        cases hg
        exact Nat.mod_lt _ hpos
      · exact ⟨none, rfl, fun g hg => nomatch hg⟩

end Cheviot.Ext2
