import Cheviot.Ext2.Bitmap

/-!
# Inode bitmap: `alloc_inode_bit` and `free_inode_bit`

The two routines translate between an inode number and a (group, bit) pair in
opposite directions: `alloc_inode_bit` returns `group * s_inodes_per_group + bit
+ 1`, and `free_inode_bit` computes `group` and `bit` back from it. It then
hands `clear_bit` the inode number itself, where its own `bit` was meant.

The bit that a release should clear stays set, so that no run with a release goes well. A run of
allocations alone keeps `InodeConsistent`, a call at a time.

* `InodeConsistent` — the per-group and global counters agree with the bitmaps,
  and the reserved and missing inodes are marked.
* `allocInodeBit_first` — an allocation from a group with a free inode sets the
  first clear bit; `markInode_consistent` says the state stays consistent.
* `freeInodeBit_keeps_bit` — a release never clears the bit of the inode it is
  given.
* `inodeRun_iff` — over every sequence of calls: the sequence does what it
  should exactly as long as it releases nothing (and the 16-bit directory
  counter does not overflow).
-/

namespace Cheviot.Ext2

open Cheviot.Bytes Cheviot.Bits

/-! ## The functions -/

/-- `alloc_inode_bit`. -/
def allocInodeBit (v : Volume) (s : Fs) (group : Nat) (isDir : Bool) : Except Fault (Fs × Nat) :=
  if v.groupsCount ≤ group then .error (.panic "extfs: can't get group_desc to alloc block")
  else if (s.gd group).freeInodesCount = 0 then
    .error (.panic "extfs: group desc reports no free inodes but earlier search reported it does")
  else do
    match ← allocBit v.beCpu v.blockSize (s.blk (v.inodeBitmap group)) v.inodesPerGroup 0 with
    | none =>
      .error (.panic "extfs: unable to alloc bit in bitmap, but descriptor indicated free inode")
    | some (bitmap, bit) =>
      let ino := (group * v.inodesPerGroup + bit + 1) % 2 ^ 32
      if v.inodesCount < ino then
        .error (.panic "extfs: allocator returned inode number greater than total inodes")
      else if ino < v.firstIno then
        .error (.panic "extfs: allocator tried to return reserved inode")
      else
        let gd := s.gd group
        let s := s.writeBlk (v.inodeBitmap group) bitmap
        let s := s.setGd group
          { gd with
            freeInodesCount := gd.freeInodesCount - 1
            usedDirsCount := if isDir then gd.usedDirsCount + 1 else gd.usedDirsCount }
        .ok ({ s with
          freeInodesCount := s.freeInodesCount - 1
          dirsCounter := if isDir then s.dirsCounter + 1 else s.dirsCounter }, ino)

/-- `free_inode_bit`. The source computes `bit`, the index in the group's bitmap,
and then passes `ino_nr` to `clear_bit`. -/
def freeInodeBit (v : Volume) (s : Fs) (ino : Nat) (isDir : Bool) : Except Fault Fs :=
  if v.inodesCount < ino ∨ ino < v.firstIno then
    .error (.panic "trying to free inode %d beyond inodes scope.")
  else
    let group := pred32 ino / v.inodesPerGroup
    if v.groupsCount ≤ group then .error (.panic "can't get group_desc to alloc block")
    else do
      match ← clearBit v.beCpu v.blockSize (s.blk (v.inodeBitmap group)) ino with
      | none => .error (.panic "Tried to free unused inode %d")
      | some bitmap =>
        let gd := s.gd group
        let s := s.writeBlk (v.inodeBitmap group) bitmap
        let s := s.setGd group
          { gd with
            freeInodesCount := gd.freeInodesCount + 1
            usedDirsCount := if isDir then gd.usedDirsCount - 1 else gd.usedDirsCount }
        .ok { s with
          freeInodesCount := s.freeInodesCount + 1
          dirsCounter := if isDir then s.dirsCounter - 1 else s.dirsCounter }

/-! ## Consistent inode bitmaps -/

/-- What the inode bitmaps need of the volume: a bitmap of `s_inodes_per_group`
bits fits in its block, and no two groups share one. -/
structure InodeGeom (v : Volume) : Prop where
  log_le : v.logBlockSize ≤ 5
  ipg_pos : 0 < v.inodesPerGroup
  ipg_le : v.inodesPerGroup ≤ 8 * v.blockSize
  inodes_lt : v.inodesCount < 2 ^ 32
  inode_bitmap_inj : ∀ g h, g < v.groupsCount → h < v.groupsCount →
    v.inodeBitmap g = v.inodeBitmap h → g = h

/-- Bit `i` of the inode bitmap of group `g`. -/
def ibit (v : Volume) (s : Fs) (g i : Nat) : Bool := bitAt v.beCpu (s.blk (v.inodeBitmap g)) i

/-- The inode number of bit `i` of group `g`. -/
def inoOf (v : Volume) (g i : Nat) : Nat := g * v.inodesPerGroup + i + 1

theorem inoOf_inj {v : Volume} {g i h j : Nat} (hi : i < v.inodesPerGroup)
    (hj : j < v.inodesPerGroup) (heq : inoOf v g i = inoOf v h j) : g = h ∧ i = j := by
  unfold inoOf at heq
  have hg : (g * v.inodesPerGroup + i) / v.inodesPerGroup = g := by
    rw [Nat.mul_comm, Nat.mul_add_div (by omega), Nat.div_eq_of_lt hi, Nat.add_zero]
  have hh : (h * v.inodesPerGroup + j) / v.inodesPerGroup = h := by
    rw [Nat.mul_comm, Nat.mul_add_div (by omega), Nat.div_eq_of_lt hj, Nat.add_zero]
  have hgh : g = h := by
    rw [← hg, ← hh, show g * v.inodesPerGroup + i = h * v.inodesPerGroup + j from by omega]
  subst hgh
  exact ⟨rfl, by omega⟩

/-- The counters agree with the inode bitmaps; `dirs` says which allocated
inodes are directories. -/
structure InodeConsistent (v : Volume) (s : Fs) (dirs : Nat → Bool) : Prop where
  free_count : ∀ g, g < v.groupsCount →
    (s.gd g).freeInodesCount.toNat = Nat.count (fun i => ibit v s g i = false) v.inodesPerGroup
  free_sum : s.freeInodesCount.toNat =
    ∑ g ∈ Finset.range v.groupsCount, (s.gd g).freeInodesCount.toNat
  dirs_count : ∀ g, g < v.groupsCount →
    (s.gd g).usedDirsCount.toNat = Nat.count (fun i => dirs (inoOf v g i) = true) v.inodesPerGroup
  dirs_sum : s.dirsCounter.toNat =
    ∑ g ∈ Finset.range v.groupsCount, (s.gd g).usedDirsCount.toNat
  dirs_set : ∀ g, g < v.groupsCount → ∀ i, i < v.inodesPerGroup → dirs (inoOf v g i) = true →
    ibit v s g i = true ∧ inoOf v g i ≤ v.inodesCount
  reserved : ∀ g, g < v.groupsCount → ∀ i, i < v.inodesPerGroup → inoOf v g i < v.firstIno →
    ibit v s g i = true
  past : ∀ g, g < v.groupsCount → ∀ i, i < v.inodesPerGroup → v.inodesCount < inoOf v g i →
    ibit v s g i = true

/-- The only bit in which the inode bitmaps of `s'` differ from those of `s` is
the one of inode `n`, which is `x` in `s'`. -/
def OnlyBit (v : Volume) (s s' : Fs) (n : Nat) (x : Bool) : Prop :=
  ∀ g i, g < v.groupsCount → i < v.inodesPerGroup →
    ibit v s' g i = if inoOf v g i = n then x else ibit v s g i

/-- Inode `n` is marked in its group's bitmap. -/
def Marked (v : Volume) (s : Fs) (n : Nat) : Prop :=
  ∃ g i, g < v.groupsCount ∧ i < v.inodesPerGroup ∧ n = inoOf v g i ∧ ibit v s g i = true

/-- Inode `n` is on the volume and not marked. -/
def Unmarked (v : Volume) (s : Fs) (n : Nat) : Prop :=
  ∃ g i, g < v.groupsCount ∧ i < v.inodesPerGroup ∧ n = inoOf v g i ∧ ibit v s g i = false

/-! ## Marking one inode -/

/-- The state in which bit `i` of group `g` is set and the counters follow. -/
def markInode (v : Volume) (s : Fs) (g i : Nat) (isDir : Bool) : Fs :=
  { s with
    blk := Function.update s.blk (v.inodeBitmap g) (setBitAt v.beCpu (s.blk (v.inodeBitmap g)) i)
    dirtyBlk := Function.update s.dirtyBlk (v.inodeBitmap g) true
    gd := Function.update s.gd g
      { s.gd g with
        freeInodesCount := (s.gd g).freeInodesCount - 1
        usedDirsCount :=
          if isDir then (s.gd g).usedDirsCount + 1 else (s.gd g).usedDirsCount }
    freeInodesCount := s.freeInodesCount - 1
    dirsCounter := if isDir then s.dirsCounter + 1 else s.dirsCounter }

theorem ibit_markInode {v : Volume} (hv : InodeGeom v) {s : Fs} {g i : Nat} {isDir : Bool}
    (hg : g < v.groupsCount) {h j : Nat} (hh : h < v.groupsCount) :
    ibit v (markInode v s g i isDir) h j = if g = h ∧ i = j then true else ibit v s h j := by
  unfold ibit markInode
  by_cases hgh : g = h
  · subst hgh
    by_cases hij : i = j
    · simp [hij, bitAt_setBitAt]
    · simp [hij, bitAt_setBitAt]
  · have hne : v.inodeBitmap h ≠ v.inodeBitmap g := fun he => hgh (hv.inode_bitmap_inj h g hh hg he).symm
    simp [hgh, Function.update_of_ne hne]

/-- Bit `i` is the first clear one of group `g`. -/
def FirstFree (v : Volume) (s : Fs) (g i : Nat) : Prop :=
  i < v.inodesPerGroup ∧ ibit v s g i = false ∧ ∀ j, j < i → ibit v s g j = true

theorem FirstFree.unique {v : Volume} {s : Fs} {g i j : Nat} (hi : FirstFree v s g i)
    (hj : FirstFree v s g j) : i = j := by
  by_contra hne
  rcases Nat.lt_or_gt_of_ne hne with hlt | hlt
  · have hset := hj.2.2 i hlt
    rw [hi.2.1] at hset
    cases hset
  · have hset := hi.2.2 j hlt
    rw [hj.2.1] at hset
    cases hset

/-- A free inode is one of the volume, and not one of those kept for the file system. -/
theorem InodeConsistent.ino_bounds {v : Volume} {s : Fs} {dirs : Nat → Bool}
    (hs : InodeConsistent v s dirs) {g i : Nat} (hg : g < v.groupsCount)
    (hi : i < v.inodesPerGroup) (hclear : ibit v s g i = false) :
    v.firstIno ≤ inoOf v g i ∧ inoOf v g i ≤ v.inodesCount := by
  constructor
  · by_contra hlt
    have hset := hs.reserved g hg i hi (by omega)
    rw [hclear] at hset
    cases hset
  · by_contra hgt
    have hset := hs.past g hg i hi (by omega)
    rw [hclear] at hset
    cases hset

/-- An allocation marks the first free inode of its group. -/
theorem allocInodeBit_first {v : Volume} (hv : InodeGeom v) {s : Fs} {dirs : Nat → Bool}
    (hs : InodeConsistent v s dirs) {g : Nat} (hg : g < v.groupsCount)
    (hfree : (s.gd g).freeInodesCount ≠ 0) (isDir : Bool) :
    ∃ i, FirstFree v s g i ∧
      allocInodeBit v s g isDir = .ok (markInode v s g i isDir, inoOf v g i) := by
  have hsize := bitmap_words_le hv.log_le hv.ipg_le
  obtain ⟨r, hr, hres⟩ := allocBit_spec v.beCpu (s.blk (v.inodeBitmap g)) 0 hsize
  cases hres with
  | found i hlo hi hclear hfirst =>
    obtain ⟨hge, hle⟩ := hs.ino_bounds hg hi hclear
    have hmod : (g * v.inodesPerGroup + i + 1) % 2 ^ 32 = inoOf v g i :=
      Nat.mod_eq_of_lt (Nat.lt_of_le_of_lt hle hv.inodes_lt)
    refine ⟨i, ⟨hi, hclear, fun j hj => hfirst j (Nat.zero_le j) hj⟩, ?_⟩
    rw [allocInodeBit, if_neg (by omega), if_neg hfree, hr]
    simp only [bind, Except.bind, hmod]
    rw [if_neg (by omega), if_neg (by omega)]
    rfl
  | full hset =>
    -- a group whose bitmap is full has free count 0
    have hcount : Nat.count (fun i => ibit v s g i = false) v.inodesPerGroup = 0 := by
      rw [Nat.count_iff_forall_not]
      intro j hj
      have hj := hset j (by omega) hj
      simp [ibit, hj]
    have hzero : (s.gd g).freeInodesCount = 0 :=
      UInt16.toNat_inj.mp ((hs.free_count g hg).trans hcount)
    exact absurd hzero hfree

theorem allocInodeBit_spec {v : Volume} (hv : InodeGeom v) {s : Fs} {dirs : Nat → Bool}
    (hs : InodeConsistent v s dirs) {g : Nat} (hg : g < v.groupsCount)
    (hfree : (s.gd g).freeInodesCount ≠ 0) (isDir : Bool) :
    ∃ i, i < v.inodesPerGroup ∧ ibit v s g i = false ∧
      allocInodeBit v s g isDir = .ok (markInode v s g i isDir, inoOf v g i) := by
  obtain ⟨i, ⟨hi, hclear, _⟩, hrun⟩ := allocInodeBit_first hv hs hg hfree isDir
  exact ⟨i, hi, hclear, hrun⟩

/-- Every inode number belongs to one group and bit of the volume or to none;
the number of directories is bounded by the inodes there are. -/
theorem dirsCounter_lt {v : Volume} (hv : InodeGeom v) {s : Fs} {dirs : Nat → Bool}
    (hs : InodeConsistent v s dirs) {g i : Nat} (hg : g < v.groupsCount)
    (hi : i < v.inodesPerGroup) (hclear : ibit v s g i = false) :
    s.dirsCounter.toNat < 2 ^ 32 - 1 := by
  obtain ⟨-, hle⟩ := hs.ino_bounds hg hi hclear
  have hnot : ¬ dirs (inoOf v g i) = true := fun hd => by
    have hset := (hs.dirs_set g hg i hi hd).1
    rw [hclear] at hset
    cases hset
  -- all directories are among the numbers up to `s_inodes_count`, without this one
  have htotal : s.dirsCounter.toNat =
      Nat.count (fun n => dirs (n + 1) = true) (v.groupsCount * v.inodesPerGroup) := by
    rw [hs.dirs_sum, ← sum_count_groups]
    exact Finset.sum_congr rfl fun h hh => hs.dirs_count h (Finset.mem_range.mp hh)
  have hpos : g * v.inodesPerGroup + i < v.groupsCount * v.inodesPerGroup := by
    calc g * v.inodesPerGroup + i < g * v.inodesPerGroup + v.inodesPerGroup := by omega
      _ = (g + 1) * v.inodesPerGroup := by rw [Nat.succ_mul]
      _ ≤ v.groupsCount * v.inodesPerGroup := Nat.mul_le_mul_right _ hg
  have hbound : Nat.count (fun n => dirs (n + 1) = true) (v.groupsCount * v.inodesPerGroup) + 1
      ≤ v.inodesCount := by
    have hone := count_withdraw
      (p := fun n => (dirs (n + 1) = true ∨ n = g * v.inodesPerGroup + i))
      (q := fun n => dirs (n + 1) = true) hpos (Or.inr rfl) hnot
      (fun j _ hj => by simp [hj])
    rw [← hone]
    refine Nat.le_trans (Nat.count_mono_left (q := fun n => n < v.inodesCount) ?_) ?_
    · intro k hk hp
      rcases hp with hp | rfl
      · have hmul : k / v.inodesPerGroup * v.inodesPerGroup + k % v.inodesPerGroup = k := by
          rw [Nat.mul_comm]
          exact Nat.div_add_mod k _
        have hdiv : k / v.inodesPerGroup < v.groupsCount :=
          Nat.div_lt_of_lt_mul (by rw [Nat.mul_comm]; exact hk)
        have hino : inoOf v (k / v.inodesPerGroup) (k % v.inodesPerGroup) = k + 1 := by
          unfold inoOf
          omega
        have := (hs.dirs_set _ hdiv _ (Nat.mod_lt _ hv.ipg_pos) (by rw [hino]; exact hp)).2
        omega
      · unfold inoOf at hle
        omega
    · rw [Nat.count_eq_card_filter_range]
      refine Nat.le_trans (Finset.card_le_card (t := Finset.range v.inodesCount) ?_) ?_
      · intro x hx
        exact Finset.mem_range.mpr (Finset.mem_filter.mp hx).2
      · rw [Finset.card_range]
  have := hv.inodes_lt
  omega

/-- Marking a free inode as directory or not leaves every other inode's kind alone. -/
theorem dirs_update_iff {v : Volume} {dirs : Nat → Bool} {g i h j : Nat} {isDir : Bool}
    (hi : i < v.inodesPerGroup) (hj : j < v.inodesPerGroup) :
    Function.update dirs (inoOf v g i) isDir (inoOf v h j) = true ↔
      if g = h ∧ i = j then isDir = true else dirs (inoOf v h j) = true := by
  by_cases hsame : g = h ∧ i = j
  · rw [if_pos hsame, hsame.1, hsame.2, Function.update_self]
  · have hne : inoOf v h j ≠ inoOf v g i := fun he => hsame <| by
      obtain ⟨h1, h2⟩ := inoOf_inj hj hi he
      exact ⟨h1.symm, h2.symm⟩
    rw [if_neg hsame, Function.update_of_ne hne]

/-- The number of directories of each group after one inode is marked. -/
theorem dirs_count_mark {v : Volume} {dirs : Nat → Bool} {g i : Nat} (isDir : Bool)
    (hi : i < v.inodesPerGroup) (hnot : dirs (inoOf v g i) = false) (h : Nat) :
    Nat.count (fun j => Function.update dirs (inoOf v g i) isDir (inoOf v h j) = true)
        v.inodesPerGroup =
      Nat.count (fun j => dirs (inoOf v h j) = true) v.inodesPerGroup
        + if g = h ∧ isDir = true then 1 else 0 := by
  by_cases hgd : g = h ∧ isDir = true
  · obtain ⟨rfl, rfl⟩ := hgd
    rw [if_pos ⟨rfl, rfl⟩]
    refine count_withdraw hi ?_ (by simp [hnot]) fun j hj hne => ?_
    · rw [dirs_update_iff hi hi]
      simp
    · rw [dirs_update_iff hi hj, if_neg fun he => hne he.2.symm]
  · rw [if_neg hgd, Nat.add_zero]
    refine count_congr fun j hj => ?_
    rw [dirs_update_iff hi hj]
    by_cases hsame : g = h ∧ i = j
    · have hfalse : isDir = false := by
        cases isDir with
        | false => rfl
        | true => exact absurd ⟨hsame.1, rfl⟩ hgd
      rw [if_pos hsame, ← hsame.1, ← hsame.2, hnot, hfalse]
    · rw [if_neg hsame]

/-- An unmarked inode is no directory. -/
theorem InodeConsistent.not_dir {v : Volume} {s : Fs} {dirs : Nat → Bool}
    (hs : InodeConsistent v s dirs) {g i : Nat} (hg : g < v.groupsCount)
    (hi : i < v.inodesPerGroup) (hclear : ibit v s g i = false) : dirs (inoOf v g i) = false := by
  cases hd : dirs (inoOf v g i) with
  | false => rfl
  | true =>
    have hset := (hs.dirs_set g hg i hi hd).1
    rw [hclear] at hset
    cases hset

section Mark

variable {v : Volume} {s : Fs} {dirs : Nat → Bool} {g i h : Nat} {isDir : Bool}

theorem markInode_gd_self : (markInode v s g i isDir).gd g =
    { s.gd g with
      freeInodesCount := (s.gd g).freeInodesCount - 1
      usedDirsCount := if isDir then (s.gd g).usedDirsCount + 1 else (s.gd g).usedDirsCount } :=
  Function.update_self _ _ _

theorem markInode_gd_other (hne : h ≠ g) : (markInode v s g i isDir).gd h = s.gd h :=
  Function.update_of_ne hne _ _

/-- Its group has one free bit less. -/
theorem free_count_mark (isDir : Bool) (hv : InodeGeom v) (hg : g < v.groupsCount)
    (hi : i < v.inodesPerGroup) (hclear : ibit v s g i = false) (hh : h < v.groupsCount) :
    Nat.count (fun j => ibit v s h j = false) v.inodesPerGroup =
      Nat.count (fun j => ibit v (markInode v s g i isDir) h j = false) v.inodesPerGroup
        + if g = h then 1 else 0 := by
  by_cases hgh : g = h
  · subst hgh
    rw [if_pos rfl]
    refine count_withdraw hi hclear ?_ fun j hj hne => ?_
    · rw [ibit_markInode hv hg hg, if_pos ⟨rfl, rfl⟩]
      exact Bool.true_eq_false_eq_False
    · rw [ibit_markInode hv hg hg, if_neg fun he => hne he.2.symm]
  · rw [if_neg hgh, Nat.add_zero]
    refine count_congr fun j hj => ?_
    rw [ibit_markInode hv hg hh, if_neg fun he => hgh he.1]

/-- The group of a free inode counts it. -/
theorem InodeConsistent.group_free (hs : InodeConsistent v s dirs) (hv : InodeGeom v)
    (hg : g < v.groupsCount) (hi : i < v.inodesPerGroup) (hclear : ibit v s g i = false) :
    (s.gd g).freeInodesCount ≠ 0 := by
  intro h0
  have hc := hs.free_count g hg
  rw [free_count_mark false hv hg hi hclear hg, if_pos rfl, h0] at hc
  exact absurd hc (Nat.succ_ne_zero _).symm

theorem free_sum_mark (isDir : Bool) (hg : g < v.groupsCount) (hfree : (s.gd g).freeInodesCount ≠ 0) :
    ∑ h ∈ Finset.range v.groupsCount, (s.gd h).freeInodesCount.toNat =
      ∑ h ∈ Finset.range v.groupsCount, ((markInode v s g i isDir).gd h).freeInodesCount.toNat
        + 1 := by
  refine sum_withdraw hg ?_ fun j _ hne => by rw [markInode_gd_other hne]
  rw [markInode_gd_self]
  exact (toNat_pred16 hfree).symm

/-- The directory counter of each group follows the kind of the inode. -/
theorem usedDirs_mark (hroom : isDir = true → (s.gd g).usedDirsCount.toNat < 65535) (h : Nat) :
    ((markInode v s g i isDir).gd h).usedDirsCount.toNat =
      (s.gd h).usedDirsCount.toNat + if g = h ∧ isDir = true then 1 else 0 := by
  by_cases hgh : h = g
  · subst hgh
    rw [markInode_gd_self]
    cases isDir with
    | false =>
      have hnone : ¬ (h = h ∧ false = true) := fun hd => Bool.false_ne_true hd.2
      rw [if_neg hnone]
      rfl
    | true =>
      have hone : h = h ∧ true = true := ⟨rfl, rfl⟩
      rw [if_pos hone]
      exact toNat_succ16 (hroom rfl)
  · rw [markInode_gd_other hgh, if_neg fun he => hgh he.1.symm, Nat.add_zero]

/-- The counter of the volume still counts the directories. -/
theorem dirs_sum_mark (hv : InodeGeom v) (hs : InodeConsistent v s dirs) (hg : g < v.groupsCount)
    (hi : i < v.inodesPerGroup) (hclear : ibit v s g i = false)
    (hroom : isDir = true → (s.gd g).usedDirsCount.toNat < 65535) :
    (markInode v s g i isDir).dirsCounter.toNat =
      ∑ h ∈ Finset.range v.groupsCount,
        ((markInode v s g i isDir).gd h).usedDirsCount.toNat := by
  have hmark := usedDirs_mark (v := v) (i := i) hroom
  cases isDir with
  | false =>
    have hsame : ∀ h, ((markInode v s g i false).gd h).usedDirsCount.toNat =
        (s.gd h).usedDirsCount.toNat := by
      intro h
      rw [hmark h, if_neg fun hd => Bool.false_ne_true hd.2, Nat.add_zero]
    rw [Finset.sum_congr rfl fun h _ => hsame h]
    exact hs.dirs_sum
  | true =>
    have hup : ∑ h ∈ Finset.range v.groupsCount,
        ((markInode v s g i true).gd h).usedDirsCount.toNat =
        ∑ h ∈ Finset.range v.groupsCount, (s.gd h).usedDirsCount.toNat + 1 := by
      refine sum_withdraw hg ?_ fun j _ hne => ?_
      · rw [hmark g, if_pos ⟨rfl, rfl⟩]
      · rw [hmark j, if_neg fun hd => hne hd.1.symm, Nat.add_zero]
    rw [hup, ← hs.dirs_sum]
    -- there is one directory less than there are inodes
    exact toNat_succ32 (dirsCounter_lt hv hs hg hi hclear)

/-- Marking a free inode keeps the state consistent, as long as the 16-bit
directory counter of the group can still be counted up. -/
theorem markInode_consistent (hv : InodeGeom v) (hs : InodeConsistent v s dirs)
    (hg : g < v.groupsCount) (hi : i < v.inodesPerGroup) (hclear : ibit v s g i = false)
    (hroom : isDir = true → (s.gd g).usedDirsCount.toNat < 65535) :
    InodeConsistent v (markInode v s g i isDir) (Function.update dirs (inoOf v g i) isDir) := by
  have hfree := hs.group_free hv hg hi hclear
  constructor
  · -- the group has one free inode less, in its descriptor and in its bitmap
    intro h hh
    have hc := hs.free_count h hh
    have hm := free_count_mark isDir hv hg hi hclear hh
    by_cases hgh : h = g
    · subst hgh
      rw [if_pos rfl] at hm
      have hp := toNat_pred16 hfree
      rw [markInode_gd_self]
      show ((s.gd h).freeInodesCount - 1).toNat = _
      omega
    · rw [if_neg fun he => hgh he.symm] at hm
      rw [markInode_gd_other hgh]
      omega
  · -- and so has the superblock
    have hf := hs.free_sum
    rw [free_sum_mark (i := i) isDir hg hfree] at hf
    have hne : s.freeInodesCount ≠ 0 := by
      intro h0
      rw [h0] at hf
      exact absurd hf (Nat.succ_ne_zero _).symm
    have hp := toNat_pred32 hne
    show (s.freeInodesCount - 1).toNat = _
    omega
  · intro h hh
    rw [dirs_count_mark isDir hi (hs.not_dir hg hi hclear) h, usedDirs_mark hroom h,
      hs.dirs_count h hh]
  · exact dirs_sum_mark hv hs hg hi hclear hroom
  · -- a directory has its bit set
    intro h hh j hj hd
    rw [dirs_update_iff hi hj] at hd
    rw [ibit_markInode hv hg hh]
    by_cases hsame : g = h ∧ i = j
    · rw [if_pos hsame, ← hsame.1, ← hsame.2]
      exact ⟨rfl, (hs.ino_bounds hg hi hclear).2⟩
    · rw [if_neg hsame] at hd ⊢
      exact hs.dirs_set h hh j hj hd
  · -- a bit is set that was, so the reserved ones and those past the end stay
    intro h hh j hj hlt
    rw [ibit_markInode hv hg hh]
    split
    · rfl
    · exact hs.reserved h hh j hj hlt
  · intro h hh j hj hgt
    rw [ibit_markInode hv hg hh]
    split
    · rfl
    · exact hs.past h hh j hj hgt

end Mark

/-- Where the directory counter is at its end, marking a directory breaks consistency. -/
theorem markInode_not_consistent {v : Volume} {s : Fs} {dirs : Nat → Bool}
    (hs : InodeConsistent v s dirs) {g i : Nat} (hg : g < v.groupsCount)
    (hi : i < v.inodesPerGroup) (hclear : ibit v s g i = false)
    (hfull : 65535 ≤ (s.gd g).usedDirsCount.toNat) :
    ¬ InodeConsistent v (markInode v s g i true) (Function.update dirs (inoOf v g i) true) := by
  intro hs'
  have hc := hs'.dirs_count g hg
  rw [dirs_count_mark true hi (hs.not_dir hg hi hclear) g, if_pos ⟨rfl, rfl⟩,
    ← hs.dirs_count g hg] at hc
  have hgdg : ((markInode v s g i true).gd g).usedDirsCount = (s.gd g).usedDirsCount + 1 := by
    simp [markInode]
  have hlt := ((s.gd g).usedDirsCount + 1).toNat_lt
  rw [hgdg] at hc
  omega

/-! ## Releasing an inode -/

/-- The state in which bit `i` of group `g` is cleared and the counters follow. -/
def unmarkInode (v : Volume) (s : Fs) (g i : Nat) (isDir : Bool) : Fs :=
  { s with
    blk := Function.update s.blk (v.inodeBitmap g) (clearBitAt v.beCpu (s.blk (v.inodeBitmap g)) i)
    dirtyBlk := Function.update s.dirtyBlk (v.inodeBitmap g) true
    gd := Function.update s.gd g
      { s.gd g with
        freeInodesCount := (s.gd g).freeInodesCount + 1
        usedDirsCount :=
          if isDir then (s.gd g).usedDirsCount - 1 else (s.gd g).usedDirsCount }
    freeInodesCount := s.freeInodesCount + 1
    dirsCounter := if isDir then s.dirsCounter - 1 else s.dirsCounter }

/-- When `free_inode_bit` gets as far as clearing a bit. -/
def CanFreeInode (v : Volume) (s : Fs) (ino : Nat) : Prop :=
  (v.firstIno ≤ ino ∧ ino ≤ v.inodesCount) ∧ pred32 ino / v.inodesPerGroup < v.groupsCount ∧
    4 * (ino / 32) + 4 ≤ v.blockSize ∧ ibit v s (pred32 ino / v.inodesPerGroup) ino = true

/-- `free_inode_bit` ends well exactly if the bit it looks at is set, and then
it clears that bit: the one at index `ino` of the inode's group. -/
theorem freeInodeBit_eq_ok {v : Volume} {s s' : Fs} {ino : Nat} {isDir : Bool} :
    freeInodeBit v s ino isDir = .ok s' ↔
      CanFreeInode v s ino ∧ s' = unmarkInode v s (pred32 ino / v.inodesPerGroup) ino isDir := by
  unfold freeInodeBit CanFreeInode
  by_cases hrange : v.inodesCount < ino ∨ ino < v.firstIno
  · rw [if_pos hrange]
    exact ⟨fun h => (nomatch h), fun h => by omega⟩
  · rw [if_neg hrange]
    simp only
    by_cases hg : v.groupsCount ≤ pred32 ino / v.inodesPerGroup
    · rw [if_pos hg]
      exact ⟨fun h => (nomatch h), fun h => by omega⟩
    · rw [if_neg hg]
      constructor
      · intro h
        obtain ⟨r, hclear, hrest⟩ := ok_of_bind h
        cases r with
        | none => cases hrest
        | some bitmap =>
          obtain ⟨hsize, hset, rfl⟩ := clearBit_some hclear
          cases hrest
          exact ⟨⟨by omega, by omega, hsize, hset⟩, rfl⟩
      · rintro ⟨⟨-, -, hsize, hset⟩, rfl⟩
        rw [bind_of_ok (clearBit_of_set hsize hset)]
        rfl

/-- The bit cleared for an inode is at index `ino_nr`, and its own at a smaller index. -/
theorem ibit_unmarkInode_self {v : Volume} {s : Fs} {g i : Nat} (isDir : Bool)
    (hi : i < v.inodesPerGroup) :
    ibit v (unmarkInode v s (pred32 (inoOf v g i) / v.inodesPerGroup) (inoOf v g i) isDir) g i =
      ibit v s g i := by
  have hgroup : pred32 (inoOf v g i) / v.inodesPerGroup = g := by
    rw [pred32_of_pos (by unfold inoOf; omega), inoOf, Nat.add_sub_cancel, Nat.mul_comm,
      Nat.mul_add_div (by omega), Nat.div_eq_of_lt hi, Nat.add_zero]
  have hne : inoOf v g i ≠ i := by
    unfold inoOf
    omega
  simp [ibit, unmarkInode, hgroup, bitAt_clearBitAt, hne]

/-- `free_inode_bit` never clears the bit of the inode it is given. -/
theorem freeInodeBit_keeps_bit {v : Volume} {s s' : Fs} {g i : Nat} {isDir : Bool}
    (hi : i < v.inodesPerGroup) (h : freeInodeBit v s (inoOf v g i) isDir = .ok s') :
    ibit v s' g i = ibit v s g i := by
  obtain ⟨-, rfl⟩ := freeInodeBit_eq_ok.mp h
  exact ibit_unmarkInode_self isDir hi

/-! ## Sequences of calls -/

/-- A call of one of the two routines. -/
inductive InodeOp where
  | alloc (group : Nat) (isDir : Bool)
  | free (ino : Nat) (isDir : Bool)
  deriving DecidableEq

/-- What a sequence of calls should do. An allocation, from a group with a free
inode, returns an inode that was not marked, marks it and nothing else. A
release, of an inode handed out earlier (`held`, with its kind), unmarks it and
nothing else. Every state passed is consistent. -/
def InodeRunOk (v : Volume) : Fs → (Nat → Bool) → List (Nat × Bool) → List InodeOp → Prop
  | s, dirs, _, [] => InodeConsistent v s dirs
  | s, dirs, held, .alloc g isDir :: ops =>
    InodeConsistent v s dirs ∧
      (g < v.groupsCount → (s.gd g).freeInodesCount ≠ 0 →
        ∃ s' ino, allocInodeBit v s g isDir = .ok (s', ino) ∧ Unmarked v s ino ∧
          OnlyBit v s s' ino true ∧
          InodeRunOk v s' (Function.update dirs ino isDir) ((ino, isDir) :: held) ops)
  | s, dirs, held, .free ino isDir :: ops =>
    InodeConsistent v s dirs ∧
      ((ino, isDir) ∈ held →
        ∃ s', freeInodeBit v s ino isDir = .ok s' ∧ OnlyBit v s s' ino false ∧
          InodeRunOk v s' (Function.update dirs ino false) (held.erase (ino, isDir)) ops)

/-- The calls that do not reach a defect: no release of an inode handed out
earlier, and no directory in a group whose directory counter is at 65535. -/
def NoInodeDefect (v : Volume) : Fs → List (Nat × Bool) → List InodeOp → Prop
  | _, _, [] => True
  | s, held, .alloc g isDir :: ops =>
    g < v.groupsCount → (s.gd g).freeInodesCount ≠ 0 →
      (isDir = true → (s.gd g).usedDirsCount.toNat < 65535) ∧
      ∀ s' ino, allocInodeBit v s g isDir = .ok (s', ino) →
        NoInodeDefect v s' ((ino, isDir) :: held) ops
  | _, held, .free ino isDir :: _ => (ino, isDir) ∉ held

/-- One allocation, then the rest of the sequence: the induction step of `inodeRun_of_held`. -/
theorem inodeRun_alloc {v : Volume} (hv : InodeGeom v) {s : Fs} {dirs : Nat → Bool}
    (hs : InodeConsistent v s dirs) {g : Nat} {isDir : Bool} {held : List (Nat × Bool)}
    {ops : List InodeOp} (hheld : ∀ p ∈ held, Marked v s p.1)
    (ih : ∀ s' dirs' held', InodeConsistent v s' dirs' → (∀ p ∈ held', Marked v s' p.1) →
      (InodeRunOk v s' dirs' held' ops ↔ NoInodeDefect v s' held' ops)) :
    InodeRunOk v s dirs held (.alloc g isDir :: ops) ↔
      NoInodeDefect v s held (.alloc g isDir :: ops) := by
  rw [InodeRunOk, NoInodeDefect]
  by_cases hg : g < v.groupsCount
  · by_cases hfree : (s.gd g).freeInodesCount = 0
    · exact ⟨fun _ _ h => absurd hfree h, fun _ => ⟨hs, fun _ h => absurd hfree h⟩⟩
    · obtain ⟨i, hi, hclear, hrun⟩ := allocInodeBit_spec hv hs hg hfree isDir
      -- those handed out, and the new one, are marked
      have hmarked : ∀ p ∈ (inoOf v g i, isDir) :: held,
          Marked v (markInode v s g i isDir) p.1 := by
        intro p hp
        rcases List.mem_cons.mp hp with rfl | hp
        · exact ⟨g, i, hg, hi, rfl, by rw [ibit_markInode hv hg hg, if_pos ⟨rfl, rfl⟩]⟩
        · obtain ⟨h, j, hh, hj, hn, hset⟩ := hheld p hp
          refine ⟨h, j, hh, hj, hn, ?_⟩
          rw [ibit_markInode hv hg hh, hset]
          split <;> rfl
      constructor
      · rintro ⟨-, hok⟩ - -
        obtain ⟨s', ino, hrun', -, -, hrest⟩ := hok hg hfree
        rw [hrun] at hrun'
        simp only [Except.ok.injEq, Prod.mk.injEq] at hrun'
        obtain ⟨rfl, rfl⟩ := hrun'
        -- the state after the call is consistent, so its counter of directories has not come
        -- around
        have hcons : InodeConsistent v (markInode v s g i isDir)
            (Function.update dirs (inoOf v g i) isDir) := by
          cases ops with
          | nil => exact hrest
          | cons op ops => cases op <;> exact hrest.1
        refine ⟨fun hd => ?_, fun s' ino hrun' => ?_⟩
        · by_contra hfull
          subst hd
          exact markInode_not_consistent hs hg hi hclear (by omega) hcons
        · rw [hrun] at hrun'
          simp only [Except.ok.injEq, Prod.mk.injEq] at hrun'
          obtain ⟨rfl, rfl⟩ := hrun'
          exact (ih _ _ _ hcons hmarked).mp hrest
      · intro hdef
        obtain ⟨hroom, hrest⟩ := hdef hg hfree
        have hcons := markInode_consistent hv hs hg hi hclear hroom
        refine ⟨hs, fun _ _ => ⟨_, _, hrun, ⟨g, i, hg, hi, rfl, hclear⟩, ?_, ?_⟩⟩
        · intro h j hh hj
          rw [ibit_markInode hv hg hh]
          by_cases hsame : g = h ∧ i = j
          · rw [if_pos hsame, if_pos (by rw [hsame.1, hsame.2])]
          · rw [if_neg hsame, if_neg fun he => hsame ?_]
            obtain ⟨h1, h2⟩ := inoOf_inj hj hi he
            exact ⟨h1.symm, h2.symm⟩
        · exact (ih _ _ _ hcons hmarked).mpr (hrest _ _ hrun)
  · exact ⟨fun _ h => absurd h hg, fun _ => ⟨hs, fun h => absurd h hg⟩⟩

theorem inodeRun_of_held {v : Volume} (hv : InodeGeom v) :
    ∀ (ops : List InodeOp) (s : Fs) (dirs : Nat → Bool) (held : List (Nat × Bool)),
      InodeConsistent v s dirs → (∀ p ∈ held, Marked v s p.1) →
      (InodeRunOk v s dirs held ops ↔ NoInodeDefect v s held ops) := by
  intro ops
  induction ops with
  | nil =>
    intro s dirs held hs _
    exact ⟨fun _ => trivial, fun _ => hs⟩
  | cons op ops ih =>
    intro s dirs held hs hheld
    cases op with
    | alloc g isDir => exact inodeRun_alloc hv hs hheld ih
    | free ino isDir =>
      rw [InodeRunOk, NoInodeDefect]
      constructor
      · rintro ⟨-, hok⟩ hmem
        obtain ⟨s', hfree, honly, -⟩ := hok hmem
        obtain ⟨g, i, hg, hi, hn, hset⟩ := hheld _ hmem
        simp only at hn
        subst hn
        -- the bit is to be cleared, and the release left it set
        have hkept := freeInodeBit_keeps_bit hi hfree
        rw [honly g i hg hi, if_pos rfl, hset] at hkept
        cases hkept
      · intro hnot
        exact ⟨hs, fun h => absurd h hnot⟩

/-- Over every sequence of calls on a consistent state, the inode bitmaps do
what they should exactly as long as no inode is released and no directory
counter overflows. -/
theorem inodeRun_iff {v : Volume} (hv : InodeGeom v) {s : Fs} {dirs : Nat → Bool}
    (hs : InodeConsistent v s dirs) (ops : List InodeOp) :
    InodeRunOk v s dirs [] ops ↔ NoInodeDefect v s [] ops :=
  inodeRun_of_held hv ops s dirs [] hs (by simp)

/-! ## The sequence that fails -/

theorem sampleVolume_inodeGeom : InodeGeom sampleVolume where
  log_le := by decide
  ipg_pos := by decide
  ipg_le := by decide
  inodes_lt := by decide
  inode_bitmap_inj := by
    intro g h hg hh _
    have hone : sampleVolume.groupsCount = 1 := by decide
    omega

theorem sampleFs_inodeConsistent :
    InodeConsistent sampleVolume sampleFs (fun n => n == rootIno) where
  free_count := by decide
  free_sum := by decide
  dirs_count := by decide
  dirs_sum := by decide
  dirs_set := by decide
  reserved := by decide
  past := by decide

/-- Inode 11 is handed out and released at once: `free_inode_bit (11)` asks
`clear_bit` for bit 11, which belongs to inode 12 and is clear, and panics. -/
theorem inodeRun_sample :
    InodeGeom sampleVolume ∧ InodeConsistent sampleVolume sampleFs (fun n => n == rootIno) ∧
      ¬ InodeRunOk sampleVolume sampleFs (fun n => n == rootIno) []
        [.alloc 0 false, .free 11 false] := by
  refine ⟨sampleVolume_inodeGeom, sampleFs_inodeConsistent, ?_⟩
  rintro ⟨-, hok⟩
  obtain ⟨s', ino, halloc, -, -, -, hfree⟩ := hok (by decide) (by decide)
  obtain ⟨i, -, -, hspec⟩ := allocInodeBit_spec sampleVolume_inodeGeom sampleFs_inodeConsistent
    (g := 0) (by decide) (by decide) false
  have hino : (allocInodeBit sampleVolume sampleFs 0 false).toOption.map Prod.snd = some 11 := by
    decide
  rw [hspec] at hino halloc
  simp only [Except.ok.injEq, Prod.mk.injEq] at halloc
  obtain ⟨rfl, rfl⟩ := halloc
  have h11 : inoOf sampleVolume 0 i = 11 := by simpa [Except.toOption] using hino
  have hi : i = 10 := by
    unfold inoOf at h11
    omega
  subst hi
  obtain ⟨s'', hrun, -⟩ := hfree (by rw [h11]; exact List.mem_cons_self ..)
  have hfault : faultOf (freeInodeBit sampleVolume (markInode sampleVolume sampleFs 0 10 false)
      11 false) = some (.panic "Tried to free unused inode %d") := by decide
  rw [hrun] at hfault
  cases hfault

/-- `inodeRun_iff` at the small volume: two allocations in a row are in order. -/
theorem inodeRun_iff_sample :
    InodeRunOk sampleVolume sampleFs (fun n => n == rootIno) []
        [.alloc 0 false, .alloc 0 true] ↔
      NoInodeDefect sampleVolume sampleFs [] [.alloc 0 false, .alloc 0 true] :=
  inodeRun_iff sampleVolume_inodeGeom sampleFs_inodeConsistent _

end Cheviot.Ext2
