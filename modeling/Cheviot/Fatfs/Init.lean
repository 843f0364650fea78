import Cheviot.Fatfs.Cluster

/-!
# The partition of a disk: `init.c`

`detectPartition` takes the first partition of the master boot record whose boot sector
passes its checks, and computes from the fields of that sector where the FATs, the root
directory and the clusters are. Each check is about one field.

* `detectPartition` — the search; `checkBpb` — the checks and what is computed.
* `GeometryOk` — what every later computation of a sector relies on.
* `detectPartition_geometry_iff` — it holds exactly of the boot sectors in which the areas,
  the FAT and the root cluster fit each other.

Mirroring notes:
- `blockRead` goes to the block cache without the start of the partition.
- `InitRootNode` is `initVol`. The size of the partition, which only the formatting reads,
  and the fields of the boot sector that nothing reads are left out.
-/

namespace Cheviot.Fatfs

open Cheviot.Bytes

/-! ## The functions -/

/-- `blockRead` of one sector. -/
def blockRead (block : Nat) : FatM (List UInt8) := FatM.readSector block (sectorOffset 0) 512

/-- What is read of `struct MBRPartitionEntry`. -/
structure MBRPartitionEntry where
  partitionType : UInt8
  lba : Nat

/-- The entry number `t` of the master boot record. -/
def mbrEntry (bootsector : List UInt8) (t : Nat) : MBRPartitionEntry :=
  let entry := bootsector.drop (446 + 16 * t)
  ⟨entry.getD 4 0, leWord32 (entry.drop 8)⟩

/-- The type `detectPartition` gives a volume with a number of clusters. -/
def fatTypeOf (clusterCnt : Nat) : FatType :=
  if clusterCnt < 4085 then .fat12
  else if clusterCnt < 65525 then .fat16
  else .fat32

/-- The members of `struct FatSB`, from the boot sector of a partition. -/
def fatSbOf (lba : Nat) (fileBuf : List UInt8) : FatSb :=
  let word16 (o : Nat) := leWord16 (fileBuf.drop o)
  let word32 (o : Nat) := leWord32 (fileBuf.drop o)
  let sb : FatSb := {
    fatType := .fat12
    partitionStart := lba
    sectorsPerCluster := (fileBuf.getD 13 0).toNat
    reservedSectorsCnt := word16 14
    fatCnt := (fileBuf.getD 16 0).toNat
    rootEntriesCnt := word16 17
    sectorsPerFat16 := word16 22
    sectorsPerFat32 := word32 36
    rootCluster := word32 44
    totalSectorsCnt := if word16 19 ≠ 0 then word16 19 else word32 32 }
  { sb with fatType := fatTypeOf sb.clusterCnt }

/-- A round of the loop of `detectPartition`, from where the boot sector has been read. -/
def checkBpb (lba : Nat) (fileBuf : List UInt8) : Option FatSb :=
  let sb := fatSbOf lba fileBuf
  let mediaType := fileBuf.getD 21 0
  let fsVersion := leWord16 (fileBuf.drop 42)
  if leWord16 (fileBuf.drop 11) ≠ 512 then none
  else if ¬ (1 ≤ sb.sectorsPerCluster ∧ sb.sectorsPerCluster ≤ 128 ∧
      sb.sectorsPerCluster &&& (sb.sectorsPerCluster - 1) = 0) then none
  else if sb.reservedSectorsCnt = 0 then none
  else if sb.fatCnt = 0 then none
  else if ¬ (mediaType = 0 ∨ mediaType = 1 ∨ 0xf0 ≤ mediaType) then none
  else if sb.totalSectorsCnt = 0 then none
  else if sb.sectorsPerFat = 0 then none
  else if sb.fatType = .fat12 then none
  else if sb.fatType = .fat32 ∧ fsVersion ≠ 0 then none
  else if (sb.fatType = .fat12 ∨ sb.fatType = .fat16) ∧ sb.rootEntriesCnt = 0 then none
  else some sb

/-- The loop of `detectPartition`, for `n` more entries from number `t` on. -/
def detectLoop (bootsector : List UInt8) : Nat → Nat → FatM (Option FatSb)
  | 0, _ => return none
  | n + 1, t =>
    let mbe := mbrEntry bootsector t
    if mbe.partitionType = 0 then detectLoop bootsector n (t + 1)
    else do
      match checkBpb mbe.lba (← blockRead mbe.lba) with
      | some sb => return some sb
      | none => detectLoop bootsector n (t + 1)

/-- `detectPartition`: the volume with 0, or nothing with -1. -/
def detectPartition : FatM (Option FatSb) := do
  detectLoop (← blockRead 0) 4 0

/-! ## What later computations rely on -/

/-- The first sector behind the root directory. -/
def FatSb.areasEnd (sb : FatSb) : Nat := sb.rootDirStart + sb.rootDirSectors

/-- The volume has room for its areas, and each number of a cluster leads to sectors of the
volume and to an entry of the first FAT. -/
structure GeometryOk (sb : FatSb) : Prop where
  areas : sb.areasEnd ≤ sb.totalSectorsCnt
  sectors : ∀ cluster, 2 ≤ cluster → cluster ≤ sb.clusterCnt + 1 →
    ∀ i, i < sb.sectorsPerCluster → clusterToSector sb cluster + i < sb.totalSectorsCnt
  entries : ∀ cluster, 2 ≤ cluster → cluster ≤ sb.clusterCnt + 1 →
    -- `ReadFATEntry` computes the offset in 32 bits
    entryOffset sb.fatType cluster < 2 ^ 32 ∧
      entryOffset sb.fatType cluster + entryWidth sb.fatType ≤ 512 * sb.sectorsPerFat
  root : sb.fatType = .fat32 → 2 ≤ sb.rootCluster ∧ sb.rootCluster ≤ sb.clusterCnt + 1

/-- The fields of a boot sector fit each other: the areas are no larger than the volume, a FAT is
large enough for the clusters behind them, with numbers its offsets can count, and the root
directory of a FAT32 volume is in one of these. -/
structure GeometryFits (sb : FatSb) : Prop where
  areas : sb.areasEnd ≤ sb.totalSectorsCnt
  fat : ((sb.totalSectorsCnt - sb.areasEnd) / sb.sectorsPerCluster + 2) * entryWidth sb.fatType ≤
    min (512 * sb.sectorsPerFat) (2 ^ 32)
  root : sb.fatType = .fat32 → 2 ≤ sb.rootCluster ∧
    sb.rootCluster ≤ (sb.totalSectorsCnt - sb.areasEnd) / sb.sectorsPerCluster + 1

/-! ## What the checks leave -/

/-- What the checks say about a volume that is taken. -/
structure Checked (sb : FatSb) : Prop where
  cluster_pos : 0 < sb.sectorsPerCluster
  total_lt : sb.totalSectorsCnt < 2 ^ 32
  type_eq : sb.fatType = fatTypeOf sb.clusterCnt
  not_fat12 : sb.fatType ≠ .fat12

theorem leWord32_lt (l : List UInt8) : leWord32 l < 2 ^ 32 := by
  have h0 := (l.getD 0 0).toNat_lt
  have h1 := (l.getD 1 0).toNat_lt
  have h2 := (l.getD 2 0).toNat_lt
  have h3 := (l.getD 3 0).toNat_lt
  unfold leWord32
  omega

theorem fatSbOf_total_lt (lba : Nat) (fileBuf : List UInt8) :
    (fatSbOf lba fileBuf).totalSectorsCnt < 2 ^ 32 := by
  have h16 := leWord16_lt (fileBuf.drop 19)
  have h32 := leWord32_lt (fileBuf.drop 32)
  show (if _ then _ else _) < _
  split
  · omega
  · exact h32

/-- The number of clusters is computed before the type. -/
theorem clusterCnt_withType (sb : FatSb) (t : FatType) :
    FatSb.clusterCnt { sb with fatType := t } = sb.clusterCnt := by
  simp only [FatSb.clusterCnt, FatSb.dataSectors, FatSb.firstDataSector, FatSb.rootDirStart,
    FatSb.rootDirSectors, FatSb.sectorsPerFat]

theorem fatSbOf_type (lba : Nat) (fileBuf : List UInt8) :
    (fatSbOf lba fileBuf).fatType = fatTypeOf (fatSbOf lba fileBuf).clusterCnt := by
  unfold fatSbOf
  rw [clusterCnt_withType]

theorem checkBpb_checked {lba : Nat} {fileBuf : List UInt8} {sb : FatSb}
    (h : checkBpb lba fileBuf = some sb) : Checked sb := by
  have htotal := fatSbOf_total_lt lba fileBuf
  have htype := fatSbOf_type lba fileBuf
  unfold checkBpb at h
  dsimp only at h
  simp only [Option.ite_none_left_eq_some] at h
  obtain ⟨-, hspc, -, -, -, -, -, h12, -, -, heq⟩ := h
  rw [not_not] at hspc
  cases heq
  exact ⟨hspc.1, htotal, htype, h12⟩

theorem detectLoop_meets (bootsector : List UInt8) (n : Nat) : ∀ t,
    (detectLoop bootsector n t).Meets DiskOp.IsRead fun r => ∀ sb, r = some sb → Checked sb := by
  induction n with
  | zero => exact fun t => .pure fun sb h => nomatch h
  | succ n ih =>
    intro t
    rw [detectLoop]
    split
    · exact ih (t + 1)
    · refine .bind (FatM.readSector_meets ..) fun fileBuf _ => ?_
      cases hcheck : checkBpb (mbrEntry bootsector t).lba fileBuf with
      | none => exact ih (t + 1)
      | some sb =>
        refine .pure fun sb' h => ?_
        cases h
        exact checkBpb_checked hcheck

/-- `detectPartition` writes nothing, and what it takes has passed the checks. -/
theorem detectPartition_meets :
    detectPartition.Meets DiskOp.IsRead fun r => ∀ sb, r = some sb → Checked sb :=
  .bind (FatM.readSector_meets ..) fun bootsector _ => detectLoop_meets bootsector 4 0

/-! ## Geometry -/

section Geometry

variable {sb : FatSb}

/-- Where the areas fit, the clusters are what the sectors behind them hold. -/
theorem clusterCnt_eq (hlt : sb.totalSectorsCnt < 2 ^ 32) (h : sb.areasEnd ≤ sb.totalSectorsCnt) :
    sb.firstDataSector = sb.areasEnd ∧
      sb.clusterCnt = (sb.totalSectorsCnt - sb.areasEnd) / sb.sectorsPerCluster := by
  have hfirst : sb.firstDataSector = sb.areasEnd :=
    Nat.mod_eq_of_lt (Nat.lt_of_le_of_lt h hlt)
  refine ⟨hfirst, ?_⟩
  rw [FatSb.clusterCnt, FatSb.dataSectors, hfirst]
  congr 1
  omega

/-- The sectors of a cluster end within the volume. -/
theorem clusterToSector_lt (hlt : sb.totalSectorsCnt < 2 ^ 32)
    (h : sb.areasEnd ≤ sb.totalSectorsCnt) {cluster : Nat} (h2 : 2 ≤ cluster)
    (hle : cluster ≤ sb.clusterCnt + 1) {i : Nat} (hi : i < sb.sectorsPerCluster) :
    clusterToSector sb cluster + i < sb.totalSectorsCnt := by
  obtain ⟨hfirst, hcnt⟩ := clusterCnt_eq hlt h
  have hmul : (cluster - 2 + 1) * sb.sectorsPerCluster ≤ sb.clusterCnt * sb.sectorsPerCluster :=
    Nat.mul_le_mul_right _ (by omega)
  have hdata : sb.clusterCnt * sb.sectorsPerCluster ≤ sb.totalSectorsCnt - sb.areasEnd := by
    rw [hcnt]
    exact Nat.div_mul_le_self ..
  have hcle : sb.clusterCnt ≤ sb.totalSectorsCnt - sb.areasEnd :=
    Nat.le_trans (Nat.le_mul_of_pos_right _ (by omega)) hdata
  rw [Nat.succ_mul] at hmul
  rw [clusterToSector, hfirst, show (cluster + 2 ^ 32 - 2) % 2 ^ 32 = cluster - 2 by omega,
    Nat.mod_eq_of_lt (by omega)]
  omega

theorem entryOffset_eq (ht : sb.fatType ≠ .fat12) (cluster : Nat) :
    entryOffset sb.fatType cluster = cluster * entryWidth sb.fatType := by
  cases hcase : sb.fatType with
  | fat12 => exact absurd hcase ht
  | fat16 => rfl
  | fat32 => rfl

/-- A volume without a cluster is neither of FAT16 nor of FAT32. -/
theorem Checked.clusterCnt_pos (hc : Checked sb) : 0 < sb.clusterCnt := by
  have ht := hc.type_eq
  unfold fatTypeOf at ht
  split at ht
  · exact absurd ht hc.not_fat12
  · omega

/-- The geometry of a volume that has passed the checks. -/
theorem Checked.geometry_iff (hc : Checked sb) : GeometryOk sb ↔ GeometryFits sb := by
  have hspc := hc.cluster_pos
  constructor
  · intro h
    obtain ⟨-, hcnt⟩ := clusterCnt_eq hc.total_lt h.areas
    have hpos := hc.clusterCnt_pos
    obtain ⟨hlt, hin⟩ := h.entries (sb.clusterCnt + 1) (by omega) (Nat.le_refl _)
    rw [entryOffset_eq hc.not_fat12] at hlt hin
    refine ⟨h.areas, ?_, ?_⟩
    · rw [← hcnt]
      -- an entry that begins below 2 ^ 32 ends there
      cases ht : sb.fatType with
      | fat12 => exact absurd ht hc.not_fat12
      | fat16 =>
        rw [ht] at hlt hin
        simp only [entryWidth] at hlt hin ⊢
        omega
      | fat32 =>
        rw [ht] at hlt hin
        simp only [entryWidth] at hlt hin ⊢
        omega
    · rw [← hcnt]
      exact h.root
  · intro h
    obtain ⟨-, hcnt⟩ := clusterCnt_eq hc.total_lt h.areas
    have hfat := h.fat
    rw [← hcnt] at hfat
    refine ⟨h.areas, fun cluster h2 hle i hi => clusterToSector_lt hc.total_lt h.areas h2 hle hi,
      fun cluster h2 hle => ?_, ?_⟩
    · have hmul : (cluster + 1) * entryWidth sb.fatType ≤
          (sb.clusterCnt + 2) * entryWidth sb.fatType := Nat.mul_le_mul_right _ (by omega)
      have hwidth : 0 < entryWidth sb.fatType := by
        cases sb.fatType <;> decide
      rw [entryOffset_eq hc.not_fat12]
      rw [Nat.succ_mul] at hmul
      omega
    · rw [hcnt]
      exact h.root

/-- What `detectPartition` takes has a geometry to rely on exactly when the fields of its boot
sector fit each other. -/
theorem detectPartition_geometry_iff {c c' : Cache}
    (h : detectPartition.run (cacheOp 0) c = .ok (c', some sb)) :
    GeometryOk sb ↔ GeometryFits sb :=
  (detectPartition_meets.result h sb rfl).geometry_iff

end Geometry

/-- A disk of one partition in sector 1, a FAT16 volume with one FAT of 20 sectors and a number
of sectors in two bytes. -/
def sampleDisk (lo hi : UInt8) (sector : Nat) : Buf := fun i =>
  match sector, i with
  | 0, 450 => 6
  | 0, 454 => 1
  | 1, 12 => 2
  | 1, 13 => 1
  | 1, 14 => 1
  | 1, 16 => 1
  | 1, 17 => 16
  | 1, 19 => lo
  | 1, 20 => hi
  | 1, 21 => 0xf8
  | 1, 22 => 20
  | _, _ => 0

/-- What is found on the array is found on the cache. -/
theorem detectPartition_of_flat {c : Cache} {flat : Nat → UInt8} (hs : Stands c flat) (sb : FatSb)
    (h : (detectPartition.run (flatOp 0) flat).toOption.map Prod.snd = some (some sb)) :
    ∃ c', detectPartition.run (cacheOp 0) c = .ok (c', some sb) := by
  cases hrun : detectPartition.run (flatOp 0) flat with
  | error e =>
    rw [hrun] at h
    cases h
  | ok r =>
    rw [hrun] at h
    simp only [Except.toOption, Option.map_some, Option.some.injEq] at h
    obtain ⟨flat', r⟩ := r
    subst h
    obtain ⟨c', -, -, hc, -, rfl⟩ := (yields_iff hs 0 detectPartition fun _ r => r = some sb).mpr
      ⟨_, _, hrun, rfl⟩
    exact ⟨c', hc⟩

/-- With 5000 sectors it fits. -/
theorem detectPartition_geometry_iff_sample : ∃ c c', createCache (sampleDisk 0x88 0x13) 1 512 true
      5 = some c ∧ detectPartition.run (cacheOp 0) c = .ok (c', some sampleFat16) ∧
    GeometryOk sampleFat16 := by
  have hcreate : createCache (sampleDisk 0x88 0x13) 1 512 true 5 = some _ := rfl
  obtain ⟨c', hrun⟩ := detectPartition_of_flat (createCache_stands hcreate).1 sampleFat16
    (by decide +kernel)
  refine ⟨_, c', hcreate, hrun, (detectPartition_geometry_iff hrun).mpr ⟨?_, ?_, ?_⟩⟩
  · decide
  · decide
  · exact fun h => nomatch h

/-- With 10 sectors the clusters begin behind the volume, and are counted around 2 ^ 32. -/
theorem detectPartition_wraps : ∃ c c' sb, createCache (sampleDisk 10 0) 1 512 true 5 = some c ∧
    detectPartition.run (cacheOp 0) c = .ok (c', some sb) ∧ ¬ GeometryOk sb := by
  have hcreate : createCache (sampleDisk 10 0) 1 512 true 5 = some _ := rfl
  obtain ⟨c', hrun⟩ := detectPartition_of_flat (createCache_stands hcreate).1
    { sampleFat16 with fatType := .fat32, totalSectorsCnt := 10 } (by decide +kernel)
  exact ⟨_, c', _, hcreate, hrun, fun h => absurd h.areas (by decide)⟩

end Cheviot.Fatfs
