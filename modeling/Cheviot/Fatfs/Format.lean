import Cheviot.Fatfs.Init

/-!
# A new volume: `format.c`

`InitializeFatSB` chooses the parameters of a volume by the size of its partition alone: a
row of a table for a floppy disk, else a type, a cluster size from the table of that type,
and a FAT size from a formula. `FatPrecalculateFSBValues` then computes the areas, and the
type once more from the number of clusters.

* `initializeFatSB`, `fatPrecalculateFSBValues` — the two functions.
* `FormatOk` — the areas, the types, the FAT and the cluster size fit each other.
* `initializeFatSB_ok_iff` — the sizes for which they do.

Mirroring notes:
- The scan of a size table goes on behind the row it has found, to the last row.
- The boot code, the serial number, the labels but for the type and `struct FatFSInfo` are
  left out: nothing reads them. The members of `fsb` that a branch leaves are in `old`.
-/

namespace Cheviot.Fatfs

/-! ## The tables: `globals.c` -/

/-- `struct FatBPB`, without what stands in front of the parameters. -/
structure FatBPB where
  bytesPerSector : Nat
  sectorsPerCluster : Nat
  reservedSectorsCnt : Nat
  fatCnt : Nat
  rootEntriesCnt : Nat
  totalSectorsCnt16 : Nat
  mediaType : Nat
  sectorsPerFat16 : Nat
  sectorsPerTrack : Nat
  headsPerCylinder : Nat
  totalSectorsCnt32 : Nat
  deriving DecidableEq

/-- A row of `fat12_bpb`. -/
def fat12Row (bytes spc reserved fats rootEntries total media spf track heads : Nat) : FatBPB :=
  ⟨bytes, spc, reserved, fats, rootEntries, total, media, spf, track, heads, 0⟩

/-- `fat12_bpb` -/
def fat12Bpb : List FatBPB := [
  fat12Row 512 1 1 2 64 320 0xfe 1 8 1,
  fat12Row 512 1 1 2 64 360 0xfc 2 9 1,
  fat12Row 512 2 1 2 112 640 0xff 1 8 2,
  fat12Row 512 2 1 2 112 720 0xfd 2 9 2,
  fat12Row 512 2 1 2 112 1440 0xf9 3 9 2,
  fat12Row 512 1 1 2 224 2400 0xf9 7 15 2,
  fat12Row 512 1 1 2 224 2880 0xf0 9 18 2,
  fat12Row 512 2 1 2 240 5760 0xf0 9 36 2]

/-- `dsksz_to_spc_fat16`: a limit of the size, and the sectors of a cluster up to it. -/
def dskszToSpcFat16 : List (Nat × Nat) :=
  [(8400, 0), (32680, 2), (262144, 4), (524288, 8), (1048576, 16), (0xffffffff, 0)]

/-- `dsksz_to_spc_fat32` -/
def dskszToSpcFat32 : List (Nat × Nat) :=
  [(66600, 0), (532480, 1), (16777216, 8), (33554432, 16), (67108864, 32), (0xffffffff, 64)]

/-! ## The functions -/

/-- What `InitializeFatSB` chooses: the type, the parameters, and the type in the label. -/
structure Formatted where
  fatType : FatType
  bpb : FatBPB
  sectorsPerFat32 : Nat
  rootCluster : Nat
  filesystemType : String
  deriving DecidableEq

/-- The scan of a size table. -/
def scanSizeTable (table : List (Nat × Nat)) (partitionSize : Nat) : Nat :=
  (table.takeWhile (·.1 ≠ 0xffffffff)).foldl
    (fun sectorsPerCluster row => if partitionSize ≤ row.1 then row.2 else sectorsPerCluster) 0

/-- `FatPrecalculateFSBValues` -/
def fatPrecalculateFSBValues (old : FatSb) (f : Formatted) : FatSb :=
  let sb : FatSb := {
    fatType := f.fatType
    partitionStart := old.partitionStart
    sectorsPerCluster := f.bpb.sectorsPerCluster
    reservedSectorsCnt := f.bpb.reservedSectorsCnt
    fatCnt := f.bpb.fatCnt
    rootEntriesCnt := f.bpb.rootEntriesCnt
    sectorsPerFat16 := f.bpb.sectorsPerFat16
    sectorsPerFat32 := f.sectorsPerFat32
    rootCluster := f.rootCluster
    totalSectorsCnt := if f.bpb.totalSectorsCnt16 ≠ 0 then f.bpb.totalSectorsCnt16
      else f.bpb.totalSectorsCnt32 }
  { sb with fatType := fatTypeOf sb.clusterCnt }

/-- The branch of `InitializeFatSB` for a floppy disk. -/
def formatFat12 (old : FatSb) (partitionSize : Int) : Option Formatted :=
  (fat12Bpb.find? fun row => (row.totalSectorsCnt16 : Int) = partitionSize).map fun row =>
    ⟨.fat12, row, old.sectorsPerFat32, old.rootCluster, "FAT12   "⟩

/-- Its branch for a FAT16 volume. -/
def formatFat16 (old : FatSb) (partitionSize : Nat) : Option Formatted :=
  let fatCnt := 2
  let reservedSectorsCnt := 1
  let sectorsPerCluster := scanSizeTable dskszToSpcFat16 partitionSize
  if sectorsPerCluster = 0 then none
  else
    let rootDirSectors := (512 * 32 + (512 - 1)) / 512
    let tmp1 := partitionSize - (reservedSectorsCnt + rootDirSectors)
    let tmp2 := 256 * sectorsPerCluster + fatCnt
    let sectorsPerFat := (tmp1 + (tmp2 - 1)) / tmp2
    let bpb : FatBPB := {
      bytesPerSector := 512
      sectorsPerCluster := sectorsPerCluster
      reservedSectorsCnt := reservedSectorsCnt
      fatCnt := fatCnt
      rootEntriesCnt := 512
      totalSectorsCnt16 := if partitionSize < 0x10000 then partitionSize else 0
      mediaType := 0xf8
      sectorsPerFat16 := sectorsPerFat % 2 ^ 16
      sectorsPerTrack := 0
      headsPerCylinder := 0
      totalSectorsCnt32 := if partitionSize < 0x10000 then 0 else partitionSize }
    some ⟨.fat16, bpb, old.sectorsPerFat32, old.rootCluster, "FAT16   "⟩

/-- Its branch for a FAT32 volume. -/
def formatFat32 (partitionSize : Nat) : Option Formatted :=
  let fatCnt := 2
  let reservedSectorsCnt := 32
  let sectorsPerCluster := scanSizeTable dskszToSpcFat32 partitionSize
  if sectorsPerCluster = 0 then none
  else
    let rootDirSectors := (0 * 32 + (512 - 1)) / 512
    let tmp1 := partitionSize - (reservedSectorsCnt + rootDirSectors)
    let tmp2 := (256 * sectorsPerCluster + fatCnt) / 2
    let sectorsPerFat := (tmp1 + (tmp2 - 1)) / tmp2
    let bpb : FatBPB := {
      bytesPerSector := 512
      sectorsPerCluster := sectorsPerCluster
      reservedSectorsCnt := reservedSectorsCnt
      fatCnt := fatCnt
      rootEntriesCnt := 0
      totalSectorsCnt16 := 0
      mediaType := 0xf8
      sectorsPerFat16 := 0
      sectorsPerTrack := 0
      headsPerCylinder := 0
      totalSectorsCnt32 := partitionSize }
    some ⟨.fat32, bpb, sectorsPerFat, 2, "FAT32   "⟩

/-- `InitializeFatSB`: the parameters and the volume with 0, or nothing with -1. -/
def initializeFatSB (old : FatSb) (partitionSize : Int) : Option (Formatted × FatSb) :=
  let formatted :=
    if partitionSize ≤ 8400 then formatFat12 old partitionSize
    else if partitionSize ≤ 1048576 then formatFat16 old partitionSize.toNat
    else formatFat32 partitionSize.toNat
  formatted.map fun f => (f, fatPrecalculateFSBValues old f)

/-! ## What fits -/

/-- The bits of an entry of a FAT. -/
def entryBits : FatType → Nat
  | .fat12 => 12
  | .fat16 => 16
  | .fat32 => 32

/-- The label of a volume of a type. -/
def typeLabel : FatType → String
  | .fat12 => "FAT12   "
  | .fat16 => "FAT16   "
  | .fat32 => "FAT32   "

/-- The size table of a type. -/
def sizeTable : FatType → List (Nat × Nat)
  | .fat12 => fat12Bpb.map fun row => (row.totalSectorsCnt16, row.sectorsPerCluster)
  | .fat16 => dskszToSpcFat16
  | .fat32 => dskszToSpcFat32

/-- The areas fit in the partition, the number of clusters has the type that was chosen, each FAT
has room for its entries, and the cluster size is that of the first row for the partition. -/
structure FormatOk (partitionSize : Nat) (f : Formatted) (sb : FatSb) : Prop where
  areas : sb.areasEnd ≤ partitionSize
  type_eq : sb.fatType = f.fatType ∧ f.filesystemType = typeLabel f.fatType
  fat : (sb.clusterCnt + 2) * entryBits sb.fatType ≤ 8 * 512 * sb.sectorsPerFat
  cluster : ((sizeTable f.fatType).find? fun row => partitionSize ≤ row.1).map Prod.snd =
    some sb.sectorsPerCluster

/-- The sizes for which everything fits: a floppy disk, the sizes of the last row before the
limit, and of the FAT16 sizes among them those that leave room in the last sector of a FAT. -/
def FormatFits (partitionSize : Nat) : Prop :=
  partitionSize ≤ 8400 ∨
  (524288 < partitionSize ∧ partitionSize ≤ 1048576 ∧ (partitionSize - 34) % 4098 < 4081) ∨
  33554432 < partitionSize

/-! ## What is computed of the parameters -/

section Computed

variable {old : FatSb} {f : Formatted} {partitionSize : Nat}

/-- The sectors in front of the clusters, with `spf` sectors to a FAT. -/
def FatBPB.areas (bpb : FatBPB) (spf : Nat) : Nat :=
  bpb.reservedSectorsCnt + bpb.fatCnt * spf + (bpb.rootEntriesCnt * 32 + 511) / 512

/-- The clusters behind them, of `total` sectors. -/
def FatBPB.clusters (bpb : FatBPB) (spf total : Nat) : Nat :=
  (total - bpb.areas spf) / bpb.sectorsPerCluster

/-- `FormatOk` in the numbers of the parameters, where the areas are no larger than the volume. -/
theorem formatOk_iff {spf total : Nat}
    (hspf : (if f.bpb.sectorsPerFat16 ≠ 0 then f.bpb.sectorsPerFat16 else f.sectorsPerFat32) = spf)
    (htotal : (if f.bpb.totalSectorsCnt16 ≠ 0 then f.bpb.totalSectorsCnt16
      else f.bpb.totalSectorsCnt32) = total)
    (hlt : total < 2 ^ 32) (hle : f.bpb.areas spf ≤ total) :
    FormatOk partitionSize f (fatPrecalculateFSBValues old f) ↔
      f.bpb.areas spf ≤ partitionSize ∧
      (fatTypeOf (f.bpb.clusters spf total) = f.fatType ∧ f.filesystemType = typeLabel f.fatType) ∧
      (f.bpb.clusters spf total + 2) * entryBits (fatTypeOf (f.bpb.clusters spf total)) ≤
        8 * 512 * spf ∧
      ((sizeTable f.fatType).find? fun row => partitionSize ≤ row.1).map Prod.snd =
        some f.bpb.sectorsPerCluster := by
  -- the numbers that the precalculated values have
  have hfat : (fatPrecalculateFSBValues old f).sectorsPerFat = spf := hspf
  have hareas : (fatPrecalculateFSBValues old f).areasEnd = f.bpb.areas spf := by
    rw [← hfat]
    rfl
  have htot : (fatPrecalculateFSBValues old f).totalSectorsCnt = total := htotal
  obtain ⟨-, hcnt⟩ := @clusterCnt_eq (fatPrecalculateFSBValues old f) (by rw [htot]; exact hlt)
    (by rw [htot, hareas]; exact hle)
  rw [htot, hareas] at hcnt
  have hcnt : (fatPrecalculateFSBValues old f).clusterCnt = f.bpb.clusters spf total := hcnt
  have htype : (fatPrecalculateFSBValues old f).fatType = fatTypeOf (f.bpb.clusters spf total) := by
    rw [← hcnt]
    unfold fatPrecalculateFSBValues
    rw [clusterCnt_withType]
  constructor
  · intro h
    have hareas' := h.areas
    have htype' := h.type_eq
    have hfat' := h.fat
    rw [hareas] at hareas'
    rw [htype] at htype'
    rw [hcnt, htype, hfat] at hfat'
    exact ⟨hareas', htype', hfat', h.cluster⟩
  · rintro ⟨hareas', htype', hfat', hcluster⟩
    refine ⟨?_, ?_, ?_, hcluster⟩
    · rw [hareas]
      exact hareas'
    · rw [htype]
      exact htype'
    · rw [hcnt, htype, hfat]
      exact hfat'

/-! ## The three branches -/

/-- The rows of the table of floppy disks fit. -/
theorem fat12Bpb_fits : ∀ row ∈ fat12Bpb, row.sectorsPerFat16 ≠ 0 ∧ row.totalSectorsCnt16 ≠ 0 ∧
    row.totalSectorsCnt16 < 2 ^ 32 ∧ row.areas row.sectorsPerFat16 ≤ row.totalSectorsCnt16 ∧
    fatTypeOf (row.clusters row.sectorsPerFat16 row.totalSectorsCnt16) = .fat12 ∧
    (row.clusters row.sectorsPerFat16 row.totalSectorsCnt16 + 2) * 12 ≤
      8 * 512 * row.sectorsPerFat16 ∧
    ((sizeTable .fat12).find? fun row' => row.totalSectorsCnt16 ≤ row'.1).map Prod.snd =
      some row.sectorsPerCluster := by
  decide

theorem formatFat12_ok {n : Int} (h : formatFat12 old n = some f) :
    FormatOk n.toNat f (fatPrecalculateFSBValues old f) := by
  obtain ⟨row, hfind, rfl⟩ := Option.map_eq_some_iff.mp h
  have hn : n = (row.totalSectorsCnt16 : Int) := by
    have heq := List.find?_some hfind
    exact (of_decide_eq_true heq).symm
  obtain ⟨hspf, htotal, hlt, hareas, htype, hfat, hrow⟩ :=
    fat12Bpb_fits row (List.mem_of_find?_eq_some hfind)
  rw [hn, Int.toNat_natCast, formatOk_iff (if_pos hspf) (if_pos htotal) hlt hareas]
  refine ⟨hareas, ⟨htype, rfl⟩, ?_, hrow⟩
  show _ * entryBits (fatTypeOf (row.clusters _ _)) ≤ _
  rw [htype]
  exact hfat

/-- The scan for a FAT16 volume ends at the last row. -/
theorem scanSizeTable_fat16 {n : Nat} (h : n ≤ 1048576) : scanSizeTable dskszToSpcFat16 n = 16 := by
  show (if n ≤ 1048576 then 16 else _) = 16
  exact if_pos h

/-- The first row of the table is another one up to the limit of the row before. -/
theorem sizeTable_fat16 {n : Nat} (hlo : 8400 < n) (hhi : n ≤ 1048576) :
    ((sizeTable .fat16).find? fun row => n ≤ row.1).map Prod.snd = some 16 ↔ 524288 < n := by
  show ((dskszToSpcFat16).find? fun row => n ≤ row.1).map Prod.snd = some 16 ↔ 524288 < n
  unfold dskszToSpcFat16
  rw [List.find?_cons_of_neg (by simpa using hlo)]
  by_cases h1 : n ≤ 32680
  · rw [List.find?_cons_of_pos (by simpa using h1)]
    simp
    omega
  rw [List.find?_cons_of_neg (by simpa using h1)]
  by_cases h2 : n ≤ 262144
  · rw [List.find?_cons_of_pos (by simpa using h2)]
    simp
    omega
  rw [List.find?_cons_of_neg (by simpa using h2)]
  by_cases h3 : n ≤ 524288
  · rw [List.find?_cons_of_pos (by simpa using h3)]
    simp
    omega
  rw [List.find?_cons_of_neg (by simpa using h3), List.find?_cons_of_pos (by simpa using hhi)]
  simp
  omega

/-- The parameters of a volume of `n` sectors that a formula has chosen. -/
structure Chosen (f : Formatted) (t : FatType) (n reserved spc rootDir spf : Nat) : Prop where
  fatType : f.fatType = t
  label : f.filesystemType = typeLabel t
  cluster : f.bpb.sectorsPerCluster = spc
  areas : ∀ spf, f.bpb.areas spf = reserved + 2 * spf + rootDir
  fat : (if f.bpb.sectorsPerFat16 ≠ 0 then f.bpb.sectorsPerFat16 else f.sectorsPerFat32) = spf
  total : (if f.bpb.totalSectorsCnt16 ≠ 0 then f.bpb.totalSectorsCnt16
    else f.bpb.totalSectorsCnt32) = n

/-- What of them decides whether everything fits. -/
theorem Chosen.formatOk_iff {t : FatType} {n reserved spc rootDir spf : Nat}
    (h : Chosen f t n reserved spc rootDir spf) (hn : n < 2 ^ 32)
    (hle : reserved + 2 * spf + rootDir ≤ n) :
    FormatOk n f (fatPrecalculateFSBValues old f) ↔
      fatTypeOf ((n - (reserved + 2 * spf + rootDir)) / spc) = t ∧
      ((n - (reserved + 2 * spf + rootDir)) / spc + 2) * entryBits t ≤ 8 * 512 * spf ∧
      ((sizeTable t).find? fun row => n ≤ row.1).map Prod.snd = some spc := by
  have hareas := h.areas spf
  rw [Cheviot.Fatfs.formatOk_iff h.fat h.total hn (by rw [hareas]; exact hle), FatBPB.clusters,
    hareas, h.cluster, h.fatType, h.label]
  constructor
  · rintro ⟨-, ⟨htype, -⟩, hfat, hrow⟩
    rw [htype] at hfat
    exact ⟨htype, hfat, hrow⟩
  · rintro ⟨htype, hfat, hrow⟩
    rw [htype]
    exact ⟨hle, ⟨rfl, rfl⟩, hfat, hrow⟩

theorem formatFat16_chosen {n : Nat} (hlo : 8400 < n) (hhi : n ≤ 1048576)
    (h : formatFat16 old n = some f) : Chosen f .fat16 n 1 16 32 ((n - 33 + 4097) / 4098) := by
  unfold formatFat16 at h
  rw [scanSizeTable_fat16 hhi] at h
  cases h
  have hmod : (n - 33 + 4097) / 4098 % 2 ^ 16 = (n - 33 + 4097) / 4098 :=
    Nat.mod_eq_of_lt (by omega)
  refine ⟨rfl, rfl, rfl, fun spf => by simp only [FatBPB.areas], ?_, ?_⟩
  · show (if (n - 33 + 4097) / 4098 % 2 ^ 16 ≠ 0 then (n - 33 + 4097) / 4098 % 2 ^ 16 else _) = _
    rw [hmod, if_pos (by omega)]
  · show (if (if n < 0x10000 then n else 0) ≠ 0 then (if n < 0x10000 then n else 0)
      else (if n < 0x10000 then 0 else n)) = n
    split_ifs <;> omega

theorem formatFat16_iff {n : Nat} (hlo : 8400 < n) (hhi : n ≤ 1048576)
    (h : formatFat16 old n = some f) :
    FormatOk n f (fatPrecalculateFSBValues old f) ↔ FormatFits n := by
  rw [(formatFat16_chosen hlo hhi h).formatOk_iff (by omega) (by omega), sizeTable_fat16 hlo hhi]
  unfold FormatFits fatTypeOf
  simp only [entryBits]
  constructor
  · rintro ⟨-, hfat, hrow⟩
    omega
  · intro hfits
    rw [if_neg (by omega), if_pos (by omega)]
    exact ⟨rfl, by omega, by omega⟩

/-- The scan for a FAT32 volume ends at the last row before the one that marks the end. -/
theorem scanSizeTable_fat32 {n : Nat} (h : n ≤ 67108864) :
    scanSizeTable dskszToSpcFat32 n = 32 := by
  show (if n ≤ 67108864 then 32 else _) = 32
  exact if_pos h

/-- Behind it a size has no row. -/
theorem scanSizeTable_fat32_none {n : Nat} (h : 67108864 < n) :
    scanSizeTable dskszToSpcFat32 n = 0 := by
  show (if n ≤ 67108864 then 32 else if n ≤ 33554432 then 16 else if n ≤ 16777216 then 8
    else if n ≤ 532480 then 1 else if n ≤ 66600 then 0 else 0) = 0
  split_ifs <;> omega

theorem sizeTable_fat32 {n : Nat} (hlo : 1048576 < n) (hhi : n ≤ 67108864) :
    ((sizeTable .fat32).find? fun row => n ≤ row.1).map Prod.snd = some 32 ↔ 33554432 < n := by
  show ((dskszToSpcFat32).find? fun row => n ≤ row.1).map Prod.snd = some 32 ↔ 33554432 < n
  have h1 : 66600 < n := by omega
  have h2 : 532480 < n := by omega
  unfold dskszToSpcFat32
  rw [List.find?_cons_of_neg (by simpa using h1), List.find?_cons_of_neg (by simpa using h2)]
  by_cases h3 : n ≤ 16777216
  · rw [List.find?_cons_of_pos (by simpa using h3)]
    simp
    omega
  rw [List.find?_cons_of_neg (by simpa using h3)]
  by_cases h4 : n ≤ 33554432
  · rw [List.find?_cons_of_pos (by simpa using h4)]
    simp
    omega
  rw [List.find?_cons_of_neg (by simpa using h4), List.find?_cons_of_pos (by simpa using hhi)]
  simp
  omega

theorem formatFat32_chosen {n : Nat} (h : formatFat32 n = some f) :
    n ≤ 67108864 ∧ Chosen f .fat32 n 32 32 0 ((n - 32 + 4096) / 4097) := by
  unfold formatFat32 at h
  by_cases hhi : n ≤ 67108864
  · rw [scanSizeTable_fat32 hhi] at h
    cases h
    exact ⟨hhi, rfl, rfl, rfl, fun spf => by simp only [FatBPB.areas], rfl, rfl⟩
  · rw [scanSizeTable_fat32_none (by omega)] at h
    cases h

theorem formatFat32_iff {n : Nat} (hlo : 1048576 < n) (h : formatFat32 n = some f) :
    FormatOk n f (fatPrecalculateFSBValues old f) ↔ FormatFits n := by
  obtain ⟨hhi, hchosen⟩ := formatFat32_chosen h
  rw [hchosen.formatOk_iff (by omega) (by omega), sizeTable_fat32 hlo hhi]
  unfold FormatFits fatTypeOf
  simp only [entryBits]
  constructor
  · rintro ⟨-, -, hrow⟩
    omega
  · intro hfits
    rw [if_neg (by omega), if_neg (by omega)]
    exact ⟨rfl, by omega, by omega⟩

/-- Where `InitializeFatSB` returns 0, everything fits exactly for the sizes of `FormatFits`. -/
theorem initializeFatSB_ok_iff {partitionSize : Int} {sb : FatSb}
    (h : initializeFatSB old partitionSize = some (f, sb)) :
    FormatOk partitionSize.toNat f sb ↔ FormatFits partitionSize.toNat := by
  unfold initializeFatSB at h
  obtain ⟨f', hf, heq⟩ := Option.map_eq_some_iff.mp h
  cases heq
  split at hf
  next hlo => exact iff_of_true (formatFat12_ok hf) (.inl (by omega))
  next hlo =>
    split at hf
    next hhi => exact formatFat16_iff (by omega) (by omega) hf
    next hhi => exact formatFat32_iff (by omega) hf

end Computed

/-- `initializeFatSB_ok_iff` for a partition of 293 MB, which gets a FAT16 volume. -/
theorem initializeFatSB_ok_iff_sample : ∃ f sb,
    initializeFatSB sampleFat16 600000 = some (f, sb) ∧ FormatOk 600000 f sb := by
  have hrun : initializeFatSB sampleFat16 600000 = some _ := rfl
  exact ⟨_, _, hrun, (initializeFatSB_ok_iff hrun).mpr (.inr (.inl (by decide)))⟩

/-- A partition of 20000 sectors gets the clusters of the largest FAT16 volume, and so few of them
that their number is that of a FAT12 volume. -/
theorem initializeFatSB_small : ∃ f sb,
    initializeFatSB sampleFat16 20000 = some (f, sb) ∧ ¬ FormatOk 20000 f sb := by
  have hrun : initializeFatSB sampleFat16 20000 = some _ := rfl
  exact ⟨_, _, hrun, fun h => absurd h.type_eq.1 (by decide)⟩

end Cheviot.Fatfs
