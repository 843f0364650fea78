import Cheviot.Fatfs.Disk

/-!
# Volumes, directory entries and nodes: `fat.h`

* `FatSb` — what `detectPartition` has read of a volume, and what it computes.
* `FatDirEntry` — the 32 bytes of a directory entry, and their members.
* `FatNode`, `Vol` — the nodes of the handler and their list.
* `Env` — what the handler finds in memory it has not written, and its configuration.

Mirroring notes:
- Numbers are `Nat`. Where a sum or a product of the source can leave the 32 bits
  of its type, the remainder is written out. Offsets are not negative.
- The host is little-endian: nothing in fatfs swaps bytes.
- A node is a place in `nodes`; the root node is number 0. `malloc` succeeds and
  gives a place that has not been used before.
-/

namespace Cheviot.Fatfs

open Cheviot.Bytes

/-! ## Volumes -/

/-- `TYPE_FAT12`, `TYPE_FAT16`, `TYPE_FAT32` -/
inductive FatType where
  | fat12
  | fat16
  | fat32
  deriving DecidableEq, Repr

/-- The members of `struct FatSB` that stay as `detectPartition` leaves them. -/
structure FatSb where
  fatType : FatType
  partitionStart : Nat
  sectorsPerCluster : Nat
  reservedSectorsCnt : Nat
  fatCnt : Nat
  rootEntriesCnt : Nat
  sectorsPerFat16 : Nat
  sectorsPerFat32 : Nat
  rootCluster : Nat
  totalSectorsCnt : Nat
  deriving DecidableEq, Repr

namespace FatSb

variable (sb : FatSb)

/-- `fsb.sectors_per_fat` -/
def sectorsPerFat : Nat := if sb.sectorsPerFat16 ≠ 0 then sb.sectorsPerFat16 else sb.sectorsPerFat32

/-- `fsb.root_dir_sectors` -/
def rootDirSectors : Nat := (sb.rootEntriesCnt * 32 + 511) / 512

/-- The first sector of the root directory of a FAT12 or FAT16 volume. -/
def rootDirStart : Nat := sb.reservedSectorsCnt + sb.fatCnt * sb.sectorsPerFat

/-- `fsb.first_data_sector` -/
def firstDataSector : Nat := (sb.rootDirStart + sb.rootDirSectors) % 2 ^ 32

/-- `fsb.data_sectors` -/
def dataSectors : Nat := (sb.totalSectorsCnt + 2 ^ 32 - sb.firstDataSector) % 2 ^ 32

/-- `fsb.cluster_cnt` -/
def clusterCnt : Nat := sb.dataSectors / sb.sectorsPerCluster

/-- The bytes of a cluster. -/
def clusterSize : Nat := sb.sectorsPerCluster * 512

/-- `fat_sz`, the sectors of one FAT. -/
def fatSz : Nat :=
  match sb.fatType with
  | .fat12 | .fat16 => sb.sectorsPerFat16
  | .fat32 => sb.sectorsPerFat32

end FatSb

/-! ## Cluster numbers -/

/-- `CLUSTER_FREE` -/
def clusterFree : Nat := 0

/-- `CLUSTER_ALLOC_MIN` -/
def clusterAllocMin : Nat := 1

/-- `CLUSTER_ALLOC_MAX` -/
def clusterAllocMax : Nat := 0x0ffffff6

/-- `CLUSTER_BAD` -/
def clusterBad : Nat := 0x0ffffff7

/-- `CLUSTER_EOC` -/
def clusterEoc : Nat := 0x0fffffff

/-- A cluster of a chain, neither its end nor a mark. -/
def Allocated (cluster : Nat) : Prop := clusterAllocMin ≤ cluster ∧ cluster ≤ clusterAllocMax

instance (cluster : Nat) : Decidable (Allocated cluster) := instDecidableAnd

namespace FatType

/-- `FAT12_CLUSTER_ALLOC_MAX` and its like -/
def allocMax : FatType → Nat
  | fat12 => 0xff6
  | fat16 => 0xfff6
  | fat32 => 0x0ffffff6

/-- `FAT12_CLUSTER_BAD` and its like -/
def bad : FatType → Nat
  | fat12 => 0xff7
  | fat16 => 0xfff7
  | fat32 => 0x0ffffff7

/-- `FAT12_CLUSTER_EOC_MIN` and its like -/
def eocMin : FatType → Nat
  | fat12 => 0xff8
  | fat16 => 0xfff8
  | fat32 => 0x0ffffff8

/-- `FAT12_CLUSTER_EOC` and its like, which is `EOC_MAX` too -/
def eoc : FatType → Nat
  | fat12 => 0xfff
  | fat16 => 0xffff
  | fat32 => 0x0fffffff

/-- The number a value of a FAT stands for. -/
def fromFat (t : FatType) (value : Nat) : Nat :=
  if t.eocMin ≤ value ∧ value ≤ t.eoc then clusterEoc
  else if value = t.bad then clusterBad
  else value

/-- The value that stands for a number in a FAT. -/
def toFat (t : FatType) (value : Nat) : Nat :=
  if value = clusterEoc then t.eoc
  else if value = clusterBad then t.bad
  else value

end FatType

/-! ## Words -/

/-- The 16-bit word of two bytes. -/
def leWord16 (l : List UInt8) : Nat := (l.getD 0 0).toNat + 256 * (l.getD 1 0).toNat

/-- The 32-bit word of four bytes. -/
def leWord32 (l : List UInt8) : Nat :=
  (l.getD 0 0).toNat + 256 * (l.getD 1 0).toNat + 65536 * (l.getD 2 0).toNat +
    16777216 * (l.getD 3 0).toNat

/-- The bytes of a 16-bit word. -/
def leBytes16 (x : Nat) : List UInt8 := [UInt8.ofNat x, UInt8.ofNat (x / 256)]

/-- The bytes of a 32-bit word. -/
def leBytes32 (x : Nat) : List UInt8 :=
  [UInt8.ofNat x, UInt8.ofNat (x / 256), UInt8.ofNat (x / 65536), UInt8.ofNat (x / 16777216)]

/-- The two bytes of a word, to be written. -/
def Chunk.word16 (x : Nat) : Chunk := ⟨leBytes16 x, show 2 ≤ 512 by decide⟩

/-- The four bytes of a word, to be written. -/
def Chunk.word32 (x : Nat) : Chunk := ⟨leBytes32 x, show 4 ≤ 512 by decide⟩

/-- A sector of zeros, to be written. -/
def Chunk.zeros : Chunk := ⟨List.replicate 512 0, Nat.le_of_eq List.length_replicate⟩

theorem leWord32_bytes {x : Nat} (h : x < 2 ^ 32) : leWord32 (leBytes32 x) = x := by
  simp only [leWord32, leBytes32, List.getD_cons_zero, List.getD_cons_succ, UInt8.toNat_ofNat']
  omega

/-! ## Directory entries -/

/-- `DIRENTRY_FREE` -/
def direntryFree : UInt8 := 0x00

/-- `DIRENTRY_DELETED` -/
def direntryDeleted : UInt8 := 0xe5

/-- `ATTR_VOLUME_ID` -/
def attrVolumeId : UInt8 := 0x08

/-- `ATTR_DIRECTORY` -/
def attrDirectory : UInt8 := 0x10

/-- `ATTR_LONG_FILENAME` -/
def attrLongFilename : UInt8 := 0x0f

/-- `struct FatDirEntry`, its 32 bytes. -/
structure FatDirEntry where
  bytes : List UInt8
  length_eq : bytes.length = 32
  deriving DecidableEq

namespace FatDirEntry

/-- The entry in the bytes that have been read. -/
def ofBytes (l : List UInt8) : FatDirEntry :=
  ⟨(List.range 32).map fun i => l.getD i 0, by rw [List.length_map, List.length_range]⟩

variable (dirent : FatDirEntry)

def byte (i : Nat) : UInt8 := dirent.bytes.getD i 0

/-- The entry with some bytes replaced. -/
def setBytes (o : Nat) (l : List UInt8) : FatDirEntry :=
  ⟨(List.range 32).map (stBytes dirent.byte o l), by rw [List.length_map, List.length_range]⟩

def name : List UInt8 := getBytes dirent.byte 0 8

def extension : List UInt8 := getBytes dirent.byte 8 3

def attributes : UInt8 := dirent.byte 11

def firstClusterHi : Nat := leWord16 (getBytes dirent.byte 20 2)

def firstClusterLo : Nat := leWord16 (getBytes dirent.byte 26 2)

def size : Nat := leWord32 (getBytes dirent.byte 28 4)

/-- The entry, to be written. -/
def toChunk : Chunk := ⟨dirent.bytes, by rw [dirent.length_eq]; decide⟩

/-- An entry of zeros. -/
def zeroed : FatDirEntry := ⟨List.replicate 32 0, List.length_replicate⟩

end FatDirEntry

/-! ## Nodes -/

/-- `struct FatNode` -/
structure FatNode where
  inodeNr : Nat
  isRoot : Bool
  direntSector : Nat
  direntOffset : Fin 512
  dirent : FatDirEntry
  hintCluster : Nat
  hintOffset : Nat
  referenceCnt : Int

/-- The members of `struct FatSB` that change: the nodes, the list of them from its
head on, and where the search for a free cluster starts. -/
structure Vol where
  nodes : Nat → FatNode
  nodeList : List Nat
  nextNode : Nat
  startSearchCluster : Nat

/-- `&fsb.root_node` -/
def rootNode : Nat := 0

/-- The volume with a node replaced. -/
def Vol.setNode (v : Vol) (i : Nat) (node : FatNode) : Vol :=
  { v with nodes := Function.update v.nodes i node }

/-- The volume with a node more, at the end of the list. -/
def Vol.addNode (v : Vol) (node : FatNode) : Vol where
  nodes := Function.update v.nodes v.nextNode node
  nodeList := v.nodeList ++ [v.nextNode]
  nextNode := v.nextNode + 1
  startSearchCluster := v.startSearchCluster

/-- What `malloc` has left in `is_root` of a node, what stands on the stack where
`fatMkDir` builds entries, whether `char` is signed, the bytes in front of the name in
`struct dirent`, and the ids of the configuration. -/
structure Env where
  heapIsRoot : Nat → Bool
  stackDirent : FatDirEntry
  charSigned : Bool
  direntHeader : Nat
  uid : Nat
  gid : Nat

/-- A handler on a heap of zeros. -/
def sampleEnv : Env := ⟨fun _ => false, .zeroed, false, 8, 0, 0⟩

end Cheviot.Fatfs
