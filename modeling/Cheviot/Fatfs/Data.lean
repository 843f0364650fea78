import Cheviot.Lib.Segments
import Cheviot.Fatfs.File

/-!
# Files in the data area

Behind the FATs and the root directory come the clusters. A file is the list of clusters
its chain goes through, and its bytes are theirs, one cluster behind the other.

* `DataLayout`, `clusterStart` — the data area and where a cluster is in it.
* `chainByte`, `readFile_readOff` — what `readFile` reads along a chain, whatever it is.
* `IsChain`, `fileByte` — the list of clusters of a file, and its bytes.
* `readFile_flat` — what `readFile` reads of it.
-/

namespace Cheviot.Fatfs

open Cheviot.Bytes Cheviot.Segments

/-! ## The data area -/

/-- The data area of the volume: it is behind the FATs, which have an entry for each of
its clusters, and a 32-bit number counts its sectors. -/
structure DataLayout (sb : FatSb) : Prop extends FatLayout sb where
  cluster_pos : 0 < sb.sectorsPerCluster
  behind : sb.sectorsPerFat = sb.fatSz
  data : sb.partitionStart + sb.rootDirStart + sb.rootDirSectors +
    sb.clusterCnt * sb.sectorsPerCluster ≤ 2 ^ 32
  entries : ∀ cluster, cluster < sb.clusterCnt + 2 → EntryInside sb cluster
  numbers : sb.clusterCnt + 1 ≤ sb.fatType.allocMax

/-- A cluster of the data area. -/
def InData (sb : FatSb) (cluster : Nat) : Prop := 2 ≤ cluster ∧ cluster < sb.clusterCnt + 2

instance (sb : FatSb) (cluster : Nat) : Decidable (InData sb cluster) := instDecidableAnd

/-- The first byte of a cluster. -/
def clusterStart (sb : FatSb) (cluster : Nat) : Nat :=
  512 * (sb.partitionStart + sb.rootDirStart + sb.rootDirSectors +
    (cluster - 2) * sb.sectorsPerCluster)

section Layout

variable {sb : FatSb} {flat flat' : Nat → UInt8} {cluster other offset n : Nat}

theorem DataLayout.clusterSize_pos (hl : DataLayout sb) : 0 < sb.clusterSize :=
  Nat.mul_pos hl.cluster_pos (by decide)

theorem InData.allocated (hl : DataLayout sb) (h : InData sb cluster) : Allocated cluster := by
  have hnumbers := hl.numbers
  have hmax : sb.fatType.allocMax ≤ clusterAllocMax := by
    cases sb.fatType <;> decide
  obtain ⟨hmin, hlt⟩ := h
  exact ⟨show 1 ≤ cluster by omega, by omega⟩

/-- The number of a cluster can stand in a FAT. -/
theorem InData.fatValue (hl : DataLayout sb) (h : InData sb cluster) :
    FatValue sb.fatType cluster := by
  have hnumbers := hl.numbers
  obtain ⟨hmin, hlt⟩ := h
  exact .inr (.inl ⟨show 1 ≤ cluster by omega, by omega⟩)

theorem InData.inside (hl : DataLayout sb) (h : InData sb cluster) : EntryInside sb cluster :=
  hl.entries cluster h.2

/-- The sectors of a cluster are among those a 32-bit number counts. -/
theorem InData.sectors (hl : DataLayout sb) (h : InData sb cluster) :
    sb.partitionStart + sb.rootDirStart + sb.rootDirSectors +
      (cluster - 2) * sb.sectorsPerCluster + sb.sectorsPerCluster ≤ 2 ^ 32 := by
  have hdata := hl.data
  obtain ⟨hmin, hlt⟩ := h
  have hmul : (cluster - 2 + 1) * sb.sectorsPerCluster ≤ sb.clusterCnt * sb.sectorsPerCluster :=
    Nat.mul_le_mul_right _ (by omega)
  rw [Nat.succ_mul] at hmul
  omega

theorem InData.bytes (hl : DataLayout sb) (h : InData sb cluster) :
    clusterStart sb cluster + sb.clusterSize ≤ 2 ^ 41 := by
  have hsec := h.sectors hl
  unfold clusterStart FatSb.clusterSize
  omega

/-- Two clusters do not overlap. -/
theorem clusterStart_apart (h : InData sb cluster) (h' : InData sb other) (hne : other ≠ cluster) :
    Apart (clusterStart sb) sb.clusterSize cluster other := by
  have hmono : ∀ {c d : Nat}, InData sb c → c < d →
      clusterStart sb c + sb.clusterSize ≤ clusterStart sb d := by
    intro c d hc hlt
    obtain ⟨hmin, -⟩ := hc
    have hmul : (c - 2 + 1) * sb.sectorsPerCluster ≤ (d - 2) * sb.sectorsPerCluster :=
      Nat.mul_le_mul_right _ (by omega)
    rw [Nat.succ_mul] at hmul
    unfold clusterStart FatSb.clusterSize
    omega
  rcases Nat.lt_or_gt_of_ne hne with hlt | hlt
  · exact .inr (hmono h' hlt)
  · exact .inl (hmono h hlt)

/-- A cluster is behind the FATs. -/
theorem fat_before_cluster (hl : DataLayout sb) {f : Nat} (hf : f < sb.fatCnt) (cluster : Nat) :
    fatStart sb f + 512 * sb.fatSz ≤ clusterStart sb cluster := by
  have hmul : (f + 1) * sb.fatSz ≤ sb.fatCnt * sb.fatSz := Nat.mul_le_mul_right _ hf
  rw [Nat.succ_mul] at hmul
  unfold fatStart clusterStart FatSb.rootDirStart
  rw [hl.behind]
  omega

theorem not_inFats_of_cluster (hl : DataLayout sb) {a : Nat} (ha : clusterStart sb cluster ≤ a) :
    ¬ InFats sb a := by
  intro ⟨f, hf, hlo, hhi⟩
  have := fat_before_cluster hl hf cluster
  omega

/-- A byte of a cluster, by the sector it is in. -/
theorem byteOf_cluster (hl : DataLayout sb) (h : InData sb cluster) (offset : Nat) :
    byteOf sb.partitionStart (sectorInCluster sb cluster offset) (sectorOffset offset) =
      clusterStart sb cluster + offset % sb.clusterSize := by
  have hsec := h.sectors hl
  have hnumbers := hl.numbers
  have hmax : sb.fatType.allocMax ≤ clusterAllocMax := by
    cases sb.fatType <;> decide
  have hlt : offset % sb.clusterSize < sb.clusterSize := Nat.mod_lt _ hl.clusterSize_pos
  have hpos := hl.cluster_pos
  have hrow : offset % sb.clusterSize / 512 < sb.sectorsPerCluster := by
    unfold FatSb.clusterSize at hlt ⊢
    omega
  have hmod : offset % sb.clusterSize % 512 = offset % 512 :=
    Nat.mod_mod_of_dvd _ (Nat.dvd_mul_left 512 sb.sectorsPerCluster)
  have hnum : (cluster + 2 ^ 32 - 2) % 2 ^ 32 = cluster - 2 := by
    obtain ⟨hmin, hlt'⟩ := h
    have hval : clusterAllocMax = 0x0ffffff6 := rfl
    omega
  unfold byteOf blockOf sectorInCluster clusterToSector clusterStart sectorOffset FatSb.firstDataSector
  rw [hnum, Nat.mod_eq_of_lt (show sb.rootDirStart + sb.rootDirSectors < 2 ^ 32 by omega)]
  rw [Nat.mod_eq_of_lt (show (cluster - 2) * sb.sectorsPerCluster +
    (sb.rootDirStart + sb.rootDirSectors) < 2 ^ 32 by omega)]
  rw [Nat.mod_eq_of_lt (show (cluster - 2) * sb.sectorsPerCluster +
    (sb.rootDirStart + sb.rootDirSectors) + offset % sb.clusterSize / 512 < 2 ^ 32 by omega)]
  rw [Nat.mod_eq_of_lt (show (cluster - 2) * sb.sectorsPerCluster +
    (sb.rootDirStart + sb.rootDirSectors) + offset % sb.clusterSize / 512 + sb.partitionStart <
    2 ^ 32 by omega)]
  dsimp only
  omega

/-- A piece of a sector is a piece of its cluster. -/
theorem sectorPiece_le (hpos : 0 < sb.sectorsPerCluster) (hn : offset % 512 + n ≤ 512) :
    offset % sb.clusterSize + n ≤ sb.clusterSize := by
  have hlt : offset % sb.clusterSize < sb.clusterSize :=
    Nat.mod_lt _ (Nat.mul_pos hpos (by decide))
  have hmod : offset % sb.clusterSize % 512 = offset % 512 :=
    Nat.mod_mod_of_dvd _ (Nat.dvd_mul_left 512 sb.sectorsPerCluster)
  unfold FatSb.clusterSize at hlt hmod ⊢
  omega

theorem piece_le (hl : DataLayout sb) (hn : offset % 512 + n ≤ 512) :
    offset % sb.clusterSize + n ≤ sb.clusterSize :=
  sectorPiece_le hl.cluster_pos hn

/-- What a file writes to a sector. -/
theorem writeSector_cluster (hl : DataLayout sb) (h : InData sb cluster) {data : Chunk}
    (hn : offset % 512 + data.bytes.length ≤ 512) :
    (FatM.writeSector data (sectorInCluster sb cluster offset) (sectorOffset offset)).run
        (flatOp sb.partitionStart) flat =
      .ok (patch flat (clusterStart sb cluster + offset % sb.clusterSize) data.bytes, ()) := by
  have hpiece := piece_le hl hn
  have hbytes := h.bytes hl
  rw [FatM.writeSector, Prog.run_op, flatOp, byteOf_cluster hl h, ringPatch_eq flat (by omega)]

/-- What a file clears of a sector. -/
theorem clearSector_cluster (hl : DataLayout sb) (h : InData sb cluster)
    (hn : offset % 512 + n ≤ 512) :
    (FatM.clearSector (sectorInCluster sb cluster offset) (sectorOffset offset) n).run
        (flatOp sb.partitionStart) flat =
      .ok (patch flat (clusterStart sb cluster + offset % sb.clusterSize) (List.replicate n 0), ()) := by
  have hpiece := piece_le hl hn
  have hbytes := h.bytes hl
  rw [FatM.clearSector, Prog.run_op, flatOp,
    if_pos (show (sectorOffset offset : Nat) + n ≤ 512 from hn), byteOf_cluster hl h,
    ringPatch_eq flat (by rw [List.length_replicate]; omega)]

/-- The link of a cluster is the number in its entry. -/
theorem fatLink_eq (hl : DataLayout sb) (h : cluster < sb.clusterCnt + 2) :
    fatLink sb flat cluster =
      sb.fatType.fromFat (entryAt sb.fatType (fatBytes sb flat 0) cluster) := by
  have hread := @readFATEntry_flat sb flat (Nat.ne_of_gt hl.fat_cnt) cluster
  rw [readFATEntry_run hl.toFatLayout (hl.entries cluster h), Except.ok.injEq, Prod.mk.injEq,
    Option.some.injEq] at hread
  exact hread.2.symm

/-- A link depends on the bytes of the first FAT alone. -/
theorem fatLink_congr (hl : DataLayout sb) (h : cluster < sb.clusterCnt + 2)
    (hsame : ∀ a, InFats sb a → flat' a = flat a) :
    fatLink sb flat' cluster = fatLink sb flat cluster := by
  rw [fatLink_eq hl h, fatLink_eq hl h]
  congr 1
  refine entryAt_congr (hl.entries cluster h) fun k hk => hsame _ ⟨0, hl.fat_cnt, ?_, ?_⟩
  · exact Nat.le_add_right ..
  · exact Nat.add_lt_add_left hk _

end Layout

/-! ## What is read along a chain -/

section Chain

variable (sb : FatSb) (flat : Nat → UInt8)

/-- Where the chain of a node begins. -/
def chainStart (node : FatNode) : Nat :=
  if node.isRoot then sb.rootCluster else getFirstCluster sb node.dirent

/-- The byte at an offset into the clusters of the chain from `first` on, if it goes so far. -/
def chainByte (first x : Nat) : Option UInt8 :=
  (chainNth sb flat (x / sb.clusterSize) first).map fun cluster =>
    flat (byteOf sb.partitionStart (sectorInCluster sb cluster x) (sectorOffset x))

variable {sb} {flat} {first offset n : Nat}

/-- The bytes of a piece of a sector are one behind the other, and in one cluster. -/
theorem byteOf_piece (hpos : 0 < sb.sectorsPerCluster) (hn : offset % 512 + n ≤ 512) (cluster : Nat)
    {j : Nat} (hj : j < n) : (offset + j) / sb.clusterSize = offset / sb.clusterSize ∧
    byteOf sb.partitionStart (sectorInCluster sb cluster (offset + j)) (sectorOffset (offset + j)) =
      byteOf sb.partitionStart (sectorInCluster sb cluster offset) (sectorOffset offset) + j := by
  obtain ⟨hdiv, hrest⟩ := div_mod_of_piece (sectorPiece_le hpos hn) hj
  have hmod : offset % sb.clusterSize % 512 = offset % 512 :=
    Nat.mod_mod_of_dvd _ (Nat.dvd_mul_left 512 sb.sectorsPerCluster)
  have hsector : (offset % sb.clusterSize + j) / 512 = offset % sb.clusterSize / 512 := by omega
  have hbyte : (sectorOffset (offset + j) : Nat) = sectorOffset offset + j := by
    show (offset + j) % 512 = offset % 512 + j
    omega
  refine ⟨hdiv, ?_⟩
  rw [byteOf, byteOf, sectorInCluster, sectorInCluster, hrest, hsector, hbyte, Nat.add_assoc]

/-- A piece of a sector, read where the chain has a cluster. -/
theorem chainByte_piece (hpos : 0 < sb.sectorsPerCluster) {cluster : Nat}
    (hc : chainNth sb flat (offset / sb.clusterSize) first = some cluster)
    (hn : offset % 512 + n ≤ 512) {j : Nat} (hj : j < n) :
    chainByte sb flat first (offset + j) = some (flat
      ((byteOf sb.partitionStart (sectorInCluster sb cluster offset) (sectorOffset offset) + j) %
        2 ^ 41)) := by
  obtain ⟨hdiv, hbyte⟩ := byteOf_piece hpos hn cluster hj
  have hlt := byteOf_lt sb.partitionStart (sectorInCluster sb cluster (offset + j))
    (sectorOffset (offset + j))
  rw [chainByte, hdiv, hc, Option.map_some, hbyte, Nat.mod_eq_of_lt (by omega)]

theorem transferNbytes_spec {left : Nat} (offset : Nat) (hleft : 0 < left) :
    0 < transferNbytes left (offset % 512) ∧ transferNbytes left (offset % 512) ≤ left ∧
      offset % 512 + transferNbytes left (offset % 512) ≤ 512 := by
  have hlt := Nat.mod_lt offset (show 0 < 512 by decide)
  unfold transferNbytes
  omega

/-- The loop of `readFile` reads the chain, up to where it ends. -/
theorem readFileLoop_readOff (hfat : sb.fatCnt ≠ 0) (hpos : 0 < sb.sectorsPerCluster)
    (node : FatNode) (fuel : Nat) : ∀ left offset, left < fuel →
      ∃ bytes, (readFileLoop sb node fuel left offset).run (flatOp sb.partitionStart) flat =
        .ok (flat, bytes) ∧
        ReadOff (chainByte sb flat (chainStart sb node)) offset left bytes := by
  induction fuel with
  | zero => exact fun left offset hlt => absurd hlt (Nat.not_lt_zero _)
  | succ fuel ih =>
    intro left offset hlt
    rw [readFileLoop]
    by_cases hleft : 0 < left
    · have hfind := @findCluster_flat sb flat hfat node offset
      rw [← chainStart] at hfind
      rw [if_pos hleft, Prog.run_bind_ok _ hfind]
      cases hc : chainNth sb flat (offset / sb.clusterSize) (chainStart sb node) with
      | none =>
        -- the chain ends
        refine ⟨[], rfl, .ended ?_ left⟩
        rw [chainByte, hc, Option.map_none]
      | some cluster =>
        -- a piece of a sector is read, and the rest behind it
        obtain ⟨hone, hle, hsector⟩ := transferNbytes_spec offset hleft
        generalize transferNbytes left (offset % 512) = n at hone hle hsector
        obtain ⟨rest, hrun, hrest⟩ := ih (left - n) (offset + n) (by omega)
        have hread : (FatM.readSector (sectorInCluster sb cluster offset) (sectorOffset offset)
            n).run (flatOp sb.partitionStart) flat = .ok (flat, ringSlice flat (byteOf
              sb.partitionStart (sectorInCluster sb cluster offset) (sectorOffset offset)) n) := rfl
        have hlen : (ringSlice flat (byteOf sb.partitionStart (sectorInCluster sb cluster offset)
            (sectorOffset offset)) n).length = n := by
          rw [ringSlice, List.length_map, List.length_range]
        dsimp only
        rw [Prog.run_bind_ok _ hread, Prog.run_bind_ok _ hrun]
        refine ⟨_, rfl, .append (by rw [hlen]; exact hle) (fun k hk => ?_) ?_⟩
        · rw [chainByte_piece hpos hc hsector (by omega)]
          simp only [ringSlice, List.getElem_map, List.getElem_range]
        · rw [hlen]
          exact hrest
    · have hzero : left = 0 := by omega
      rw [if_neg hleft, hzero]
      exact ⟨[], rfl, .zero _ offset⟩

/-- `readFile` reads along the chain of its node, from the offset on. -/
theorem readFile_readOff (hfat : sb.fatCnt ≠ 0) (hpos : 0 < sb.sectorsPerCluster) (node : FatNode)
    (count offset : Nat) :
    ∃ bytes, (readFile sb node count offset).run (flatOp sb.partitionStart) flat =
      .ok (flat, bytes) ∧ ReadOff (chainByte sb flat (chainStart sb node)) offset
        (min count (node.dirent.size - offset)) bytes := by
  have hcount : (if node.dirent.size ≤ offset then 0
      else if count < node.dirent.size - offset then count else node.dirent.size - offset) =
      min count (node.dirent.size - offset) := by
    split
    · omega
    · split <;> omega
  rw [readFile, hcount]
  exact readFileLoop_readOff hfat hpos node _ _ offset (Nat.lt_succ_self _)

end Chain

/-! ## Chains as lists -/

section Chains

variable (sb : FatSb) (flat : Nat → UInt8)

/-- A chain goes through the clusters of a list, from `cluster` on. -/
def IsChain : Nat → List Nat → Prop
  | cluster, [] => ¬ Allocated cluster
  | cluster, c :: cs => c = cluster ∧ InData sb cluster ∧ IsChain (fatLink sb flat cluster) cs

/-- The bytes of the clusters of a list. -/
def fileByte (cs : List Nat) (x : Nat) : UInt8 :=
  (laid (clusterStart sb) sb.clusterSize flat cs x).getD 0

/-- The bytes of a file of a size. -/
def content (cs : List Nat) (size : Nat) : List UInt8 := slice (fileByte sb flat cs) 0 size

variable {sb} {flat} {flat' : Nat → UInt8} {cs : List Nat} {first cluster : Nat}

theorem IsChain.inData (h : IsChain sb flat first cs) : ∀ c ∈ cs, InData sb c := by
  induction cs generalizing first with
  | nil => exact fun c hc => nomatch hc
  | cons d cs ih =>
    obtain ⟨rfl, hdata, hrest⟩ := h
    intro c hc
    rcases List.mem_cons.mp hc with rfl | hc
    · exact hdata
    · exact ih hrest c hc

/-- A chain that goes through a cluster begins with one. -/
theorem IsChain.begin (h : IsChain sb flat first cs) (hne : cs ≠ []) : InData sb first := by
  cases cs with
  | nil => exact absurd rfl hne
  | cons c cs => exact h.2.1

/-- The clusters of a chain, by their number. -/
theorem IsChain.nth (hl : DataLayout sb) (h : IsChain sb flat first cs) (n : Nat) :
    chainNth sb flat n first = cs[n]? := by
  induction n generalizing first cs with
  | zero =>
    cases cs with
    | nil => exact if_neg h
    | cons c cs =>
      obtain ⟨rfl, hdata, -⟩ := h
      exact if_pos (hdata.allocated hl)
  | succ n ih =>
    rw [chainNth]
    cases cs with
    | nil => exact if_neg h
    | cons c cs =>
      obtain ⟨rfl, hdata, hrest⟩ := h
      rw [if_pos (hdata.allocated hl)]
      exact ih hrest

/-- A chain stays where the links of its clusters do. -/
theorem IsChain.congr (h : IsChain sb flat first cs)
    (hsame : ∀ c ∈ cs, fatLink sb flat' c = fatLink sb flat c) : IsChain sb flat' first cs := by
  induction cs generalizing first with
  | nil => exact h
  | cons c cs ih =>
    obtain ⟨rfl, hdata, hrest⟩ := h
    refine ⟨rfl, hdata, ?_⟩
    rw [hsame c (List.mem_cons_self ..)]
    exact ih hrest fun d hd => hsame d (List.mem_cons_of_mem _ hd)

/-- A chain whose last cluster gets a link to a new one. -/
theorem IsChain.snoc (h : IsChain sb flat first cs) (hne : cs ≠ []) (hnodup : cs.Nodup)
    (hsame : ∀ c ∈ cs, c ≠ cs.getLast hne → fatLink sb flat' c = fatLink sb flat c)
    (hlast : fatLink sb flat' (cs.getLast hne) = cluster) (hdata : InData sb cluster)
    (hend : ¬ Allocated (fatLink sb flat' cluster)) : IsChain sb flat' first (cs ++ [cluster]) := by
  induction cs generalizing first with
  | nil => exact absurd rfl hne
  | cons c cs ih =>
    obtain ⟨rfl, hc, hrest⟩ := h
    refine ⟨rfl, hc, ?_⟩
    cases cs with
    | nil =>
      have hlast : fatLink sb flat' c = cluster := hlast
      rw [hlast]
      exact ⟨rfl, hdata, hend⟩
    | cons d ds =>
      obtain ⟨hnotin, hnodup⟩ := List.nodup_cons.mp hnodup
      have hcl : c ≠ (c :: d :: ds).getLast hne := by
        intro heq
        rw [List.getLast_cons (List.cons_ne_nil d ds)] at heq
        exact hnotin (heq ▸ List.getLast_mem _)
      rw [hsame c (List.mem_cons_self ..) hcl]
      refine ih hrest (List.cons_ne_nil d ds) hnodup (fun e he hel => ?_) ?_
      · refine hsame e (List.mem_cons_of_mem _ he) ?_
        rwa [List.getLast_cons (List.cons_ne_nil d ds)]
      · rwa [List.getLast_cons (List.cons_ne_nil d ds)] at hlast

/-! ## Reading a file -/

theorem fileByte_piece {p n : Nat} {c : Nat} (hc : cs[p / sb.clusterSize]? = some c)
    (hpiece : p % sb.clusterSize + n ≤ sb.clusterSize) {j : Nat} (hj : j < n) :
    fileByte sb flat cs (p + j) = flat (clusterStart sb c + p % sb.clusterSize + j) := by
  rw [fileByte, laid_piece hc hpiece hj]
  rfl

theorem slice_length (f : Nat → UInt8) (start n : Nat) : (slice f start n).length = n := by
  rw [slice, List.length_map, List.length_range]

theorem getElem_slice (f : Nat → UInt8) (start n j : Nat) (hj : j < (slice f start n).length) :
    (slice f start n)[j] = f (start + j) := by
  simp only [slice, List.getElem_map, List.getElem_range]

theorem take_drop_slice (f : Nat → UInt8) (size offset count : Nat) :
    ((slice f 0 size).drop offset).take count = slice f offset (min count (size - offset)) := by
  apply List.ext_getElem
  · rw [List.length_take, List.length_drop, slice_length, slice_length]
  · intro j h1 h2
    rw [List.getElem_take, List.getElem_drop, getElem_slice, getElem_slice, Nat.zero_add]

/-- The bytes along the chain of a file are those of its clusters. -/
theorem IsChain.chainByte (hl : DataLayout sb) (h : IsChain sb flat first cs)
    {x : Nat} (hx : x < cs.length * sb.clusterSize) :
    chainByte sb flat first x = some (fileByte sb flat cs x) := by
  obtain ⟨c, hc, hmem⟩ := exists_segment hx
  have hbyte := byteOf_cluster hl (h.inData c hmem) x
  rw [Fatfs.chainByte, h.nth hl, hc, Option.map_some, hbyte, fileByte, laid, hc, Option.map_some,
    Option.getD_some]

/-- What is read of a file is what is read of its clusters. -/
theorem readOff_slice_iff {f : Nat → Option UInt8} {g : Nat → UInt8} {offset n : Nat}
    {bytes : List UInt8} (h : ReadOff f offset n bytes) :
    bytes = slice g offset n ↔ ∀ k, k < n → f (offset + k) = some (g (offset + k)) := by
  rw [h.eq_iff (slice_length g offset n)]
  constructor
  · intro hall k hk
    have hbyte := hall k (by rw [slice_length]; exact hk)
    rw [getElem_slice] at hbyte
    exact hbyte
  · intro hall k hk
    rw [getElem_slice]
    exact hall k (by rwa [slice_length] at hk)

/-- `readFile` reads the content of the file. -/
theorem readFile_flat (hl : DataLayout sb) {node : FatNode}
    (h : IsChain sb flat (chainStart sb node) cs)
    (hsize : node.dirent.size ≤ cs.length * sb.clusterSize) (count offset : Nat) :
    (readFile sb node count offset).run (flatOp sb.partitionStart) flat =
      .ok (flat, ((content sb flat cs node.dirent.size).drop offset).take count) := by
  obtain ⟨bytes, hrun, hread⟩ := @readFile_readOff sb flat (Nat.ne_of_gt hl.fat_cnt)
    hl.cluster_pos node count offset
  have hbytes : bytes = slice (fileByte sb flat cs) offset
      (min count (node.dirent.size - offset)) := by
    apply (readOff_slice_iff hread).mpr
    exact fun k hk => h.chainByte hl (by omega)
  rw [content, take_drop_slice, hrun, hbytes]

end Chains

theorem sampleFat16_data : DataLayout sampleFat16 where
  toFatLayout := sampleFat16_layout
  cluster_pos := by decide
  behind := rfl
  data := by decide
  entries := fun cluster hlt => by
    have hlt : cluster < 4980 := hlt
    show cluster * 2 + 2 ≤ 512 * 20
    omega
  numbers := by decide

end Cheviot.Fatfs
