import Cheviot.Lib.Walk
import Cheviot.Fatfs.AppendNode
import Cheviot.Fatfs.Fat32
import Cheviot.Fatfs.Free
import Mathlib.Order.Interval.Finset.Nat

/-!
# How many links the walks read

`FindLastCluster` and `FreeClusters` go along a chain for as long as it leads to clusters,
whatever is in the FAT. A FAT12 or FAT16 entry that `FreeClusters` has passed is free, so
that it reads no more of them than an entry has values. On a FAT32 volume the mark goes to
other bytes, and `FindLastCluster` makes none: these end where the chain does.

* `markFree` — the bytes of the volume after `WriteFATEntry` has marked a cluster free.
* `freeClusters_endsWithin`, `findLastCluster_endsWithin` — the two as walks.
* `markFree_endsWithin` — the marks end the walk on a FAT12 or FAT16 volume.
* `chain_endsWithin` — on a FAT32 volume the end of the chain does, if the marks miss it.
* `walksEnd_iff` — when both end after as many reads as an entry has values.
-/

namespace Cheviot.Fatfs

open Cheviot.Bytes Cheviot.Walk

/-! ## Marking a cluster free -/

section Mark

variable (sb : FatSb)

/-- The bytes of the volume after `WriteFATEntry` has marked a cluster free. -/
def markFree (flat : Nat → UInt8) (cluster : Nat) : Nat → UInt8 :=
  writeLink sb flat cluster clusterFree

/-- A round of `FreeClusters`: the bytes of the volume, and the cluster it comes to. -/
def freeStep (w : (Nat → UInt8) × Nat) : (Nat → UInt8) × Nat :=
  (markFree sb w.1 w.2, fatLink sb w.1 w.2)

variable {sb}

theorem markFree_eq (flat : Nat → UInt8) (cluster : Nat) :
    markFree sb flat cluster = linkCopies sb cluster clusterFree sb.fatCnt 0 flat := by
  rw [markFree, writeLink, FatType.toFat_free]

end Mark

/-! ## FAT12 and FAT16: what is free stays so -/

/-- No half of a byte has grown: an entry of a FAT12 volume has the half of a byte. -/
def HalvesLe (flat flat' : Nat → UInt8) : Prop :=
  ∀ a, (flat' a).toNat % 16 ≤ (flat a).toNat % 16 ∧ (flat' a).toNat / 16 ≤ (flat a).toNat / 16

section Halves

variable {sb : FatSb} {flat flat' flat'' : Nat → UInt8} {s x : Nat}

theorem HalvesLe.refl (flat : Nat → UInt8) : HalvesLe flat flat :=
  fun _ => ⟨Nat.le_refl _, Nat.le_refl _⟩

theorem HalvesLe.trans (h : HalvesLe flat flat') (h' : HalvesLe flat' flat'') :
    HalvesLe flat flat'' :=
  fun a => ⟨Nat.le_trans (h' a).1 (h a).1, Nat.le_trans (h' a).2 (h a).2⟩

/-- A word that is written, with no half of a byte greater than the one it replaces. -/
theorem HalvesLe.patch (hs : s < 2 ^ 41)
    (h0 : x % 256 % 16 ≤ (flat s).toNat % 16 ∧ x % 256 / 16 ≤ (flat s).toNat / 16)
    (h1 : x / 256 % 256 % 16 ≤ (flat ((s + 1) % 2 ^ 41)).toNat % 16 ∧
      x / 256 % 256 / 16 ≤ (flat ((s + 1) % 2 ^ 41)).toNat / 16) :
    HalvesLe flat (ringPatch flat s (leBytes16 x)) := by
  obtain ⟨hfirst, hsecond, hother⟩ := ringPatch_word16 flat hs x
  intro a
  by_cases ha0 : a = s
  · rw [ha0, hfirst]
    exact h0
  · by_cases ha1 : a = (s + 1) % 2 ^ 41
    · rw [ha1, hsecond]
      exact h1
    · rw [hother a ha0 ha1]
      exact ⟨Nat.le_refl _, Nat.le_refl _⟩

theorem linkCopy_halves (ht : sb.fatType ≠ .fat32) (cluster f : Nat) (flat : Nat → UInt8) :
    HalvesLe flat (linkCopy sb cluster clusterFree f flat) := by
  have hfree : clusterFree = 0 := rfl
  have hbyte : ∀ a, (flat a).toNat < 256 := fun a => (flat a).toNat_lt
  unfold linkCopy
  cases htype : sb.fatType with
  | fat12 =>
    dsimp only
    generalize (cluster + cluster / 2) % 2 ^ 32 = fatOffset
    have hs := byteOf_lt sb.partitionStart (fatSector sb f fatOffset) (sectorOffset fatOffset)
    generalize byteOf sb.partitionStart (fatSector sb f fatOffset) (sectorOffset fatOffset) = s
      at hs
    have hb0 := hbyte s
    have hb1 := hbyte ((s + 1) % 2 ^ 41)
    apply HalvesLe.patch hs
    · rw [leWord16_ringSlice flat hs, hfree]
      split <;> omega
    · rw [leWord16_ringSlice flat hs, hfree]
      split <;> omega
  | fat16 =>
    dsimp only
    apply HalvesLe.patch (byteOf_lt ..)
    · exact ⟨Nat.zero_le _, Nat.zero_le _⟩
    · exact ⟨Nat.zero_le _, Nat.zero_le _⟩
  | fat32 => exact absurd htype ht

theorem linkCopies_halves (ht : sb.fatType ≠ .fat32) (cluster n : Nat) : ∀ f flat,
    HalvesLe flat (linkCopies sb cluster clusterFree n f flat) := by
  induction n with
  | zero => exact fun f flat => .refl flat
  | succ n ih => exact fun f flat => (linkCopy_halves ht cluster f flat).trans (ih (f + 1) _)

/-- The marks of a type are no zeros. -/
theorem FatType.fromFat_eq_free (t : FatType) (value : Nat) :
    t.fromFat value = clusterFree ↔ value = 0 := by
  have hmarks := t.marks
  have hmin : 0 < t.bad := Nat.zero_lt_of_lt hmarks.1
  unfold fromFat
  split
  · omega
  · split <;> omega

/-- An entry that is free stays free as halves of bytes get smaller. -/
theorem HalvesLe.fatLink_free (h : HalvesLe flat flat') (ht : sb.fatType ≠ .fat32) {cluster : Nat}
    (hfree : fatLink sb flat cluster = clusterFree) : fatLink sb flat' cluster = clusterFree := by
  unfold fatLink at hfree ⊢
  cases htype : sb.fatType with
  | fat12 =>
    rw [htype] at hfree
    dsimp only at hfree ⊢
    generalize (cluster + cluster / 2) % 2 ^ 32 = fatOffset at hfree ⊢
    have hs := byteOf_lt sb.partitionStart (fatSector sb 0 fatOffset) (sectorOffset fatOffset)
    generalize byteOf sb.partitionStart (fatSector sb 0 fatOffset) (sectorOffset fatOffset) = s
      at hs hfree ⊢
    have h0 := h s
    have h1 := h ((s + 1) % 2 ^ 41)
    have hb0 := (flat s).toNat_lt
    have hb0' := (flat' s).toNat_lt
    rw [FatType.fromFat_eq_free, leWord16_ringSlice _ hs, and_fff,
      Nat.shiftRight_eq_div_pow] at hfree ⊢
    by_cases hodd : cluster % 2 = 1
    · rw [if_pos hodd] at hfree ⊢
      omega
    · rw [if_neg hodd] at hfree ⊢
      omega
  | fat16 =>
    rw [htype] at hfree
    dsimp only at hfree ⊢
    generalize cluster * 2 % 2 ^ 32 = fatOffset at hfree ⊢
    have hs := byteOf_lt sb.partitionStart (fatSector sb 0 fatOffset) (sectorOffset fatOffset)
    generalize byteOf sb.partitionStart (fatSector sb 0 fatOffset) (sectorOffset fatOffset) = s
      at hs hfree ⊢
    have h0 := h s
    have h1 := h ((s + 1) % 2 ^ 41)
    rw [FatType.fromFat_eq_free, leWord16_ringSlice _ hs] at hfree ⊢
    omega
  | fat32 => exact absurd htype ht

/-- The mark in the first FAT is what `ReadFATEntry` reads. -/
theorem fatLink_linkCopy (ht : sb.fatType ≠ .fat32) (cluster : Nat) (flat : Nat → UInt8) :
    fatLink sb (linkCopy sb cluster clusterFree 0 flat) cluster = clusterFree := by
  have hfree : clusterFree = 0 := rfl
  unfold fatLink linkCopy
  cases htype : sb.fatType with
  | fat12 =>
    dsimp only
    generalize (cluster + cluster / 2) % 2 ^ 32 = fatOffset
    have hs := byteOf_lt sb.partitionStart (fatSector sb 0 fatOffset) (sectorOffset fatOffset)
    generalize byteOf sb.partitionStart (fatSector sb 0 fatOffset) (sectorOffset fatOffset) = s
      at hs ⊢
    have hw := leWord16_lt (ringSlice flat s 2)
    generalize leWord16 (ringSlice flat s 2) = w at hw
    rw [FatType.fromFat_eq_free, leWord16_ringSlice _ hs, (ringPatch_word16 flat hs _).1,
      (ringPatch_word16 flat hs _).2.1, and_fff, Nat.shiftRight_eq_div_pow, hfree]
    split <;> omega
  | fat16 =>
    dsimp only
    have hs := byteOf_lt sb.partitionStart (fatSector sb 0 (cluster * 2 % 2 ^ 32))
      (sectorOffset (cluster * 2 % 2 ^ 32))
    rw [FatType.fromFat_eq_free, leWord16_ringSlice _ hs, (ringPatch_word16 flat hs _).1,
      (ringPatch_word16 flat hs _).2.1, hfree]
    rfl
  | fat32 => exact absurd htype ht

/-- The mark of a cluster is what `ReadFATEntry` reads, and the marks that are there stay. -/
theorem fatLink_markFree (hfat : sb.fatCnt ≠ 0) (ht : sb.fatType ≠ .fat32) (cluster : Nat)
    (flat : Nat → UInt8) : fatLink sb (markFree sb flat cluster) cluster = clusterFree := by
  obtain ⟨n, hn⟩ := Nat.exists_eq_succ_of_ne_zero hfat
  rw [markFree_eq, hn, linkCopies]
  exact (linkCopies_halves ht cluster n 1 _).fatLink_free ht (fatLink_linkCopy ht cluster flat)

theorem fatLink_markFree_of_free (ht : sb.fatType ≠ .fat32) {cluster : Nat} {flat : Nat → UInt8}
    (hfree : fatLink sb flat cluster = clusterFree) (other : Nat) :
    fatLink sb (markFree sb flat other) cluster = clusterFree := by
  rw [markFree_eq]
  exact (linkCopies_halves ht other sb.fatCnt 0 flat).fatLink_free ht hfree

end Halves

/-! ## The numbers of an entry -/

/-- The numbers an entry can have. -/
def entryValues : FatType → Nat
  | .fat12 => 2 ^ 12
  | .fat16 => 2 ^ 16
  | .fat32 => 2 ^ 28

/-- Two of them and more are no clusters. -/
theorem allocMax_lt_entryValues (t : FatType) : t.allocMax + 2 ≤ entryValues t := by
  cases t <;> decide

/-- The clusters an entry can name. -/
theorem FatType.fromFat_le (t : FatType) {value : Nat} (hvalue : value ≤ t.eoc ∨ t = .fat32)
    (h : Allocated (t.fromFat value)) : t.fromFat value ≤ t.allocMax := by
  have hnums : t.bad = t.allocMax + 1 ∧ t.eocMin = t.bad + 1 ∧
      (t = .fat32 → t.allocMax = clusterAllocMax) := by
    cases t <;> decide
  have hmarks : clusterAllocMax < clusterBad ∧ clusterAllocMax < clusterEoc := by decide
  unfold Allocated at h
  by_cases ht : t = .fat32
  · rw [hnums.2.2 ht]
    exact h.2
  · have hle := hvalue.resolve_right ht
    unfold fromFat at h ⊢
    by_cases heoc : t.eocMin ≤ value ∧ value ≤ t.eoc
    · rw [if_pos heoc] at h
      omega
    · rw [if_neg heoc] at h ⊢
      by_cases hbad : value = t.bad
      · rw [if_pos hbad] at h
        omega
      · rw [if_neg hbad]
        omega

theorem fatLink_mem {sb : FatSb} {flat : Nat → UInt8} {cluster : Nat}
    (h : Allocated (fatLink sb flat cluster)) :
    fatLink sb flat cluster ∈ Finset.Icc 1 sb.fatType.allocMax := by
  refine Finset.mem_Icc.mpr ⟨h.1, ?_⟩
  unfold fatLink at h ⊢
  cases htype : sb.fatType with
  | fat12 =>
    rw [htype] at h
    apply FatType.fromFat_le _ (.inl _) h
    have hw := leWord16_lt (ringSlice flat (byteOf sb.partitionStart
      (fatSector sb 0 ((cluster + cluster / 2) % 2 ^ 32))
      (sectorOffset ((cluster + cluster / 2) % 2 ^ 32))) 2)
    dsimp only
    rw [and_fff, Nat.shiftRight_eq_div_pow, show FatType.fat12.eoc = 0xfff from rfl]
    split <;> omega
  | fat16 =>
    rw [htype] at h
    exact FatType.fromFat_le _ (.inl (Nat.le_of_lt_succ (leWord16_lt _))) h
  | fat32 =>
    rw [htype] at h
    exact FatType.fromFat_le _ (.inr rfl) h

/-! ## The two as walks -/

section Walks

variable {sb : FatSb} {flat : Nat → UInt8} {i : Nat}

/-- Another cluster to go to. -/
abbrev Goes (w : (Nat → UInt8) × Nat) : Prop := Allocated w.2

/-- `FreeClusters` ends after `n` reads of the FAT if its walk ends within as many steps. -/
theorem freeClusters_endsWithin (hfat : sb.fatCnt ≠ 0) (n : Nat) : ∀ flat cluster,
    (∃ flat', (freeClusters sb (n + 1) cluster).run (flatOp sb.partitionStart) flat =
      .ok (flat', ())) ↔ EndsWithin (freeStep sb) Goes n (flat, cluster) := by
  induction n with
  | zero =>
    intro flat cluster
    by_cases h : Allocated cluster
    · rw [freeClusters_step hfat h (writeFATEntry_writeLink hfat cluster clusterFree flat)]
      refine ⟨fun hrun => ?_, fun hends => absurd hends (not_endsWithin_zero h)⟩
      obtain ⟨flat', hrun⟩ := hrun
      cases hrun
    · refine ⟨fun _ => .of_not (x := (flat, cluster)) h 0, fun _ => ⟨flat, ?_⟩⟩
      rw [freeClusters, if_neg h]
      rfl
  | succ n ih =>
    intro flat cluster
    by_cases h : Allocated cluster
    · rw [freeClusters_step hfat h (writeFATEntry_writeLink hfat cluster clusterFree flat),
        endsWithin_succ (show Goes (flat, cluster) from h)]
      exact ih _ _
    · refine ⟨fun _ => .of_not (x := (flat, cluster)) h _, fun _ => ⟨flat, ?_⟩⟩
      rw [freeClusters, if_neg h]
      rfl

/-- On a FAT32 volume it ends with the chain, where the marks miss the links that are still
needed. -/
theorem chain_endsWithin (hl : DataLayout sb) (ht : sb.fatType = .fat32) {cs : List Nat}
    {cluster : Nat} (h : IsChain sb flat cluster cs) (hmiss : cs.Pairwise MarkMisses) :
    EndsWithin (freeStep sb) Goes cs.length (flat, cluster) :=
  (freeClusters_endsWithin (Nat.ne_of_gt hl.fat_cnt) _ flat cluster).mp
    (freeClusters_ends32 hl ht cs flat cluster h hmiss)

/-- On a FAT12 or FAT16 volume the marks end it, whatever is in the FATs. -/
theorem markFree_endsWithin (hfat : sb.fatCnt ≠ 0) (ht : sb.fatType ≠ .fat32)
    (flat : Nat → UInt8) (cluster : Nat) :
    EndsWithin (freeStep sb) Goes (entryValues sb.fatType) (flat, cluster) := by
  have hmax := allocMax_lt_entryValues sb.fatType
  have hfree : ¬ Allocated clusterFree := by decide
  apply marks_endsWithin (C := fun flat c => fatLink sb flat c = clusterFree)
    (S := Finset.Icc 1 sb.fatType.allocMax)
  · exact fun flat c => fatLink_markFree hfat ht c flat
  · exact fun flat c d hc => fatLink_markFree_of_free ht hc d
  · intro flat c hc h
    rw [hc] at h
    exact hfree h
  · exact fun flat c h => fatLink_mem h
  · rw [Nat.card_Icc]
    omega

/-- The loop of `FindLastCluster`, with rounds for `n` more reads of the FAT. -/
theorem findLastLoop_endsWithin (hfat : sb.fatCnt ≠ 0) (n : Nat) : ∀ v cluster next,
    (∃ r, (findLastLoop sb i (n + 1) v cluster next).run (flatOp sb.partitionStart) flat =
      .ok (flat, r)) ↔ EndsWithin (fatLink sb flat) Allocated n next := by
  induction n with
  | zero =>
    intro v cluster next
    by_cases h : Allocated next
    · rw [findLastLoop, if_pos h]
      dsimp only
      rw [Prog.run_bind_ok _ (readFATEntry_flat hfat next)]
      refine ⟨fun hrun => ?_, fun hends => absurd hends (not_endsWithin_zero h)⟩
      obtain ⟨r, hrun⟩ := hrun
      cases hrun
    · refine ⟨fun _ => .of_not h 0, fun _ => ⟨(v, some cluster), ?_⟩⟩
      rw [findLastLoop, if_neg h]
      rfl
  | succ n ih =>
    intro v cluster next
    by_cases h : Allocated next
    · rw [findLastLoop, if_pos h, endsWithin_succ h]
      dsimp only
      rw [Prog.run_bind_ok _ (readFATEntry_flat hfat next)]
      exact ih _ _ _
    · refine ⟨fun _ => .of_not h _, fun _ => ⟨(v, some cluster), ?_⟩⟩
      rw [findLastLoop, if_neg h]
      rfl

/-- `FindLastCluster` ends if its node has no chain, or the chain from where it begins does not
come around. -/
theorem findLastCluster_endsWithin (hfat : sb.fatCnt ≠ 0) (v : Vol) :
    (∃ r, (findLastCluster sb (entryValues sb.fatType) v i).run (flatOp sb.partitionStart) flat =
      .ok (flat, r)) ↔ getFirstCluster sb (v.nodes i).dirent = clusterEoc ∨
      ¬ ComesAround (fatLink sb flat) Allocated (fatLink sb flat (walkStart sb (v.nodes i))) := by
  have hmax := allocMax_lt_entryValues sb.fatType
  obtain ⟨n, hn⟩ : ∃ n, entryValues sb.fatType = n + 1 := ⟨entryValues sb.fatType - 1, by omega⟩
  have hplaces : ∀ k, Allocated ((fatLink sb flat)^[k] (fatLink sb flat (walkStart sb (v.nodes i))))
      → (fatLink sb flat)^[k] (fatLink sb flat (walkStart sb (v.nodes i))) ∈
        Finset.Icc 1 sb.fatType.allocMax := by
    intro k h
    rw [← Function.iterate_succ_apply, Function.iterate_succ_apply'] at h ⊢
    exact fatLink_mem h
  rw [findLastCluster]
  by_cases heoc : getFirstCluster sb (v.nodes i).dirent = clusterEoc
  · rw [if_pos heoc]
    exact ⟨fun _ => .inl heoc, fun _ => ⟨(v, some clusterEoc), rfl⟩⟩
  · rw [if_neg heoc, ← endsWithin_iff (n := n) hplaces (by rw [Nat.card_Icc]; omega)]
    dsimp only
    rw [← walkStart, Prog.run_bind_ok _ (readFATEntry_flat hfat _), hn]
    dsimp only
    rw [findLastLoop_endsWithin hfat]
    exact ⟨.inr, fun h => h.resolve_left heoc⟩

/-- Both walks end after as many reads of the FAT as an entry has values: `FreeClusters` from a
cluster, and `FindLastCluster` for a node. -/
structure WalksEnd (sb : FatSb) (c : Cache) (cluster : Nat) (v : Vol) (i : Nat) : Prop where
  free : Yields sb.partitionStart (freeClusters sb (entryValues sb.fatType + 1) cluster) c
    fun _ _ => True
  find_last : Yields sb.partitionStart (findLastCluster sb (entryValues sb.fatType) v i) c
    fun _ _ => True

theorem freeClusters_yields_iff {c : Cache} (h : Stands c flat) (hfat : sb.fatCnt ≠ 0)
    (cluster : Nat) :
    Yields sb.partitionStart (freeClusters sb (entryValues sb.fatType + 1) cluster) c
      (fun _ _ => True) ↔
    EndsWithin (freeStep sb) Goes (entryValues sb.fatType) (flat, cluster) := by
  rw [yields_iff h, ← freeClusters_endsWithin hfat]
  exact ⟨fun ⟨flat', _, hrun, _⟩ => ⟨flat', hrun⟩, fun ⟨flat', hrun⟩ => ⟨flat', (), hrun, trivial⟩⟩

theorem findLastCluster_yields_iff {c : Cache} (h : Stands c flat) (hfat : sb.fatCnt ≠ 0)
    (v : Vol) (i : Nat) :
    Yields sb.partitionStart (findLastCluster sb (entryValues sb.fatType) v i) c
      (fun _ _ => True) ↔ getFirstCluster sb (v.nodes i).dirent = clusterEoc ∨
      ¬ ComesAround (fatLink sb flat) Allocated (fatLink sb flat (walkStart sb (v.nodes i))) := by
  rw [yields_iff h, ← findLastCluster_endsWithin hfat]
  refine ⟨fun ⟨flat', r, hrun, _⟩ => ⟨r, ?_⟩, fun ⟨r, hrun⟩ => ⟨flat, r, hrun, trivial⟩⟩
  rw [(run_reads (findLastCluster_meets v i) hrun).1] at hrun
  exact hrun

/-- The walks end exactly if, on a FAT32 volume, the marks leave the walk of `FreeClusters` an end
within as many steps, and the chain of `FindLastCluster` does not come around. -/
theorem walksEnd_iff {c : Cache} (h : Stands c flat) (hfat : sb.fatCnt ≠ 0) (cluster : Nat)
    (v : Vol) (i : Nat) :
    WalksEnd sb c cluster v i ↔
      (sb.fatType = .fat32 →
        EndsWithin (freeStep sb) Goes (entryValues .fat32) (flat, cluster)) ∧
      (getFirstCluster sb (v.nodes i).dirent = clusterEoc ∨ ¬ ComesAround (fatLink sb flat)
        Allocated (fatLink sb flat (walkStart sb (v.nodes i)))) := by
  have hfree := freeClusters_yields_iff h hfat cluster
  have hlast := findLastCluster_yields_iff h hfat v i
  constructor
  · intro hends
    refine ⟨fun ht => ?_, hlast.mp hends.find_last⟩
    have hwalk := hfree.mp hends.free
    rwa [ht] at hwalk
  · intro hcond
    refine ⟨hfree.mpr ?_, hlast.mpr hcond.2⟩
    by_cases ht : sb.fatType = .fat32
    · have hwalk := hcond.1 ht
      rwa [ht]
    · exact markFree_endsWithin hfat ht flat cluster

end Walks

/-- A FAT where cluster 2 leads to 3, and 3 to 2. A file is in the clusters 4 and 5. -/
def cyclicFat16 (block k : Nat) : UInt8 :=
  if block = 2 then [0xf8, 0xff, 0xff, 0xff, 3, 0, 2, 0, 5, 0, 0xff, 0xff].getD k 0 else 0

/-- The nodes with that of the file. -/
def twoClusterVol : Vol :=
  initVol.addNode { oneFileNode with dirent := setFirstCluster sampleFat16 .zeroed 4 }

/-- `walksEnd_iff` there, from cluster 2, which comes around, and for the file. -/
theorem walksEnd_iff_sample : ∃ c, createCache cyclicFat16 1 512 true 5 = some c ∧
    WalksEnd sampleFat16 c 2 twoClusterVol 1 := by
  have hcreate : createCache cyclicFat16 1 512 true 5 = some _ := rfl
  refine ⟨_, hcreate, (walksEnd_iff (createCache_stands hcreate).1 (by decide) 2 twoClusterVol
    1).mpr ⟨fun ht => absurd ht (by decide), .inr fun haround => ?_⟩⟩
  -- the entry of cluster 5 is an end mark
  exact absurd (haround.good 1) (by decide)

/-- The FAT of a FAT32 volume where cluster 100 leads to itself. -/
def cyclicFat32 (block k : Nat) : UInt8 := if block = 1 ∧ k = 400 then 100 else 0

/-- A file of this volume that begins with cluster 100. -/
def cyclicVol : Vol :=
  initVol.setNode 1 { initRootNode with dirent := setFirstCluster sampleFat32 .zeroed 100 }

/-- Its entry is at byte 400 of the FAT, and `FreeClusters` marks bytes 100 to 103. -/
theorem fatLink_markFree_cyclic (flat : Nat → UInt8) :
    fatLink sampleFat32 (markFree sampleFat32 flat 100) 100 = fatLink sampleFat32 flat 100 := rfl

/-- Neither of the two ends there after as many reads as an entry has values. -/
theorem not_walksEnd : ∃ c, createCache cyclicFat32 1 512 true 5 = some c ∧
    ¬ Yields sampleFat32.partitionStart (freeClusters sampleFat32 (entryValues .fat32 + 1) 100) c
      (fun _ _ => True) ∧
    ¬ Yields sampleFat32.partitionStart
      (findLastCluster sampleFat32 (entryValues .fat32) cyclicVol 1) c (fun _ _ => True) := by
  have hcreate : createCache cyclicFat32 1 512 true 5 = some _ := rfl
  have hstands := (createCache_stands hcreate).1
  have hlink : fatLink sampleFat32 (fun a => cyclicFat32 (a / 512) (a % 512)) 100 = 100 := by
    decide
  have hgood : Allocated 100 := by decide
  refine ⟨_, hcreate, fun hends => ?_, fun hends => ?_⟩
  · -- the walk stays at a cluster that leads to itself
    have hwalk := (freeClusters_yields_iff hstands (by decide) 100).mp hends
    apply not_endsWithin_of_inv (I := fun w => w.2 = 100 ∧ fatLink sampleFat32 w.1 100 = 100) _
      ⟨rfl, hlink⟩ _ hwalk
    intro w hw
    obtain ⟨flat, cluster⟩ := w
    obtain ⟨rfl, hself⟩ := hw
    exact ⟨hgood, hself, (fatLink_markFree_cyclic flat).trans hself⟩
  · have hwalk := (findLastCluster_yields_iff hstands (by decide) cyclicVol 1).mp hends
    have hstart : walkStart sampleFat32 (cyclicVol.nodes 1) = 100 := by decide
    rcases hwalk with heoc | hnot
    · exact absurd heoc (by decide)
    · apply hnot
      rw [hstart, hlink]
      refine ⟨0, 1, Nat.one_pos, hlink.symm, fun m hm => ?_⟩
      rw [Nat.lt_one_iff.mp hm]
      exact hgood

end Cheviot.Fatfs
