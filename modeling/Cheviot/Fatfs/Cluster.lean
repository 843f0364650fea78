import Cheviot.Fatfs.Node

/-!
# Chains of clusters: `cluster.c`

A file is a chain: its first cluster is in its directory entry, the next ones are in the
FAT. `FindCluster` walks the chain from its start, `FindLastCluster` to its end, from
where the walk before has left off. `AppendCluster` takes a free cluster, and
`FreeClusters` gives those of a chain back.

* `chainNth` — a cluster of a chain, by the entries of the first FAT.
* `findCluster_flat` — `FindCluster` finds it.

Mirroring notes:
- `fuel` is the number of rounds a walk along a chain is given; one that needs more
  ends in `hang`. A chain that comes around has no number that is enough.
- `KLog` and what `FlushFSInfo` does are left out.
-/

namespace Cheviot.Fatfs

open Cheviot.Bytes

/-! ## The functions -/

section Functions

variable (sb : FatSb) (fuel : Nat)

/-- The first sector of a cluster. -/
def clusterToSector (cluster : Nat) : Nat :=
  ((cluster + 2 ^ 32 - 2) % 2 ^ 32 * sb.sectorsPerCluster + sb.firstDataSector) % 2 ^ 32

/-- The loop of `FindCluster`, for as many rounds as clusters lie in front of the offset. -/
def findClusterLoop : Nat → Nat → FatM (Option Nat)
  | 0, cluster => return if Allocated cluster then some cluster else none
  | n + 1, cluster =>
    if Allocated cluster then do
      match ← readFATEntry sb cluster with
      | none => return none
      | some newCluster => findClusterLoop n newCluster
    else return none

/-- `FindCluster` -/
def findCluster (node : FatNode) (offset : Nat) : FatM (Option Nat) :=
  findClusterLoop sb (offset / sb.clusterSize)
    (if node.isRoot then sb.rootCluster else getFirstCluster sb node.dirent)

/-- The loop of `FindLastCluster`: `nextCluster` has been read for `cluster`. -/
def findLastLoop (i : Nat) : Nat → Vol → Nat → Nat → FatM (Vol × Option Nat)
  | 0, _, _, _ => FatM.fault .hang
  | fuel + 1, v, cluster, nextCluster =>
    if Allocated nextCluster then do
      let v := v.setNode i { v.nodes i with
        hintOffset := ((v.nodes i).hintOffset + sb.clusterSize) % 2 ^ 32
        hintCluster := nextCluster }
      match ← readFATEntry sb nextCluster with
      | none => return (v, none)
      | some next => findLastLoop i fuel v nextCluster next
    else return (v, some cluster)

/-- `FindLastCluster` -/
def findLastCluster (v : Vol) (i : Nat) : FatM (Vol × Option Nat) :=
  if getFirstCluster sb (v.nodes i).dirent = clusterEoc then return (v, some clusterEoc)
  else do
    let cluster := if (v.nodes i).hintCluster ≠ 0 then (v.nodes i).hintCluster
      else getFirstCluster sb (v.nodes i).dirent
    match ← readFATEntry sb cluster with
    | none => return (v, none)
    | some nextCluster => findLastLoop sb i fuel v cluster nextCluster

/-- The loops of `FindFreeCluster`, for `n` clusters from `cluster` on. -/
def findFreeLoop : Nat → Nat → FatM (Option Nat)
  | 0, _ => return none
  | n + 1, cluster => do
    if (← readFATEntry sb cluster) = some clusterFree then
      match ← writeFATEntry sb cluster clusterEoc with
      | some () => return some cluster
      | none => findFreeLoop n (cluster + 1)
    else findFreeLoop n (cluster + 1)

/-- `FindFreeCluster` -/
def findFreeCluster (v : Vol) : FatM (Vol × Option Nat) := do
  let start := v.startSearchCluster
  match ← findFreeLoop sb (sb.clusterCnt - start) start with
  | some cluster => return ({ v with startSearchCluster := cluster }, some cluster)
  | none =>
    match ← findFreeLoop sb (start - 2) 2 with
    | some cluster => return ({ v with startSearchCluster := cluster }, some cluster)
    | none => return (v, none)

/-- `AppendCluster` -/
def appendCluster (v : Vol) (i : Nat) : FatM (Vol × Option Nat) := do
  let (v, last) ← findLastCluster sb fuel v i
  match last with
  | none => return (v, none)
  | some lastCluster =>
    let (v, free) ← findFreeCluster sb v
    match free with
    | none => return (v, none)
    | some cluster =>
      if getFirstCluster sb (v.nodes i).dirent = clusterEoc then
        let v := v.setNode i { v.nodes i with
          dirent := setFirstCluster sb (v.nodes i).dirent cluster }
        flushDirent v i
        return (v, some cluster)
      else
        let _ ← writeFATEntry sb lastCluster cluster
        return (v, some cluster)

/-- The loop of `FreeClusters`. -/
def freeClusters : Nat → Nat → FatM Unit
  | 0, _ => FatM.fault .hang
  | fuel + 1, cluster =>
    if Allocated cluster then do
      match ← readFATEntry sb cluster with
      | none => return ()
      | some nextCluster =>
        match ← writeFATEntry sb cluster clusterFree with
        | none => return ()
        | some () => freeClusters fuel nextCluster
    else return ()

/-- The loop of `ClearCluster`, for `n` more sectors. -/
def clearSectors (sector : Nat) : Nat → FatM Unit
  | 0 => return ()
  | n + 1 => do
    FatM.writeSector .zeros sector (sectorOffset 0)
    clearSectors (sector + 1) n

/-- `ClearCluster` -/
def clearCluster (cluster : Nat) : FatM Unit :=
  clearSectors (clusterToSector sb cluster) sb.sectorsPerCluster

end Functions

/-! ## Chains on the array -/

section Chains

variable (sb : FatSb) (flat : Nat → UInt8)

/-- What `ReadFATEntry` gives for a cluster, wherever its entry is. -/
def fatLink (cluster : Nat) : Nat :=
  let word (fatOffset n : Nat) : List UInt8 := ringSlice flat
    (byteOf sb.partitionStart (fatSector sb 0 fatOffset) (sectorOffset fatOffset)) n
  match sb.fatType with
  | .fat12 =>
    let wordValue := leWord16 (word ((cluster + cluster / 2) % 2 ^ 32) 2)
    FatType.fat12.fromFat (if cluster % 2 = 1 then wordValue >>> 4 else wordValue &&& 0x0fff)
  | .fat16 => FatType.fat16.fromFat (leWord16 (word (cluster * 2 % 2 ^ 32) 2))
  | .fat32 => FatType.fat32.fromFat (leWord32 (word (cluster * 4 % 2 ^ 32) 4))

/-- The cluster `n` links behind `cluster`, as long as these are clusters. -/
def chainNth : Nat → Nat → Option Nat
  | 0, cluster => if Allocated cluster then some cluster else none
  | n + 1, cluster => if Allocated cluster then chainNth n (fatLink sb flat cluster) else none

variable {sb} {flat}

theorem readFATEntry_flat (hfat : sb.fatCnt ≠ 0) (cluster : Nat) :
    (readFATEntry sb cluster).run (flatOp sb.partitionStart) flat =
      .ok (flat, some (fatLink sb flat cluster)) := by
  have hcopy : (readFATCopy sb cluster 0).run (flatOp sb.partitionStart) flat =
      .ok (flat, fatLink sb flat cluster) := by
    unfold readFATCopy fatLink
    cases sb.fatType <;> rfl
  rw [readFATEntry, if_neg hfat, Prog.run_bind_ok _ hcopy]
  rfl

theorem findClusterLoop_flat (hfat : sb.fatCnt ≠ 0) (n : Nat) : ∀ cluster,
    (findClusterLoop sb n cluster).run (flatOp sb.partitionStart) flat =
      .ok (flat, chainNth sb flat n cluster) := by
  induction n with
  | zero => exact fun _ => rfl
  | succ n ih =>
    intro cluster
    rw [findClusterLoop, chainNth]
    split
    · rw [Prog.run_bind_ok _ (readFATEntry_flat hfat cluster)]
      exact ih _
    · rfl

/-- `FindCluster` goes along the chain. -/
theorem findCluster_flat (hfat : sb.fatCnt ≠ 0) (node : FatNode) (offset : Nat) :
    (findCluster sb node offset).run (flatOp sb.partitionStart) flat =
      .ok (flat, chainNth sb flat (offset / sb.clusterSize)
        (if node.isRoot then sb.rootCluster else getFirstCluster sb node.dirent)) :=
  findClusterLoop_flat hfat _ _

end Chains

/-! ## What they call and return -/

section Meets

variable {sb : FatSb} {fuel : Nat}

theorem findClusterLoop_meets (n : Nat) : ∀ cluster,
    (findClusterLoop sb n cluster).Meets DiskOp.IsRead fun _ => True := by
  induction n with
  | zero => exact fun _ => .pure trivial
  | succ n ih =>
    intro cluster
    rw [findClusterLoop]
    split
    · refine .bind (readFATEntry_meets ..) fun next _ => ?_
      cases next with
      | none => exact .pure trivial
      | some next => exact ih next
    · exact .pure trivial

/-- `FindCluster` writes nothing. -/
theorem findCluster_meets (node : FatNode) (offset : Nat) :
    (findCluster sb node offset).Meets DiskOp.IsRead fun _ => True :=
  findClusterLoop_meets ..

/-- `FindLastCluster` writes nothing, and changes the hints of the node. -/
theorem findLastLoop_meets (i : Nat) (fuel : Nat) : ∀ v cluster next,
    (findLastLoop sb i fuel v cluster next).Meets DiskOp.IsRead fun r => Keeps v r.1 := by
  induction fuel with
  | zero => exact fun _ _ _ => .fail _
  | succ fuel ih =>
    intro v cluster next
    rw [findLastLoop]
    split
    · have hkeeps := Keeps.setNode v i (v.nodes i).dirent next
        (((v.nodes i).hintOffset + sb.clusterSize) % 2 ^ 32)
      refine .bind (readFATEntry_meets ..) fun next' _ => ?_
      cases next' with
      | none => exact .pure hkeeps
      | some next' => exact (ih _ next next').mono fun r hr => hkeeps.trans hr
    · exact .pure (.refl v)

theorem findLastCluster_meets (v : Vol) (i : Nat) :
    (findLastCluster sb fuel v i).Meets DiskOp.IsRead fun r => Keeps v r.1 := by
  unfold findLastCluster
  split
  · exact .pure (.refl v)
  · refine .bind (readFATEntry_meets ..) fun next _ => ?_
    cases next with
    | none => exact .pure (.refl v)
    | some next => exact findLastLoop_meets ..

theorem findFreeCluster_keeps (v : Vol) :
    (findFreeCluster sb v).Meets (fun _ => True) fun r => Keeps v r.1 := by
  have hstart : ∀ cluster, Keeps v { v with startSearchCluster := cluster } :=
    fun _ => ⟨rfl, rfl, fun _ => rfl, fun _ => rfl, fun _ => rfl, fun _ => rfl, fun _ => rfl⟩
  unfold findFreeCluster
  refine .bind (.any _) fun r _ => ?_
  cases r with
  | some cluster => exact .pure (hstart cluster)
  | none =>
    refine .bind (.any _) fun r _ => ?_
    cases r with
    | some cluster => exact .pure (hstart cluster)
    | none => exact .pure (.refl v)

/-- `AppendCluster` changes no more than the entry and the hints of the node. -/
theorem appendCluster_keeps (v : Vol) (i : Nat) :
    (appendCluster sb fuel v i).Meets (fun _ => True) fun r => Keeps v r.1 := by
  unfold appendCluster
  refine .bind ((findLastCluster_meets v i).weaken fun _ _ => trivial) fun r hlast => ?_
  obtain ⟨v₁, last⟩ := r
  cases last with
  | none => exact .pure hlast
  | some last =>
    refine .bind (findFreeCluster_keeps v₁) fun r hfree => ?_
    obtain ⟨v₂, free⟩ := r
    have hkeeps := hlast.trans hfree
    cases free with
    | none => exact .pure hkeeps
    | some cluster =>
      show Prog.Meets _ _ (if _ then _ else _)
      split
      · refine .bind (.any _) fun _ _ => .pure (hkeeps.trans ?_)
        exact Keeps.setNode v₂ i _ _ _
      · exact .bind (.any _) fun _ _ => .pure hkeeps

end Meets

end Cheviot.Fatfs
