import Cheviot.Fatfs.Fat
import Mathlib.Data.List.GetD

/-!
# The nodes of the handler: `node.c`

A node is known by its inode number, which is the first cluster of its file. `FindNode`
takes a reference of the node it finds, `AllocNode` starts a new one with one reference,
and `FreeNode` drops one and takes the node off the list with the last.

* `getFirstCluster`, `setFirstCluster` — the two words of a directory entry that hold it.
* `Keeps` — two volumes with the same nodes on the list, but for what is in their
  directory entries and hints.
-/

namespace Cheviot.Fatfs

open Cheviot.Bytes

/-! ## The first cluster of an entry -/

section FirstCluster

variable (sb : FatSb) (dirent : FatDirEntry)

/-- Both words of the first cluster. -/
def rawFirstCluster : Nat := dirent.firstClusterHi * 2 ^ 16 + dirent.firstClusterLo

/-- `GetFirstCluster` -/
def getFirstCluster : Nat :=
  match sb.fatType with
  | .fat12 | .fat16 => sb.fatType.fromFat dirent.firstClusterLo
  | .fat32 => sb.fatType.fromFat (rawFirstCluster dirent)

/-- `SetFirstCluster` -/
def setFirstCluster (cluster : Nat) : FatDirEntry :=
  let cluster := sb.fatType.toFat cluster
  match sb.fatType with
  | .fat12 => (dirent.setBytes 20 (leBytes16 0)).setBytes 26 (leBytes16 (cluster % 2 ^ 12))
  | .fat16 => (dirent.setBytes 20 (leBytes16 0)).setBytes 26 (leBytes16 (cluster % 2 ^ 16))
  | .fat32 => (dirent.setBytes 20 (leBytes16 (cluster / 2 ^ 16 % 2 ^ 16))).setBytes 26
      (leBytes16 (cluster % 2 ^ 16))

end FirstCluster

section FirstCluster

variable {sb : FatSb} {dirent : FatDirEntry}

theorem FatDirEntry.byte_setBytes {o i : Nat} {l : List UInt8} (hi : i < 32) :
    (dirent.setBytes o l).byte i = stBytes dirent.byte o l i := by
  have hlen : i < ((List.range 32).map (stBytes dirent.byte o l)).length := by
    rw [List.length_map, List.length_range]
    exact hi
  show ((List.range 32).map (stBytes dirent.byte o l)).getD i 0 = _
  rw [List.getD_eq_getElem _ _ hlen, List.getElem_map, List.getElem_range]

/-- A word that is stored in an entry, and a word elsewhere. -/
theorem FatDirEntry.word_setBytes {o x : Nat} (hx : x < 2 ^ 16) (ho : o + 2 ≤ 32) :
    leWord16 (getBytes (dirent.setBytes o (leBytes16 x)).byte o 2) = x := by
  obtain ⟨h0, h1, -⟩ := stBytes_leBytes16 dirent.byte o x hx
  rw [leWord16_getBytes, byte_setBytes (by omega), byte_setBytes (by omega), h0, h1]
  omega

theorem FatDirEntry.word_setBytes_ne {o o' : Nat} {l : List UInt8} (ho : o + 2 ≤ 32)
    (hne : o + 2 ≤ o' ∨ o' + l.length ≤ o) :
    leWord16 (getBytes (dirent.setBytes o' l).byte o 2) = leWord16 (getBytes dirent.byte o 2) := by
  rw [leWord16_getBytes, leWord16_getBytes, byte_setBytes (by omega), byte_setBytes (by omega),
    stBytes_apply_ne (by omega), stBytes_apply_ne (by omega)]

/-- What is put into an entry for its first cluster is its first cluster. -/
theorem getFirstCluster_setFirstCluster {cluster : Nat} (h : FatValue sb.fatType cluster) :
    getFirstCluster sb (setFirstCluster sb dirent cluster) = cluster := by
  have hle := h.toFat_le
  have hback := h.fromFat_toFat
  cases ht : sb.fatType with
  | fat12 =>
    rw [ht] at hle hback
    have hmax : FatType.fat12.toFat cluster ≤ 0xfff := hle
    unfold getFirstCluster setFirstCluster FatDirEntry.firstClusterLo
    rw [ht]
    dsimp only
    rw [FatDirEntry.word_setBytes (by omega) (by decide), Nat.mod_eq_of_lt (by omega), hback]
  | fat16 =>
    rw [ht] at hle hback
    have hmax : FatType.fat16.toFat cluster ≤ 0xffff := hle
    unfold getFirstCluster setFirstCluster FatDirEntry.firstClusterLo
    rw [ht]
    dsimp only
    rw [FatDirEntry.word_setBytes (by omega) (by decide), Nat.mod_eq_of_lt (by omega), hback]
  | fat32 =>
    rw [ht] at hle hback
    have hmax : FatType.fat32.toFat cluster ≤ 0x0fffffff := hle
    have hlen : (leBytes16 (FatType.fat32.toFat cluster % 2 ^ 16)).length = 2 := rfl
    unfold getFirstCluster setFirstCluster rawFirstCluster FatDirEntry.firstClusterLo
      FatDirEntry.firstClusterHi
    rw [ht]
    dsimp only
    rw [FatDirEntry.word_setBytes (by omega) (by decide),
      FatDirEntry.word_setBytes_ne (by decide) (.inl (by decide)),
      FatDirEntry.word_setBytes (by omega) (by decide),
      show FatType.fat32.toFat cluster / 2 ^ 16 % 2 ^ 16 * 2 ^ 16 +
        FatType.fat32.toFat cluster % 2 ^ 16 = FatType.fat32.toFat cluster by omega, hback]

end FirstCluster

/-! ## The list -/

/-- `FindNode` -/
def findNode (v : Vol) (inodeNr : Nat) : Vol × Option Nat :=
  match v.nodeList.find? fun i => (v.nodes i).inodeNr == inodeNr with
  | none => (v, none)
  | some i =>
    (v.setNode i { v.nodes i with referenceCnt := (v.nodes i).referenceCnt + 1 }, some i)

/-- The root node as `InitRootNode` leaves it. -/
def initRootNode : FatNode where
  inodeNr := 0
  isRoot := true
  direntSector := 0
  direntOffset := ⟨0, by decide⟩
  dirent := FatDirEntry.zeroed.setBytes 11 [attrDirectory]
  hintCluster := 0
  hintOffset := 0
  referenceCnt := 1

/-- A volume whose only node is the root. -/
def initVol : Vol where
  nodes := fun _ => initRootNode
  nodeList := [rootNode]
  nextNode := 1
  startSearchCluster := 0

/-- `AllocNode`: no node for a file whose first cluster is no cluster. -/
def allocNode (env : Env) (sb : FatSb) (v : Vol) (dirent : FatDirEntry) (sector : Nat)
    (offset : Fin 512) : Vol × Option Nat :=
  let cluster := getFirstCluster sb dirent
  if cluster = clusterEoc ∨ cluster = clusterBad then (v, none)
  else
    let node : FatNode := {
      inodeNr := cluster
      isRoot := env.heapIsRoot v.nextNode
      direntSector := sector
      direntOffset := offset
      dirent := dirent
      hintCluster := 0
      hintOffset := 0
      referenceCnt := 1 }
    (v.addNode node, some v.nextNode)

/-- `FreeNode` -/
def freeNode (v : Vol) (i : Nat) : Vol :=
  let v := v.setNode i { v.nodes i with referenceCnt := (v.nodes i).referenceCnt - 1 }
  if i = rootNode then v
  else if (v.nodes i).referenceCnt = 0 then { v with nodeList := v.nodeList.erase i }
  else v

/-- `FlushDirent`: the entry of a node, where the node says it is. -/
def flushDirent (v : Vol) (i : Nat) : FatM Unit :=
  if i = rootNode then return ()
  else FatM.writeSector (v.nodes i).dirent.toChunk (v.nodes i).direntSector (v.nodes i).direntOffset

/-! ## What they do to the list -/

section Lemmas

variable {v v' : Vol} {i j inodeNr : Nat} {node : FatNode}

theorem Vol.setNode_apply (v : Vol) (i : Nat) (node : FatNode) (j : Nat) :
    (v.setNode i node).nodes j = if j = i then node else v.nodes j :=
  Function.update_apply ..

theorem Vol.addNode_apply (v : Vol) (node : FatNode) (j : Nat) :
    (v.addNode node).nodes j = if j = v.nextNode then node else v.nodes j :=
  Function.update_apply ..

@[simp] theorem Vol.setNode_nodeList : (v.setNode i node).nodeList = v.nodeList := rfl

@[simp] theorem Vol.setNode_nextNode : (v.setNode i node).nextNode = v.nextNode := rfl

@[simp] theorem Vol.setNode_setNode (v : Vol) (i : Nat) (a b : FatNode) :
    (v.setNode i a).setNode i b = v.setNode i b := by
  unfold Vol.setNode
  rw [Function.update_idem]

@[simp] theorem Vol.addNode_setNode (v : Vol) (a b : FatNode) :
    (v.addNode a).setNode v.nextNode b = v.addNode b := by
  unfold Vol.setNode Vol.addNode
  rw [Function.update_idem]

/-- An entry without a first cluster. -/
theorem getFirstCluster_zero {sb : FatSb} {dirent : FatDirEntry} (h : rawFirstCluster dirent = 0) :
    getFirstCluster sb dirent = 0 := by
  have hlo : dirent.firstClusterLo = 0 := by
    unfold rawFirstCluster at h
    omega
  unfold getFirstCluster
  rw [h, hlo]
  cases sb.fatType <;> rfl

/-- `FindNode` finds no node, or takes a reference of one on the list. -/
theorem findNode_cases (v : Vol) (inodeNr : Nat) :
    (findNode v inodeNr = (v, none) ∧ ∀ i ∈ v.nodeList, (v.nodes i).inodeNr ≠ inodeNr) ∨
    ∃ i, i ∈ v.nodeList ∧ (v.nodes i).inodeNr = inodeNr ∧ findNode v inodeNr = (v.setNode i
      { v.nodes i with referenceCnt := (v.nodes i).referenceCnt + 1 }, some i) := by
  unfold findNode
  cases hfind : v.nodeList.find? fun i => (v.nodes i).inodeNr == inodeNr with
  | none =>
    refine .inl ⟨rfl, fun i hi => ?_⟩
    have hne := List.find?_eq_none.mp hfind i hi
    simpa using hne
  | some i =>
    have heq := List.find?_some hfind
    exact .inr ⟨i, List.mem_of_find?_eq_some hfind, by simpa using heq, rfl⟩

theorem findNode_some (h : (findNode v inodeNr).2 = some i) :
    i ∈ v.nodeList ∧ (v.nodes i).inodeNr = inodeNr := by
  rcases findNode_cases v inodeNr with ⟨hnone, -⟩ | ⟨j, hj, hnr, hsome⟩
  · rw [hnone] at h
    cases h
  · rw [hsome] at h
    cases h
    exact ⟨hj, hnr⟩

/-- `FindNode` changes nothing but a count. -/
theorem findNode_same {r : Option Nat} (h : findNode v inodeNr = (v', r)) :
    v'.nodeList = v.nodeList ∧ v'.nextNode = v.nextNode ∧
      ∀ j, v'.nodes j = { v.nodes j with referenceCnt := (v'.nodes j).referenceCnt } := by
  rcases findNode_cases v inodeNr with ⟨hnone, -⟩ | ⟨i, -, -, hsome⟩
  · rw [hnone] at h
    cases h
    exact ⟨rfl, rfl, fun _ => rfl⟩
  · rw [hsome] at h
    cases h
    refine ⟨rfl, rfl, fun j => ?_⟩
    rw [Vol.setNode_apply]
    split
    next hj => rw [hj]
    · rfl

/-- `AllocNode` refuses a file without a first cluster. -/
theorem allocNode_cases (env : Env) (sb : FatSb) (v : Vol) (dirent : FatDirEntry) (sector : Nat)
    (offset : Fin 512) :
    ((getFirstCluster sb dirent = clusterEoc ∨ getFirstCluster sb dirent = clusterBad) ∧
      allocNode env sb v dirent sector offset = (v, none)) ∨
    (¬ (getFirstCluster sb dirent = clusterEoc ∨ getFirstCluster sb dirent = clusterBad) ∧
      allocNode env sb v dirent sector offset = (v.addNode {
        inodeNr := getFirstCluster sb dirent
        isRoot := env.heapIsRoot v.nextNode
        direntSector := sector
        direntOffset := offset
        dirent := dirent
        hintCluster := 0
        hintOffset := 0
        referenceCnt := 1 }, some v.nextNode)) := by
  by_cases h : getFirstCluster sb dirent = clusterEoc ∨ getFirstCluster sb dirent = clusterBad
  · exact .inl ⟨h, if_pos h⟩
  · exact .inr ⟨h, if_neg h⟩

/-- The list and the nodes, up to their directory entries and hints. -/
structure Keeps (v v' : Vol) : Prop where
  nodeList : v'.nodeList = v.nodeList
  nextNode : v'.nextNode = v.nextNode
  inodeNr : ∀ i, (v'.nodes i).inodeNr = (v.nodes i).inodeNr
  isRoot : ∀ i, (v'.nodes i).isRoot = (v.nodes i).isRoot
  direntSector : ∀ i, (v'.nodes i).direntSector = (v.nodes i).direntSector
  direntOffset : ∀ i, (v'.nodes i).direntOffset = (v.nodes i).direntOffset
  referenceCnt : ∀ i, (v'.nodes i).referenceCnt = (v.nodes i).referenceCnt

theorem Keeps.refl (v : Vol) : Keeps v v :=
  ⟨rfl, rfl, fun _ => rfl, fun _ => rfl, fun _ => rfl, fun _ => rfl, fun _ => rfl⟩

theorem Keeps.trans {v'' : Vol} (h : Keeps v v') (h' : Keeps v' v'') : Keeps v v'' where
  nodeList := h'.nodeList.trans h.nodeList
  nextNode := h'.nextNode.trans h.nextNode
  inodeNr := fun i => (h'.inodeNr i).trans (h.inodeNr i)
  isRoot := fun i => (h'.isRoot i).trans (h.isRoot i)
  direntSector := fun i => (h'.direntSector i).trans (h.direntSector i)
  direntOffset := fun i => (h'.direntOffset i).trans (h.direntOffset i)
  referenceCnt := fun i => (h'.referenceCnt i).trans (h.referenceCnt i)

/-- A new directory entry and new hints for a node. -/
theorem Keeps.setNode (v : Vol) (i : Nat) (dirent : FatDirEntry) (cluster offset : Nat) :
    Keeps v (v.setNode i { v.nodes i with
      dirent := dirent, hintCluster := cluster, hintOffset := offset }) := by
  have hfield : ∀ {α : Type} (f : FatNode → α), (f { v.nodes i with
        dirent := dirent, hintCluster := cluster, hintOffset := offset } = f (v.nodes i)) →
      ∀ j, f ((v.setNode i { v.nodes i with
        dirent := dirent, hintCluster := cluster, hintOffset := offset }).nodes j) =
        f (v.nodes j) := by
    intro α f hf j
    rw [Vol.setNode_apply]
    by_cases hj : j = i
    · rw [if_pos hj, hj]
      exact hf
    · rw [if_neg hj]
  exact ⟨rfl, rfl, hfield _ rfl, hfield _ rfl, hfield _ rfl, hfield _ rfl, hfield _ rfl⟩

end Lemmas

end Cheviot.Fatfs
