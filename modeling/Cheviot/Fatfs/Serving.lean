import Cheviot.Fatfs.References
import Cheviot.Fatfs.RootDir
import Cheviot.Fatfs.Store
import Cheviot.Fatfs.Write

/-!
# Volumes that stand for a store of files

The files are those with an entry in the root directory of a FAT12 or FAT16 volume, each with
clusters of its own. The nodes of the handler are the root's and those of the files that have
been looked up.

The two halves are apart: `NodesServe` for the nodes, `DiskServes` for the bytes. A write takes
only free clusters and those of its own file, so that the clusters of the other files, which are
in use, have the bytes and the links they had.

* `RootFiles`, `mountedStore`, `catalog` — the files of a volume, when it is mounted.
* `Serving` — nodes and clusters that stand for a store.
* `Serving.look`, `Serving.write` — they do so after a lookup, and after a write.
* `DiskServes.restart` — so do the nodes of a new start.

Mirroring notes:
- The entries of the files stay as they are, but for the first byte of one that is removed:
  nothing writes a size to the disk.
-/

namespace Cheviot.Fatfs

open Cheviot.Bytes Cheviot.Files Cheviot.Segments

/-! ## The files of a volume -/

section Volume

variable {ι : Type} (sb : FatSb) (flat : Nat → UInt8)

/-- A file in the clusters of a chain. -/
structure FileHas (first : Nat) (cs : List Nat) (f : ByteFile) : Prop where
  chain : IsChain sb flat first cs
  ne_nil : cs ≠ []
  nodup : cs.Nodup
  used : ∀ c ∈ cs, fatLink sb flat c ≠ clusterFree
  size : f.size ≤ cs.length * sb.clusterSize
  bytes : .ofRow (fileByte sb flat cs) f.size = f

/-- The node of a file. -/
structure NodeOf (node : FatNode) (first : Nat) (cs : List Nat) (size : Nat) : Prop where
  inodeNr : node.inodeNr = first
  isRoot : node.isRoot = false
  first : getFirstCluster sb node.dirent = first
  hint : node.hintCluster = 0 ∨ node.hintCluster ∈ cs
  size : node.dirent.size = size

section Files

variable (entry : ι → Nat)

/-- The inode number of a file with an entry in the root directory. -/
def fileNr (k : ι) : Nat := rawFirstCluster (rootEntry sb flat (entry k))

/-- The size in the entry. -/
def fileSize (k : ι) : Nat := (rootEntry sb flat (entry k)).size

/-- Files with entries in the root directory, each with clusters of its own. -/
structure RootFiles (chains : ι → List Nat) : Prop where
  slot : ∀ k, entry k < sb.rootEntriesCnt
  number : ∀ k, getFirstCluster sb (rootEntry sb flat (entry k)) = fileNr sb flat entry k
  file : ∀ k, FileHas sb flat (fileNr sb flat entry k) (chains k)
    (.ofRow (fileByte sb flat (chains k)) (fileSize sb flat entry k))
  apart : ∀ k l, k ≠ l → List.Disjoint (chains k) (chains l)
  reserved : Reserved sb flat

/-- How many clusters of a file the search for a free one does not come to. -/
def fileLost (chains : ι → List Nat) (k : ι) : Nat :=
  (chains k).countP fun c => decide (sb.clusterCnt ≤ c)

/-- The first byte behind the clusters. -/
def volumeEnd : Nat :=
  512 * (sb.partitionStart + sb.rootDirStart + sb.rootDirSectors +
    sb.clusterCnt * sb.sectorsPerCluster)

/-- A byte in front of the FATs, or behind the clusters. -/
def Beyond (a : Nat) : Prop :=
  a < 512 * (sb.partitionStart + sb.reservedSectorsCnt) ∨ volumeEnd sb ≤ a

/-- The files as they are at the mount. -/
def mountedStore (chains : ι → List Nat) : Store ι where
  file k := .ofRow (fileByte sb flat (chains k)) (fileSize sb flat entry k)
  clusters k := (chains k).length
  free := (freeSet sb flat).card
  opened _ := False
  gone := []

/-- The volume without the files that have been removed. -/
def withoutFiles (gone : List ι) : Nat → UInt8 := deleteSlots sb (gone.map entry) flat

/-- What the root directory says of them. -/
def catalog (lost : ι → Nat) (env : Env) (fuel : Nat) : Catalog ι where
  clusterSize := sb.clusterSize
  uid := env.uid
  gid := env.gid
  names gone name r := match r with
    | some k => NamedAt sb (withoutFiles sb flat entry gone) name (entry k)
    | none => Unnamed sb (withoutFiles sb flat entry gone) name
  lists gone offset dirents sz cookie :=
    (readDirLoop env sb initRootNode fuel offset 0).run (flatOp sb.partitionStart)
        (withoutFiles sb flat entry gone) =
      .ok (withoutFiles sb flat entry gone, dirents, sz, cookie)
  dosName name := (fatASCIIZToDirEntry env.charSigned env.stackDirent name).isSome
  inodeNr := fileNr sb flat entry
  recorded := fileSize sb flat entry
  isDir k := (rootEntry sb flat (entry k)).attributes &&& attrDirectory ≠ 0
  lost := lost

/-! ## Nodes and clusters -/

/-- The nodes on the list are the root and those of the files that have been looked up. -/
structure NodesServe (v : Vol) (s : Store ι) (chains : ι → List Nat) : Prop where
  root_mem : rootNode ∈ v.nodeList
  root_inodeNr : (v.nodes rootNode).inodeNr = 0
  root_isRoot : (v.nodes rootNode).isRoot = true
  root_size : (v.nodes rootNode).dirent.size = 0
  listed : ∀ i ∈ v.nodeList, i < v.nextNode
  unique : ∀ i ∈ v.nodeList, ∀ j ∈ v.nodeList, (v.nodes i).inodeNr = (v.nodes j).inodeNr → i = j
  nodes : ∀ i ∈ v.nodeList, i ≠ rootNode → ∃ k, s.opened k ∧
    NodeOf sb (v.nodes i) (fileNr sb flat entry k) (chains k) (s.file k).size
  held : ∀ k, s.opened k → ∃ i ∈ v.nodeList, i ≠ rootNode ∧
    (v.nodes i).inodeNr = fileNr sb flat entry k
  kept : ∀ k, s.opened k → k ∉ s.gone

/-- The clusters hold the files. The root directory is as it was when the volume was mounted,
without those that have been removed, and the rest of the device as it was. -/
structure DiskServes (lost : ι → Nat) (flat' : Nat → UInt8) (s : Store ι)
    (chains : ι → List Nat) : Prop where
  same : SameRoot sb (withoutFiles sb flat entry s.gone) flat'
  beyond : ∀ a, Beyond sb a → flat' a = flat a
  number : ∀ k, InData sb (fileNr sb flat entry k)
  fileNr_inj : ∀ k l, fileNr sb flat entry k = fileNr sb flat entry l → k = l
  file : ∀ k, k ∉ s.gone → FileHas sb flat' (fileNr sb flat entry k) (chains k) (s.file k)
  recorded : ∀ k, fileSize sb flat entry k ≤ (s.file k).size
  apart : ∀ k l, k ≠ l → k ∉ s.gone → l ∉ s.gone → List.Disjoint (chains k) (chains l)
  reserved : Reserved sb flat'
  clusters : ∀ k, k ∉ s.gone → s.clusters k = (chains k).length
  lost : ∀ k, k ∉ s.gone → fileLost sb chains k = lost k
  free : s.free = (freeSet sb flat').card

/-- A volume whose nodes and clusters stand for a store. -/
structure Serving (lost : ι → Nat) (flat' : Nat → UInt8) (v : Vol) (s : Store ι)
    (chains : ι → List Nat) : Prop extends NodesServe sb flat entry v s chains,
    DiskServes sb flat entry lost flat' s chains where
  start : v.startSearchCluster ≤ sb.clusterCnt

end Files

end Volume

section Nodes

variable {ι : Type} {sb : FatSb} {flat flat' : Nat → UInt8} {entry : ι → Nat} {v v' : Vol}
  {s s' : Store ι} {chains chains' : ι → List Nat} {lost : ι → Nat} {env : Env} {fuel : Nat}
  {k : ι} {i n : Nat}

/-- The first cluster of a file is one of its clusters. -/
theorem FileHas.first_mem {first : Nat} {cs : List Nat} {f : ByteFile}
    (h : FileHas sb flat first cs f) : first ∈ cs ∧ InData sb first := by
  have hchain := h.chain
  cases cs with
  | nil => exact absurd rfl h.ne_nil
  | cons c cs =>
    obtain ⟨rfl, hdata, -⟩ := hchain
    exact ⟨List.mem_cons_self .., hdata⟩

/-- No two files have the same inode number. -/
theorem RootFiles.fileNr_inj (h : RootFiles sb flat entry chains) (k l : ι)
    (heq : fileNr sb flat entry k = fileNr sb flat entry l) : k = l := by
  by_contra hne
  have hk := (h.file k).first_mem.1
  rw [heq] at hk
  exact h.apart k l hne hk (h.file l).first_mem.1

/-- `FindNode` of a node on the list. -/
theorem NodesServe.findNode (h : NodesServe sb flat entry v s chains) (hi : i ∈ v.nodeList)
    (hn : (v.nodes i).inodeNr = n) :
    Fatfs.findNode v n =
      (v.setNode i { v.nodes i with referenceCnt := (v.nodes i).referenceCnt + 1 }, some i) := by
  rcases findNode_cases v n with ⟨-, hnone⟩ | ⟨j, hj, hjn, hfind⟩
  · exact absurd hn (hnone i hi)
  · obtain rfl : j = i := h.unique j hj i hi (hjn.trans hn.symm)
    exact hfind

/-- `FindNode` finds nothing for a number that no file has. -/
theorem NodesServe.findNode_unknown (h : NodesServe sb flat entry v s chains)
    (hn : s.Unknown (catalog sb flat entry lost env fuel) n) : Fatfs.findNode v n = (v, none) := by
  refine findNode_none fun i hi hin => ?_
  by_cases hroot : i = rootNode
  · rw [hroot, h.root_inodeNr] at hin
    exact hn.1 hin.symm
  · obtain ⟨k, hk, hof⟩ := h.nodes i hi hroot
    exact hn.2 k hk (hof.inodeNr.symm.trans hin)

/-- The node `i` of the file `k`, which may be a new one, has been changed. -/
theorem NodesServe.put (h : NodesServe sb flat entry v s chains)
    (hinj : ∀ k l, fileNr sb flat entry k = fileNr sb flat entry l → k = l)
    (hlist : ∀ j, j ∈ v'.nodeList ↔ j = i ∨ j ∈ v.nodeList)
    (hlisted : ∀ j ∈ v'.nodeList, j < v'.nextNode) (hi : i ≠ rootNode)
    (hown : ∀ j ∈ v.nodeList, (v.nodes j).inodeNr = fileNr sb flat entry k ↔ j = i)
    (hothers : ∀ j, j ≠ i → v'.nodes j = v.nodes j)
    (hof : NodeOf sb (v'.nodes i) (fileNr sb flat entry k) (chains' k) (s'.file k).size)
    (hopened : ∀ l, s'.opened l ↔ l = k ∨ s.opened l) (hkept : k ∉ s.gone)
    (hgone : s'.gone = s.gone) (hfile : ∀ l, l ≠ k → s'.file l = s.file l ∧ chains' l = chains l) :
    NodesServe sb flat entry v' s' chains' := by
  have hroot : v'.nodes rootNode = v.nodes rootNode := hothers _ (Ne.symm hi)
  -- a node of the file is `i`
  have hself : ∀ j ∈ v'.nodeList, (v'.nodes j).inodeNr = fileNr sb flat entry k → j = i := by
    intro j hj hjk
    by_contra hne
    rw [hothers j hne] at hjk
    rcases (hlist j).mp hj with heq | hold
    · exact hne heq
    · exact hne ((hown j hold).mp hjk)
  refine ⟨(hlist _).mpr (.inr h.root_mem), ?_, ?_, ?_, hlisted, fun a ha b hb hab => ?_,
    fun j hj hne => ?_, fun l hl => ?_, fun l hl => ?_⟩
  · -- the root node is not `i`
    rw [hroot]
    exact h.root_inodeNr
  · rw [hroot]
    exact h.root_isRoot
  · rw [hroot]
    exact h.root_size
  · -- no two nodes have the same inode number
    by_cases hai : a = i
    · subst hai
      exact (hself b hb (hab.symm.trans hof.inodeNr)).symm
    · by_cases hbi : b = i
      · subst hbi
        exact hself a ha (hab.trans hof.inodeNr)
      · rw [hothers a hai, hothers b hbi] at hab
        exact h.unique a (((hlist a).mp ha).resolve_left hai) b (((hlist b).mp hb).resolve_left hbi)
          hab
  · -- every other node is that of a file
    by_cases hji : j = i
    · subst hji
      exact ⟨k, (hopened k).mpr (.inl rfl), hof⟩
    · have hold := ((hlist j).mp hj).resolve_left hji
      obtain ⟨l, hl, hofl⟩ := h.nodes j hold hne
      have hlk : l ≠ k := by
        rintro rfl
        exact hji ((hown j hold).mp hofl.inodeNr)
      obtain ⟨hfl, hcl⟩ := hfile l hlk
      refine ⟨l, (hopened l).mpr (.inr hl), ?_⟩
      rw [hothers j hji, hfl, hcl]
      exact hofl
  · -- every file that has been looked up has its node
    by_cases hlk : l = k
    · subst hlk
      exact ⟨i, (hlist i).mpr (.inl rfl), hi, hof.inodeNr⟩
    · obtain ⟨j, hj, hne, hjl⟩ := h.held l (((hopened l).mp hl).resolve_left hlk)
      have hji : j ≠ i := fun heq => hlk (hinj l k (hjl.symm.trans ((hown j hj).mpr heq)))
      refine ⟨j, (hlist j).mpr (.inr hj), hne, ?_⟩
      rw [hothers j hji]
      exact hjl
  · rw [hgone]
    rcases (hopened l).mp hl with rfl | hold
    · exact hkept
    · exact h.kept l hold

/-- Nodes that are not on the list make no difference, and neither does a file that has not been
looked up. -/
theorem NodesServe.of_nodes (h : NodesServe sb flat entry v s chains)
    (hlist : v'.nodeList = v.nodeList) (hnodes : ∀ i ∈ v.nodeList, v'.nodes i = v.nodes i)
    (hnext : v.nextNode ≤ v'.nextNode) (hopened : s'.opened = s.opened)
    (hfile : s'.file = s.file) (hkept : ∀ k, s.opened k → k ∉ s'.gone) :
    NodesServe sb flat entry v' s' chains := by
  refine ⟨hlist ▸ h.root_mem, ?_, ?_, ?_, fun i hi => ?_, fun i hi j hj hij => ?_,
    fun i hi hne => ?_, fun k hk => ?_, fun k hk => hkept k (hopened ▸ hk)⟩
  · rw [hnodes _ h.root_mem]
    exact h.root_inodeNr
  · rw [hnodes _ h.root_mem]
    exact h.root_isRoot
  · rw [hnodes _ h.root_mem]
    exact h.root_size
  · exact Nat.lt_of_lt_of_le (h.listed i (hlist ▸ hi)) hnext
  · rw [hlist] at hi hj
    rw [hnodes i hi, hnodes j hj] at hij
    exact h.unique i hi j hj hij
  · rw [hlist] at hi
    rw [hnodes i hi, hopened, hfile]
    exact h.nodes i hi hne
  · obtain ⟨i, hi, hne, hik⟩ := h.held k (hopened ▸ hk)
    refine ⟨i, hlist ▸ hi, hne, ?_⟩
    rw [hnodes i hi]
    exact hik

/-- A reference of the root is taken. -/
theorem NodesServe.take_root (h : NodesServe sb flat entry v s chains) : ∃ v',
    Fatfs.findNode v 0 = (v', some rootNode) ∧ NodesServe sb flat entry v' s chains ∧
      v'.startSearchCluster = v.startSearchCluster := by
  refine ⟨_, h.findNode h.root_mem h.root_inodeNr, ?_, rfl⟩
  have hothers : ∀ node j, j ≠ rootNode → (v.setNode rootNode node).nodes j = v.nodes j :=
    fun node j hj => by rw [Vol.setNode_apply, if_neg hj]
  have hnr : ∀ cnt j, ((v.setNode rootNode
      { v.nodes rootNode with referenceCnt := cnt }).nodes j).inodeNr = (v.nodes j).inodeNr := by
    intro cnt j
    rw [Vol.setNode_apply]
    by_cases hj : j = rootNode
    · rw [if_pos hj, hj]
    · rw [if_neg hj]
  refine ⟨h.root_mem, ?_, ?_, ?_, h.listed, fun a ha b hb hab => ?_, fun j hj hne => ?_,
    fun l hl => ?_, h.kept⟩
  · rw [Vol.setNode_apply, if_pos rfl]
    exact h.root_inodeNr
  · rw [Vol.setNode_apply, if_pos rfl]
    exact h.root_isRoot
  · rw [Vol.setNode_apply, if_pos rfl]
    exact h.root_size
  · rw [hnr, hnr] at hab
    exact h.unique a ha b hb hab
  · rw [hothers _ j hne]
    exact h.nodes j hj hne
  · obtain ⟨j, hj, hne, hjl⟩ := h.held l hl
    refine ⟨j, hj, hne, ?_⟩
    rw [hothers _ j hne]
    exact hjl

/-- The node of a file that has been looked up. -/
theorem NodesServe.opened (h : NodesServe sb flat entry v s chains)
    (hinj : ∀ k l, fileNr sb flat entry k = fileNr sb flat entry l → k = l) (hk : s.opened k) :
    ∃ i ∈ v.nodeList, i ≠ rootNode ∧
      NodeOf sb (v.nodes i) (fileNr sb flat entry k) (chains k) (s.file k).size ∧
      ∀ j ∈ v.nodeList, (v.nodes j).inodeNr = fileNr sb flat entry k ↔ j = i := by
  obtain ⟨i, hi, hne, hik⟩ := h.held k hk
  obtain ⟨l, -, hof⟩ := h.nodes i hi hne
  obtain rfl : l = k := hinj l k (hof.inodeNr.symm.trans hik)
  refine ⟨i, hi, hne, hof, fun j hj => ⟨fun hjk => ?_, fun heq => heq ▸ hik⟩⟩
  exact h.unique j hj i hi (hjk.trans hik.symm)

/-- The count of its references makes no difference. -/
theorem NodesServe.count (h : NodesServe sb flat entry v s chains)
    (hinj : ∀ k l, fileNr sb flat entry k = fileNr sb flat entry l → k = l) (hk : s.opened k)
    (hi : i ∈ v.nodeList) (hik : (v.nodes i).inodeNr = fileNr sb flat entry k) (cnt : Int) :
    NodesServe sb flat entry (v.setNode i { v.nodes i with referenceCnt := cnt }) s chains ∧
      NodeOf sb ((v.setNode i { v.nodes i with referenceCnt := cnt }).nodes i)
        (fileNr sb flat entry k) (chains k) (s.file k).size ∧ i ≠ rootNode := by
  obtain ⟨i', -, hne, hof, hown⟩ := h.opened hinj hk
  obtain rfl : i = i' := (hown i hi).mp hik
  have hof' : NodeOf sb ((v.setNode i { v.nodes i with referenceCnt := cnt }).nodes i)
      (fileNr sb flat entry k) (chains k) (s.file k).size := by
    rw [Vol.setNode_apply, if_pos rfl]
    exact ⟨hof.inodeNr, hof.isRoot, hof.first, hof.hint, hof.size⟩
  refine ⟨?_, hof', hne⟩
  refine h.put hinj (fun j => ?_) h.listed hne hown
    (fun j hj => by rw [Vol.setNode_apply, if_neg hj]) hof' (fun l => ?_) (h.kept k hk) rfl
    fun _ _ => ⟨rfl, rfl⟩
  · exact ⟨.inr, fun hj => hj.elim (fun heq => heq ▸ hi) id⟩
  · exact ⟨.inr, fun hl => hl.elim (fun heq => heq ▸ hk) id⟩

/-- A reference of it is taken. -/
theorem NodesServe.take (h : NodesServe sb flat entry v s chains)
    (hinj : ∀ k l, fileNr sb flat entry k = fileNr sb flat entry l → k = l) (hk : s.opened k) :
    ∃ v' i, Fatfs.findNode v (fileNr sb flat entry k) = (v', some i) ∧
      NodesServe sb flat entry v' s chains ∧ i ∈ v'.nodeList ∧ i ≠ rootNode ∧
      NodeOf sb (v'.nodes i) (fileNr sb flat entry k) (chains k) (s.file k).size ∧
      v'.startSearchCluster = v.startSearchCluster := by
  obtain ⟨i, hi, -, hik⟩ := h.held k hk
  obtain ⟨hnodes, hof, hne⟩ := h.count hinj hk hi hik ((v.nodes i).referenceCnt + 1)
  exact ⟨_, i, h.findNode hi hik, hnodes, hi, hne, hof, rfl⟩

/-- A byte outside the areas is in none of the FATs. -/
theorem Beyond.not_inFats (hl : DataLayout sb) {a : Nat} (h : Beyond sb a) : ¬ InFats sb a := by
  intro hin
  obtain ⟨f, hf, hlo, hhi⟩ := hin
  have hbefore := fat_before_cluster hl hf 2
  unfold clusterStart at hbefore
  unfold fatStart at hlo
  unfold Beyond volumeEnd at h
  omega

/-- A byte in front of the FATs or behind the clusters is in no entry of the root directory. -/
theorem Beyond.root {a slot : Nat} (h : Beyond sb a) (hlt : slot < sb.rootEntriesCnt) :
    a < rootByte sb slot ∨ rootByte sb slot + 32 ≤ a := by
  have hend := rootByte_end hlt
  unfold rootByte FatSb.rootDirStart at hend ⊢
  unfold Beyond volumeEnd FatSb.rootDirStart at h
  omega

/-- A byte in front of the FATs or behind the clusters is in no cluster. -/
theorem Beyond.cluster {a c : Nat} (h : Beyond sb a) (hc : InData sb c) :
    a < clusterStart sb c ∨ clusterStart sb c + sb.clusterSize ≤ a := by
  obtain ⟨hmin, hlt⟩ := hc
  have hmul : (c - 2 + 1) * sb.sectorsPerCluster ≤ sb.clusterCnt * sb.sectorsPerCluster :=
    Nat.mul_le_mul_right _ (by omega)
  rw [Nat.succ_mul] at hmul
  unfold clusterStart FatSb.rootDirStart FatSb.clusterSize
  unfold Beyond volumeEnd FatSb.rootDirStart at h
  omega

theorem withoutFiles_nil (sb : FatSb) (flat : Nat → UInt8) (entry : ι → Nat) :
    withoutFiles sb flat entry [] = flat := by
  funext a
  unfold withoutFiles deleteSlots
  rw [if_neg]
  intro hex
  obtain ⟨slot, hmem, -⟩ := hex
  cases hmem

/-- The node that `lookup` makes for an entry. -/
def newNode (env : Env) (v : Vol) (dirent : FatDirEntry) (sector : Nat) (offset : Fin 512) :
    FatNode where
  inodeNr := rawFirstCluster dirent
  isRoot := env.heapIsRoot v.nextNode
  direntSector := sector
  direntOffset := offset
  dirent := dirent
  hintCluster := 0
  hintOffset := 0
  referenceCnt := 1

/-- `lookup` with the entry of a file: the node it has, or a new one. -/
theorem Serving.lookupNode_cases (hl : DataLayout sb) (env : Env)
    (hnumber : getFirstCluster sb (rootEntry sb flat (entry k)) = fileNr sb flat entry k)
    (h : Serving sb flat entry lost flat' v s chains) (sector : Nat) (offset : Fin 512) :
    (s.opened k ∧ ∃ i ∈ v.nodeList, i ≠ rootNode ∧ (v.nodes i).inodeNr = fileNr sb flat entry k ∧
      (v.nodes i).isRoot = false ∧
      lookupNode env sb v (rootEntry sb flat (entry k)) sector offset =
        (v.setNode i { v.nodes i with
        inodeNr := fileNr sb flat entry k
        referenceCnt := (v.nodes i).referenceCnt + 1
        hintCluster := 0
        hintOffset := 0
        dirent := rootEntry sb flat (entry k) }, some i)) ∨
    (¬ s.opened k ∧ (∀ i ∈ v.nodeList, (v.nodes i).inodeNr ≠ fileNr sb flat entry k) ∧
      lookupNode env sb v (rootEntry sb flat (entry k)) sector offset =
        (v.addNode (newNode env v (rootEntry sb flat (entry k)) sector offset),
          some v.nextNode)) := by
  have hfirst := (h.number k).allocated hl
  rcases Fatfs.lookupNode_cases env sb v (rootEntry sb flat (entry k)) sector offset with
    ⟨hmark, -⟩ | ⟨-, ⟨i, hfind, hi, hrun⟩ | ⟨hnone, hrun⟩⟩
  · -- the first cluster is a cluster
    rw [hnumber] at hmark
    have hle : fileNr sb flat entry k ≤ 0x0ffffff6 := hfirst.2
    rcases hmark with heq | heq
    · rw [heq] at hle
      exact absurd hle (by decide)
    · rw [heq] at hle
      exact absurd hle (by decide)
  · rw [hnumber] at hfind
    obtain ⟨-, hik⟩ := findNode_some hfind
    have hne : i ≠ rootNode := by
      intro heq
      have hmin := (h.number k).1
      rw [← hik, heq, h.root_inodeNr] at hmin
      exact absurd hmin (by decide)
    obtain ⟨l, hopened, hof⟩ := h.nodes i hi hne
    obtain rfl : l = k := h.fileNr_inj l k (hof.inodeNr.symm.trans hik)
    exact .inl ⟨hopened, i, hi, hne, hik, hof.isRoot, hrun⟩
  · rw [hnumber] at hnone
    refine .inr ⟨fun hopened => ?_, hnone, hrun⟩
    obtain ⟨j, hj, -, hjk⟩ := h.held k hopened
    exact hnone j hj hjk

/-- Nodes that have just been made stand for no file, whatever is on the disk. -/
theorem NodesServe.fresh (hs : ∀ k, ¬ s.opened k) :
    NodesServe sb flat entry initVol s chains where
  root_mem := List.mem_singleton_self _
  root_inodeNr := rfl
  root_isRoot := rfl
  root_size := by decide
  listed i hi := by
    rw [List.mem_singleton.mp hi]
    exact Nat.zero_lt_one
  unique i hi j hj _ := (List.mem_singleton.mp hi).trans (List.mem_singleton.mp hj).symm
  nodes i hi hne := absurd (List.mem_singleton.mp hi) hne
  held k hk := absurd hk (hs k)
  kept k hk := absurd hk (hs k)

/-- The mounted volume stands for the store of its files. -/
theorem RootFiles.serving (h : RootFiles sb flat entry chains) :
    Serving sb flat entry (fileLost sb chains) flat initVol (mountedStore sb flat entry chains)
      chains where
  toNodesServe := .fresh fun _ hk => hk
  same := withoutFiles_nil sb flat entry ▸ .refl sb flat
  beyond _ _ := rfl
  number k := (h.file k).first_mem.2
  fileNr_inj := h.fileNr_inj
  file k _ := h.file k
  recorded _ := Nat.le_refl _
  apart k l hkl _ _ := h.apart k l hkl
  reserved := h.reserved
  clusters _ _ := rfl
  lost _ _ := rfl
  free := rfl
  start := Nat.zero_le _

theorem FileHas.cut {first n : Nat} {cs : List Nat} {f : ByteFile} (h : FileHas sb flat first cs f)
    (hle : n ≤ f.size) : FileHas sb flat first cs (f.cut n) := by
  have hsize : (f.cut n).size = n := Nat.min_eq_left hle
  refine ⟨h.chain, h.ne_nil, h.nodup, h.used, ?_, ?_⟩
  · rw [hsize]
    exact Nat.le_trans hle h.size
  · rw [hsize]
    conv_rhs => rw [← h.bytes]
    exact (ByteFile.cut_ofRow hle).symm

/-- A new start finds the store on the disk. -/
theorem DiskServes.restart (h : DiskServes sb flat entry lost flat' s chains) (env : Env)
    (fuel : Nat) : Serving sb flat entry lost flat' initVol
      (s.restart (catalog sb flat entry lost env fuel)) chains where
  toNodesServe := .fresh fun _ hk => hk
  same := h.same
  beyond := h.beyond
  number := h.number
  fileNr_inj := h.fileNr_inj
  file k hk := (h.file k hk).cut (h.recorded k)
  recorded k := Nat.le_min.mpr ⟨Nat.le_refl _, h.recorded k⟩
  apart := h.apart
  reserved := h.reserved
  clusters := h.clusters
  lost := h.lost
  free := h.free
  start := Nat.zero_le _

end Nodes

/-! ## Lookups -/

section Lookups

variable {ι : Type} [DecidableEq ι] {sb : FatSb} {flat flat' : Nat → UInt8} {entry : ι → Nat}
  {v v' : Vol} {s : Store ι} {chains : ι → List Nat} {lost : ι → Nat} {env : Env} {fuel : Nat}
  {k : ι}

/-- The files after a lookup. -/
theorem DiskServes.look (h : DiskServes sb flat entry lost flat' s chains) (env : Env) (fuel : Nat)
    (k : ι) :
    DiskServes sb flat entry lost flat' (s.look (catalog sb flat entry lost env fuel) k)
      chains := by
  refine ⟨h.same, h.beyond, h.number, h.fileNr_inj, fun l hl => ?_, fun l => ?_, h.apart,
    h.reserved, h.clusters, h.lost, h.free⟩
  · by_cases hlk : l = k
    · subst hlk
      rw [Store.look_self]
      exact (h.file l hl).cut (h.recorded l)
    · rw [Store.look_ne _ _ hlk]
      exact h.file l hl
  · by_cases hlk : l = k
    · subst hlk
      rw [Store.look_self]
      exact Nat.le_min.mpr ⟨Nat.le_refl _, h.recorded l⟩
    · rw [Store.look_ne _ _ hlk]
      exact h.recorded l

/-- The node that `lookup` gives for the entry of a file: the size in it is that in the entry. -/
theorem Serving.look (hl : DataLayout sb) (hheap : ∀ n, env.heapIsRoot n = false)
    (hnumber : getFirstCluster sb (rootEntry sb flat (entry k)) = fileNr sb flat entry k)
    (h : Serving sb flat entry lost flat' v s chains) (hkept : k ∉ s.gone) (fuel sector : Nat)
    (offset : Fin 512) :
    ∃ v' i, lookupNode env sb v (rootEntry sb flat (entry k)) sector offset = (v', some i) ∧
      i ∈ v'.nodeList ∧ (v'.nodes i).inodeNr = fileNr sb flat entry k ∧
      (v'.nodes i).dirent = rootEntry sb flat (entry k) ∧
      (s.opened k → Counted v → 2 ≤ (v'.nodes i).referenceCnt) ∧
      Serving sb flat entry lost flat' v' (s.look (catalog sb flat entry lost env fuel) k)
        chains := by
  have hdisk := h.toDiskServes.look env fuel k
  have hsize : ((s.look (catalog sb flat entry lost env fuel) k).file k).size =
      fileSize sb flat entry k := by
    rw [Store.look_self]
    exact Nat.min_eq_left (h.recorded k)
  have hopened : ∀ l,
      (s.look (catalog sb flat entry lost env fuel) k).opened l ↔ l = k ∨ s.opened l :=
    fun _ => Iff.rfl
  have hothers : ∀ l, l ≠ k → (s.look (catalog sb flat entry lost env fuel) k).file l = s.file l ∧
      chains l = chains l := fun l hlk => ⟨Store.look_ne _ _ hlk, rfl⟩
  -- a node on the list is taken once more, else a new one is put on it
  rcases h.lookupNode_cases hl env hnumber sector offset with
    ⟨-, i, hi, hne, hik, hroot, hrun⟩ | ⟨hk, hnone, hrun⟩
  · refine ⟨_, i, hrun, hi, ?_, ?_, fun _ hcnt => ?_, ⟨?_, hdisk, h.start⟩⟩
    · rw [Vol.setNode_apply, if_pos rfl]
    · rw [Vol.setNode_apply, if_pos rfl]
    · have hpos := hcnt.pos i hi
      rw [Vol.setNode_apply, if_pos rfl]
      exact Int.add_le_add_right hpos 1
    · -- the node that is there already
      refine h.toNodesServe.put h.fileNr_inj (fun j => ?_) h.listed hne
        (fun j hj => ⟨fun hjk => ?_, ?_⟩) (fun j hj => by rw [Vol.setNode_apply, if_neg hj]) ?_
        hopened hkept rfl hothers
      · exact ⟨.inr, fun hj => hj.elim (fun heq => heq ▸ hi) id⟩
      · exact h.unique j hj i hi (hjk.trans hik.symm)
      · intro heq
        rw [heq]
        exact hik
      · rw [Vol.setNode_apply, if_pos rfl, hsize]
        exact ⟨rfl, hroot, hnumber, .inl rfl, rfl⟩
  · -- a new node has a number that none on the list has
    have hfresh : ∀ j ∈ v.nodeList, j ≠ v.nextNode := fun j hj => Nat.ne_of_lt (h.listed j hj)
    refine ⟨_, v.nextNode, hrun, List.mem_append_right _ (List.mem_singleton_self _), ?_, ?_,
      fun hopen => absurd hopen hk, ⟨?_, hdisk, h.start⟩⟩
    · rw [Vol.addNode_apply, if_pos rfl]
      rfl
    · rw [Vol.addNode_apply, if_pos rfl]
      rfl
    · refine h.toNodesServe.put h.fileNr_inj (fun j => ?_) (fun j hj => ?_)
        (Ne.symm (hfresh _ h.root_mem)) (fun j hj => ⟨fun hjk => ?_, fun heq => ?_⟩)
        (fun j hj => by rw [Vol.addNode_apply, if_neg hj]) ?_ hopened hkept rfl hothers
      · rw [Vol.addNode, List.mem_append, List.mem_singleton]
        exact Or.comm
      · rw [Vol.addNode, List.mem_append, List.mem_singleton] at hj
        rcases hj with hj | rfl
        · exact Nat.lt_succ_of_lt (h.listed j hj)
        · exact Nat.lt_succ_self _
      · exact absurd hjk (hnone j hj)
      · exact absurd heq (hfresh j hj)
      · rw [Vol.addNode_apply, if_pos rfl, hsize]
        exact ⟨rfl, hheap _, hnumber, .inl rfl, rfl⟩

end Lookups

/-! ## Writes -/

section Writes

variable {ι : Type} {sb : FatSb} {flat flat' flat₁ : Nat → UInt8} {entry : ι → Nat}
  {v : Vol} {s : Store ι} {chains : ι → List Nat} {lost : ι → Nat} {env : Env} {fuel : Nat} {k : ι}

/-- How many clusters a file has that has got no more than it needs. -/
theorem Tight.length_eq (hl : DataLayout sb) {cs cs' : List Nat} {upto : Nat}
    (h : Tight sb cs cs' upto) (hlen : cs.length ≤ cs'.length)
    (hfits : upto ≤ cs'.length * sb.clusterSize) :
    cs'.length = max cs.length ((upto + sb.clusterSize - 1) / sb.clusterSize) := by
  have hpos := hl.clusterSize_pos
  have hle : (upto + sb.clusterSize - 1) / sb.clusterSize ≤ cs'.length := by
    apply Nat.lt_succ_iff.mp
    rw [Nat.div_lt_iff_lt_mul hpos, Nat.succ_mul]
    omega
  rcases h with rfl | hlt
  · exact (Nat.max_eq_left hle).symm
  · have hge : cs'.length ≤ (upto + sb.clusterSize - 1) / sb.clusterSize :=
      (Nat.le_div_iff_mul_le hpos).mpr (by omega)
    omega

/-- The file when data has been put into its clusters. -/
theorem FileHas.write {first offset : Nat} {cs cs' : List Nat} {f : ByteFile} {data : List UInt8}
    (h : FileHas sb flat first cs f) (hin : offset ≤ f.size)
    (hb : BytesWritten sb flat cs flat' cs' data offset) (hchain : IsChain sb flat' first cs')
    (hnodup : cs'.Nodup) (hused : ∀ c ∈ cs', fatLink sb flat' c ≠ clusterFree)
    (hlen : cs.length ≤ cs'.length) : FileHas sb flat' first cs' (f.write offset data) := by
  have hmul := Nat.mul_le_mul_right sb.clusterSize hlen
  have hsize := h.size
  have hfits := hb.fits
  refine ⟨hchain, fun hnil => h.ne_nil ?_, hnodup, hused, ?_, ?_⟩
  · rw [hnil, List.length_nil] at hlen
    exact List.length_eq_zero_iff.mp (Nat.le_zero.mp hlen)
  · exact Nat.max_le.mpr ⟨by omega, hfits⟩
  · have hput := ByteFile.ofRow_write hin hb.new fun q hq hlt => hb.old q hq (by omega)
    rw [h.bytes] at hput
    exact hput

/-- Two chains that begin alike have the same first cluster. -/
theorem IsChain.first_eq {first first' : Nat} {cs cs' : List Nat} (h : IsChain sb flat first cs)
    (h' : IsChain sb flat' first' cs') (hne : cs ≠ []) (hmore : ∃ new, cs' = cs ++ new) :
    first' = first := by
  obtain ⟨new, rfl⟩ := hmore
  cases cs with
  | nil => exact absurd rfl hne
  | cons c cs => exact h'.1.symm.trans h.1

/-- The clusters that have been appended are some that the search comes to. -/
theorem Grown.lost_eq {cs cs' : List Nat} (h : Grown sb flat' cs flat₁ cs') :
    cs'.countP (fun c => decide (sb.clusterCnt ≤ c)) =
      cs.countP fun c => decide (sb.clusterCnt ≤ c) := by
  obtain ⟨new, rfl, hnew⟩ := h.more
  have hnone : new.countP (fun c => decide (sb.clusterCnt ≤ c)) = 0 := by
    refine List.countP_eq_zero.mpr fun c hc => ?_
    have hlt := (mem_freeSet.mp (hnew c hc)).1
    rw [decide_eq_true_eq]
    omega
  rw [List.countP_append, hnone, Nat.add_zero]

/-- The bytes of a file after a write, of which the store says how many are put. No size falls below
the one in the entry. -/
theorem DiskServes.fileAfter (h : DiskServes sb flat entry lost flat' s chains)
    {cs' : List Nat} {offset n : Nat} {data : List UInt8}
    (hn : n = s.fits (catalog sb flat entry lost env fuel) k offset data.length)
    (hput : FileHas sb flat₁ (fileNr sb flat entry k) cs'
      ((s.file k).write offset (data.take n))) :
    FileHas sb flat₁ (fileNr sb flat entry k) cs'
        (s.fileAfter (catalog sb flat entry lost env fuel) k offset data) ∧
      fileSize sb flat entry k ≤
        (s.fileAfter (catalog sb flat entry lost env fuel) k offset data).size := by
  have hrec := h.recorded k
  have hgrows : (s.file k).size ≤ ((s.file k).write offset (data.take n)).size :=
    Nat.le_max_left ..
  unfold Store.fileAfter
  rw [← hn]
  dsimp only
  split
  · exact ⟨hput, Nat.le_trans hrec hgrows⟩
  · -- the disk is full: the size in the node is that before the write
    exact ⟨hput.cut hgrows, Nat.le_min.mpr ⟨hrec, Nat.le_trans hrec hgrows⟩⟩

variable [DecidableEq ι]

/-- The chains of the files stay apart when that of the file `k` is put in another's place. -/
theorem DiskServes.apart_update (h : DiskServes sb flat entry lost flat' s chains)
    {cs' : List Nat} (hcs : ∀ l, l ≠ k → l ∉ s.gone → List.Disjoint (chains l) cs') (a b : ι)
    (hab : a ≠ b) (ha : a ∉ s.gone) (hb : b ∉ s.gone) :
    List.Disjoint (Function.update chains k cs' a) (Function.update chains k cs' b) := by
  by_cases hak : a = k
  · subst hak
    rw [Function.update_self, Function.update_of_ne (Ne.symm hab)]
    exact (hcs b (Ne.symm hab) hb).symm
  · rw [Function.update_of_ne hak]
    by_cases hbk : b = k
    · subst hbk
      rw [Function.update_self]
      exact hcs a hak ha
    · rw [Function.update_of_ne hbk]
      exact h.apart a b hab ha hb

/-- The part of the store that is on the disk, when a file has been written to. -/
theorem DiskServes.write (hl : DataLayout sb) (h : DiskServes sb flat entry lost flat' s chains)
    {i offset : Nat} {data : List UInt8} {v' : Vol} {cs' : List Nat} (hkept : k ∉ s.gone)
    (hin : offset ≤ (s.file k).size)
    (hs : Stored sb i flat' v (chains k) flat₁ v' cs' data offset
      (s.fits (catalog sb flat entry lost env fuel) k offset data.length))
    (hstart : chainStart sb (v'.nodes i) = fileNr sb flat entry k) :
    DiskServes sb flat entry lost flat₁
      (s.write (catalog sb flat entry lost env fuel) k offset data)
      (Function.update chains k cs') := by
  have hhas := h.file k hkept
  obtain ⟨n, hn⟩ : ∃ n, n = s.fits (catalog sb flat entry lost env fuel) k offset data.length :=
    ⟨_, rfl⟩
  rw [← hn] at hs
  have hle : n ≤ data.length := hn ▸ Nat.min_le_left ..
  have htake : (data.take n).length = n := by rw [List.length_take, Nat.min_eq_left hle]
  -- the file itself: its new clusters go on from its first one, and the bytes are in them
  have hchain := hs.state.chain
  rw [hstart] at hchain
  have hlen := hs.grown.length_le
  have hfits := hs.bytes.fits
  rw [htake] at hfits
  have hafter := h.fileAfter hn
    (hhas.write hin hs.bytes hchain hs.state.nodup hs.state.used hlen)
  have hcount : cs'.length = s.clustersAfter (catalog sb flat entry lost env fuel) k offset n := by
    rw [Store.clustersAfter, h.clusters k hkept]
    exact hs.tight.length_eq hl hlen hfits
  -- the other files: their clusters are in use, so none of them has been taken or written to
  have hother := fun l (hlk : l ≠ k) (hl' : l ∉ s.gone) => hs.grown.chain hl (h.file l hl').chain
    (h.file l hl').used (h.apart l k hlk hl' hkept) hhas.chain.inData
  refine ⟨h.same.trans (.of_bytes hl fun a ha hlt => hs.grown.outside a ha fun c _ => .inl (hlt c)),
    fun a ha => ?_, h.number, h.fileNr_inj, fun l hl' => ?_, fun l => ?_,
    h.apart_update fun l hlk hl' => (hother l hlk hl').2.2.1,
    hs.state.reserved, fun l hl' => ?_, fun l hl' => ?_, ?_⟩
  · -- beyond the tables and the clusters
    have hstays := hs.grown.outside a (ha.not_inFats hl) fun c hc => ha.cluster (hchain.inData c hc)
    exact hstays.trans (h.beyond a ha)
  · -- what the files hold
    by_cases hlk : l = k
    · subst hlk
      rw [Store.write_self, Function.update_self]
      exact hafter.1
    · obtain ⟨hchain', hused', -, hbytes⟩ := hother l hlk hl'
      have hold := h.file l hl'
      rw [Store.write_ne _ _ hlk, Function.update_of_ne hlk]
      refine ⟨hchain', hold.ne_nil, hold.nodup, hused', hold.size, ?_⟩
      rw [hbytes]
      exact hold.bytes
  · -- the sizes in the entries
    by_cases hlk : l = k
    · subst hlk
      rw [Store.write_self]
      exact hafter.2
    · rw [Store.write_ne _ _ hlk]
      exact h.recorded l
  · -- the numbers of clusters
    show Function.update s.clusters k _ l = _
    by_cases hlk : l = k
    · subst hlk
      rw [Function.update_self, Function.update_self, ← hn]
      exact hcount.symm
    · rw [Function.update_of_ne hlk, Function.update_of_ne hlk]
      exact h.clusters l hl'
  · -- the clusters that a write takes come from the search, so no more of them are lost to it
    have hold := h.lost l hl'
    unfold fileLost at hold ⊢
    by_cases hlk : l = k
    · subst hlk
      rw [Function.update_self, hs.grown.lost_eq]
      exact hold
    · rw [Function.update_of_ne hlk]
      exact hold
  · -- the clusters that are taken are those that the free ones have lost
    show s.free - (s.clustersAfter _ k offset _ - s.clusters k) = _
    have hroom := hs.grown.room
    rw [← hn, ← hcount, h.free, h.clusters k hkept]
    omega

/-- `writeFile` does to the volume what a write does to the store. -/
theorem Serving.write (hl : DataLayout sb) (ht : sb.fatType ≠ .fat32)
    (hfuel : sb.clusterCnt + 2 ≤ fuel) (h : Serving sb flat entry lost flat' v s chains)
    {i offset : Nat} {data : List UInt8} (hk : s.opened k) (hi : i ∈ v.nodeList)
    (hne : i ≠ rootNode)
    (hof : NodeOf sb (v.nodes i) (fileNr sb flat entry k) (chains k) (s.file k).size)
    (hin : offset ≤ (s.file k).size) (hbits : offset + data.length < 2 ^ 32) :
    ∃ flat₁ v' chains', (writeFile sb fuel v i data offset).run (flatOp sb.partitionStart) flat' =
        .ok (flat₁, v', s.fits (catalog sb flat entry lost env fuel) k offset data.length) ∧
      Serving sb flat entry lost flat₁ v'
        (s.write (catalog sb flat entry lost env fuel) k offset data) chains' := by
  have hkept := h.kept k hk
  have hhas := h.file k hkept
  obtain ⟨i', -, -, -, hown⟩ := h.toNodesServe.opened h.fileNr_inj hk
  obtain rfl : i = i' := (hown i hi).mp hof.inodeNr
  -- the node says where the clusters begin, and is the only one that does
  have hbegin : chainStart sb (v.nodes i) = fileNr sb flat entry k := by
    rw [chainStart, hof.isRoot, if_neg Bool.false_ne_true, hof.first]
  have hsize := hof.size
  have hstate : FileState sb flat' v i (chains k) :=
    ⟨⟨hbegin ▸ hhas.chain, hhas.nodup, hhas.used, hof.hint, by rw [hsize]; exact hhas.size⟩,
      h.start, h.reserved⟩
  obtain ⟨n, flat₁, v', cs', hn, hrun, hs⟩ := writeFile_run hl hfuel hstate
    (by rw [hsize]; exact hin) (.inr ⟨ht, hof.isRoot, hhas.ne_nil⟩) hbits
  -- the room of the code is that of the store
  have hfits : n = s.fits (catalog sb flat entry lost env fuel) k offset data.length := by
    rw [hn, space, Store.fits, h.clusters k hkept, h.free]
    rfl
  subst hfits
  -- what a write leaves alone in the nodes
  have hkeeps : Keeps v v' := (writeFile_keeps v i data offset).result hrun
  have hroot : (v'.nodes i).isRoot = false := (hkeeps.isRoot i).trans hof.isRoot
  have hstart : chainStart sb (v'.nodes i) = fileNr sb flat entry k := by
    obtain ⟨new, hmore, -⟩ := hs.grown.more
    exact hhas.chain.first_eq hs.state.chain hhas.ne_nil ⟨new, hmore⟩
  have hdisk := h.toDiskServes.write hl hkept hin hs hstart
  refine ⟨flat₁, v', Function.update chains k cs', hrun, ⟨?_, hdisk, hs.state.start⟩⟩
  refine h.toNodesServe.put h.fileNr_inj (fun j => ?_) ?_ hne hown hs.others ⟨?_, hroot, ?_, ?_, ?_⟩
    (fun l => ?_) hkept rfl fun l hlk => ⟨Store.write_ne _ _ hlk .., Function.update_of_ne hlk ..⟩
  · rw [hkeeps.nodeList]
    exact ⟨.inr, fun hj => hj.elim (fun heq => heq ▸ hi) id⟩
  · rw [hkeeps.nodeList, hkeeps.nextNode]
    exact h.listed
  · exact (hkeeps.inodeNr i).trans hof.inodeNr
  · rwa [chainStart, hroot, if_neg Bool.false_ne_true] at hstart
  · rw [Function.update_self]
    exact hs.state.hint
  · rw [Store.write_self, hs.size, hsize, Store.fileAfter]
    split
    next hall =>
      rw [hall, List.take_length]
      rfl
    · exact (Nat.min_eq_left (Nat.le_max_left ..)).symm
  · exact ⟨.inr, fun hl => hl.elim (fun heq => heq ▸ hk) id⟩

end Writes

end Cheviot.Fatfs
