import Cheviot.Fatfs.Serving
import Cheviot.Fatfs.Truncate

/-!
# The removal of a file

`fatUnlink` and `fatRmDir` free the clusters of the file, mark its entry as deleted and let
go of the node that the lookup has made.

* `removeNode_root` — what the two do to the volume.
* `DiskServes.remove` — which then stands for the store without the file.
* `Serving.remove`, `Serving.refuse` — so do the nodes, also when nothing has been removed.
-/

namespace Cheviot.Fatfs

open Cheviot.Bytes Cheviot.Files Cheviot.Segments

/-! ## The volume without the file -/

section Disk

variable {sb : FatSb} {flat flat' : Nat → UInt8} {cs : List Nat} {slot fuel : Nat}

/-- A file has been removed: its clusters are free, and its entry is dead. -/
structure FileRemoved (sb : FatSb) (flat flat' : Nat → UInt8) (cs : List Nat) (slot : Nat) : Prop
    where
  freed : ∀ c ∈ cs, fatLink sb flat' c = clusterFree
  others : ∀ c, c < sb.clusterCnt + 2 → c ∉ cs → fatLink sb flat' c = fatLink sb flat c
  outside : ∀ a, ¬ InFats sb a → a < rootByte sb slot ∨ rootByte sb slot + 32 ≤ a →
    flat' a = flat a
  dead : Dead (rootEntry sb flat' slot)

/-- The other entries are as they were. -/
theorem FileRemoved.entry_eq (hl : DataLayout sb) (h : FileRemoved sb flat flat' cs slot) {j : Nat}
    (hj : j < sb.rootEntriesCnt) (hne : j ≠ slot) : rootEntry sb flat' j = rootEntry sb flat j := by
  rw [rootEntry_eq hl _ hj, rootEntry_eq hl _ hj]
  congr 1
  refine List.map_congr_left fun k hk => ?_
  have hapart := rootByte_apart sb hne (List.mem_range.mp hk)
  exact h.outside _ (rootByte_not_inFats hl (Nat.le_add_right _ k)) (by omega)

/-- The clusters that are free afterwards. -/
theorem FileRemoved.card_freeSet (h : FileRemoved sb flat flat' cs slot) (hnodup : cs.Nodup)
    (hdata : ∀ c ∈ cs, InData sb c) (hused : ∀ c ∈ cs, fatLink sb flat c ≠ clusterFree) :
    (freeSet sb flat').card = (freeSet sb flat).card +
      (cs.length - cs.countP fun c => decide (sb.clusterCnt ≤ c)) := by
  obtain ⟨back, hback⟩ : ∃ l, l = cs.filter fun c => decide (c < sb.clusterCnt) := ⟨_, rfl⟩
  have hmem : ∀ c, c ∈ back ↔ c ∈ cs ∧ c < sb.clusterCnt := by
    intro c
    rw [hback, List.mem_filter, decide_eq_true_eq]
  have hunion : freeSet sb flat' = freeSet sb flat ∪ back.toFinset := by
    ext c
    rw [Finset.mem_union, List.mem_toFinset, hmem, mem_freeSet, mem_freeSet]
    by_cases hc : c ∈ cs
    · have hmin := (hdata c hc).1
      rw [h.freed c hc]
      exact ⟨fun hf => .inr ⟨hc, hf.1⟩,
        fun hf => hf.elim (fun hold => absurd hold.2.2 (hused c hc))
          fun hnew => ⟨hnew.2, hmin, rfl⟩⟩
    · refine ⟨fun hf => .inl ⟨hf.1, hf.2.1, ?_⟩,
        fun hf => hf.elim (fun hold => ⟨hold.1, hold.2.1, ?_⟩) fun hnew => absurd hnew.1 hc⟩
      · rw [← h.others c (by omega) hc]
        exact hf.2.2
      · rw [h.others c (by omega) hc]
        exact hold.2.2
  have hdisjoint : Disjoint (freeSet sb flat) back.toFinset := by
    refine Finset.disjoint_left.mpr fun c hc hb => ?_
    exact hused c ((hmem c).mp (List.mem_toFinset.mp hb)).1 (mem_freeSet.mp hc).2.2
  have hlen : back.length = cs.length - cs.countP fun c => decide (sb.clusterCnt ≤ c) := by
    have hsplit := List.length_eq_countP_add_countP (fun c => decide (sb.clusterCnt ≤ c)) (l := cs)
    have hrest : cs.countP (fun c => decide ¬ (decide (sb.clusterCnt ≤ c)) = true) =
        cs.countP fun c => decide (c < sb.clusterCnt) := by
      refine List.countP_congr fun c _ => ?_
      rw [decide_eq_true_eq, decide_eq_true_eq, decide_eq_true_eq, Nat.not_le]
    rw [hback, ← List.countP_eq_length_filter]
    omega
  rw [hunion, Finset.card_union_of_disjoint hdisjoint,
    List.toFinset_card_of_nodup (hback ▸ hnodup.filter _), hlen]

/-- What `fatUnlink` and `fatRmDir` do, with a node that is new. -/
theorem removeNode_root (hl : DataLayout sb) (ht : sb.fatType ≠ .fat32)
    (hfuel : sb.clusterCnt + 2 ≤ fuel) (v : Vol) (node : FatNode) (hlt : slot < sb.rootEntriesCnt)
    (hsector : node.direntSector = (rootSlot sb slot).1)
    (hoffset : node.direntOffset = (rootSlot sb slot).2)
    (hchain : IsChain sb flat (getFirstCluster sb node.dirent) cs) (hnodup : cs.Nodup)
    (hnext : v.nextNode ≠ rootNode) :
    ∃ flat', (removeNode sb fuel (v.addNode node) rootNode v.nextNode).run
        (flatOp sb.partitionStart) flat = .ok (flat', freeNode (v.addNode { node with
          dirent := node.dirent.setBytes 0 [direntryDeleted] }) v.nextNode) ∧
      FileRemoved sb flat flat' cs slot := by
  have hlen := length_le_clusterCnt hnodup hchain.inData
  obtain ⟨flat₁, hfree, hfreed, hothers, hbytes⟩ := freeClusters_chain hl ht cs flat _ hchain hnodup
  have hfree := freeClusters_mono (Nat.ne_of_gt hl.fat_cnt) (show cs.length + 1 ≤ fuel by omega)
    hfree
  have hwrite := writeDirent_root hl flat₁ hlt (node.dirent.setBytes 0 [direntryDeleted])
  obtain ⟨flat', hflat'⟩ : ∃ f, f = patch flat₁ (rootByte sb slot)
    (node.dirent.setBytes 0 [direntryDeleted]).bytes := ⟨_, rfl⟩
  rw [← hflat'] at hwrite
  have honly : OnlyRoot sb flat₁ flat' := hflat' ▸ .patch flat₁ hlt _
  have hlink : ∀ c, c < sb.clusterCnt + 2 → fatLink sb flat' c = fatLink sb flat₁ c :=
    fun c hc => fatLink_congr hl hc fun a ha => honly.fats hl ha
  refine ⟨flat', ?_, ⟨fun c hc => ?_, fun c hc hnot => ?_, fun a ha hout => ?_, ?_⟩⟩
  · -- the parent is the root, whose entry is not written
    unfold removeNode
    rw [Vol.addNode_apply, if_pos rfl, Prog.run_bind_ok _ hfree]
    dsimp only
    rw [Vol.addNode_setNode, Prog.run_bind_ok _ (show (flushDirent _ rootNode).run
      (flatOp sb.partitionStart) flat₁ = .ok (flat₁, ()) from rfl)]
    unfold flushDirent
    rw [if_neg hnext, Vol.addNode_apply, if_pos rfl]
    dsimp only
    rw [hsector, hoffset, Prog.run_bind_ok _ hwrite]
    rfl
  · -- the clusters of the file are free, and the others are as they were
    rw [hlink c (hchain.inData c hc).2]
    exact hfreed c hc
  · rw [hlink c hc]
    exact hothers c hc hnot
  · rw [hflat', patch, FatDirEntry.length_eq, if_neg (by omega)]
    exact hbytes a ha
  · rw [hflat', rootEntry_patch hl flat₁ hlt _ hlt, if_pos rfl]
    exact dead_deleted _

end Disk

/-! ## The store without the file -/

section Stores

variable {ι : Type} {sb : FatSb} {flat flat' flat₁ : Nat → UInt8} {entry : ι → Nat}
  {s s' : Store ι} {chains : ι → List Nat} {lost : ι → Nat} {env : Env} {fuel : Nat} {k : ι}

/-- A file does not change with what is neither a link of its clusters nor a byte in them. -/
theorem FileHas.congr (hl : DataLayout sb) {first : Nat} {cs : List Nat} {f : ByteFile}
    (h : FileHas sb flat' first cs f) (hlink : ∀ c ∈ cs, fatLink sb flat₁ c = fatLink sb flat' c)
    (hbytes : ∀ c ∈ cs, ∀ k, flat₁ (clusterStart sb c + k) = flat' (clusterStart sb c + k)) :
    FileHas sb flat₁ first cs f := by
  refine ⟨h.chain.congr hlink, h.ne_nil, h.nodup, fun c hc => ?_, h.size, ?_⟩
  · rw [hlink c hc]
    exact h.used c hc
  · have hsame : fileByte sb flat₁ cs = fileByte sb flat' cs := by
      funext x
      unfold fileByte
      rw [laid_congr hl.clusterSize_pos fun c hc k _ => hbytes c hc k]
    rw [hsame]
    exact h.bytes

/-- A change of the root directory that no reader sees. -/
theorem DiskServes.of_root (hl : DataLayout sb) (h : DiskServes sb flat entry lost flat' s chains)
    (hsame : SameRoot sb flat' flat₁) (honly : OnlyRoot sb flat' flat₁) :
    DiskServes sb flat entry lost flat₁ s chains := by
  have hlink : ∀ c, c < sb.clusterCnt + 2 → fatLink sb flat₁ c = fatLink sb flat' c :=
    fun c hc => fatLink_congr hl hc fun a ha => honly.fats hl ha
  have hfree : freeSet sb flat₁ = freeSet sb flat' := by
    ext c
    rw [mem_freeSet, mem_freeSet]
    refine and_congr_right fun hlt => ?_
    rw [hlink c (by omega)]
  refine ⟨h.same.trans hsame, fun a ha => ?_, h.number, h.fileNr_inj, fun k hk => ?_, h.recorded,
    h.apart, fun c hc => ?_, h.clusters, h.lost, hfree ▸ h.free⟩
  · have hstays := honly a fun slot hlt => ha.root hlt
    exact hstays.trans (h.beyond a ha)
  · have hold := h.file k hk
    exact hold.congr hl (fun c hc => hlink c (hold.chain.inData c hc).2)
      fun c _ => honly.cluster c
  · rw [hlink c (by omega)]
    exact h.reserved c hc

/-- The volume stands for the store without the file that has been removed. -/
theorem DiskServes.remove (hl : DataLayout sb) (h : DiskServes sb flat entry lost flat' s chains)
    (hkept : k ∉ s.gone) (hlt : entry k < sb.rootEntriesCnt)
    (hr : FileRemoved sb flat' flat₁ (chains k) (entry k)) (env : Env) (fuel : Nat) :
    DiskServes sb flat entry lost flat₁ (s.remove (catalog sb flat entry lost env fuel) k)
      chains := by
  have hhas := h.file k hkept
  have hdata := hhas.chain.inData
  have hmem : ∀ {l}, l ∉ k :: s.gone → l ≠ k ∧ l ∉ s.gone :=
    fun hl' => ⟨List.ne_of_not_mem_cons hl', List.not_mem_of_not_mem_cons hl'⟩
  refine ⟨h.same.delete hl (fun _ => hr.dead) fun j hj hne => hr.entry_eq hl hj hne,
    fun a ha => ?_, h.number, h.fileNr_inj, fun l hl' => ?_, h.recorded,
    fun a b hab ha hb => h.apart a b hab (hmem ha).2 (hmem hb).2, fun c hc => ?_,
    fun l hl' => h.clusters l (hmem hl').2, fun l hl' => h.lost l (hmem hl').2, ?_⟩
  · have hstays := hr.outside a (ha.not_inFats hl) (ha.root hlt)
    exact hstays.trans (h.beyond a ha)
  · obtain ⟨hlk, hl'⟩ := hmem hl'
    have hold := h.file l hl'
    refine hold.congr hl (fun c hc => ?_) fun c hc j => ?_
    · exact hr.others c (hold.chain.inData c hc).2 fun hck => h.apart l k hlk hl' hkept hc hck
    · refine hr.outside _ (not_inFats_of_cluster hl (Nat.le_add_right ..)) ?_
      have hbefore := rootByte_lt_cluster hlt c
      exact .inr (by omega)
  · have hnot : c ∉ chains k := by
      intro hck
      have hmin := (hdata c hck).1
      omega
    rw [hr.others c (by omega) hnot]
    exact h.reserved c hc
  · show s.free + (s.clusters k - lost k) = _
    have hlost := h.lost k hkept
    rw [hr.card_freeSet hhas.nodup hdata hhas.used, h.free, h.clusters k hkept, ← hlost]
    rfl

end Stores

/-! ## The node that is let go of -/

section Nodes

variable {ι : Type} {sb : FatSb} {flat flat' : Nat → UInt8} {entry : ι → Nat} {v : Vol}
  {s : Store ι} {chains : ι → List Nat} {lost : ι → Nat} {env : Env} {fuel : Nat} {k : ι}

/-- A node with one reference is gone when this is dropped. -/
theorem freeNode_addNode (node : FatNode) (hnext : v.nextNode ≠ rootNode)
    (hfresh : v.nextNode ∉ v.nodeList) (hone : node.referenceCnt = 1) :
    (freeNode (v.addNode node) v.nextNode).nodeList = v.nodeList ∧
      (freeNode (v.addNode node) v.nextNode).nextNode = v.nextNode + 1 ∧
      (freeNode (v.addNode node) v.nextNode).startSearchCluster = v.startSearchCluster ∧
      ∀ j, j ≠ v.nextNode → (freeNode (v.addNode node) v.nextNode).nodes j = v.nodes j := by
  unfold freeNode
  dsimp only
  rw [if_neg hnext, Vol.addNode_setNode, Vol.addNode_apply, if_pos rfl, Vol.addNode_apply,
    if_pos rfl, if_pos (by rw [hone]; rfl)]
  refine ⟨?_, rfl, rfl, fun j hj => ?_⟩
  · show (v.nodeList ++ [v.nextNode]).erase v.nextNode = v.nodeList
    rw [List.erase_append_right _ hfresh, List.erase_cons_head, List.append_nil]
  · show (v.addNode _).nodes j = v.nodes j
    rw [Vol.addNode_apply, if_neg hj]

/-- `fatUnlink` with a new node. -/
theorem unlinkNode_addNode {node : FatNode} (hone : node.referenceCnt = 1) (parent : Nat) :
    unlinkNode sb fuel (v.addNode node) parent v.nextNode =
      if node.dirent.attributes &&& attrDirectory = 0 then
        removeNode sb fuel (v.addNode node) parent v.nextNode >>= fun v' => replymsg v' 0
      else replymsg (freeNode (v.addNode node) v.nextNode) (-eIsDir) := by
  rw [unlinkNode, Vol.addNode_apply, if_pos rfl, if_pos hone]

/-- `fatRmDir` with a new node. -/
theorem rmDirNode_addNode {node : FatNode} (hone : node.referenceCnt = 1)
    (hnext : v.nextNode ≠ rootNode) (parent : Nat) :
    rmDirNode sb fuel (v.addNode node) parent v.nextNode =
      if node.dirent.attributes &&& attrDirectory ≠ 0 then
        isDirEmpty sb fuel node >>= fun r => if r = 0 then
          removeNode sb fuel (v.addNode node) parent v.nextNode >>= fun v' => replymsg v' (-eInval)
        else replymsg (freeNode (v.addNode node) v.nextNode) (-eExist)
      else replymsg (freeNode (v.addNode node) v.nextNode) (-eNotDir) := by
  rw [rmDirNode, if_pos hnext, Vol.addNode_apply, if_pos rfl, if_pos hone]

/-- The store is as it was when the new node has been let go of. -/
theorem Serving.refuse (h : Serving sb flat entry lost flat' v s chains) (node : FatNode)
    (hone : node.referenceCnt = 1) :
    Serving sb flat entry lost flat' (freeNode (v.addNode node) v.nextNode) s chains := by
  have hfresh : ∀ i ∈ v.nodeList, i ≠ v.nextNode := fun i hi => Nat.ne_of_lt (h.listed i hi)
  obtain ⟨hlist, hnext, hstart, hnodes⟩ := freeNode_addNode node
    (Ne.symm (hfresh _ h.root_mem)) (fun hmem => hfresh _ hmem rfl) hone
  refine ⟨?_, h.toDiskServes, hstart ▸ h.start⟩
  exact h.toNodesServe.of_nodes hlist (fun i hi => hnodes i (hfresh i hi)) (by omega) rfl rfl h.kept

/-- The file is removed with its node. -/
theorem Serving.remove (env : Env) (hl : DataLayout sb) (ht : sb.fatType ≠ .fat32)
    (hfuel : sb.clusterCnt + 2 ≤ fuel)
    (hnumber : getFirstCluster sb (rootEntry sb flat (entry k)) = fileNr sb flat entry k)
    (h : Serving sb flat entry lost flat' v s chains) (hk : ¬ s.opened k) (hkept : k ∉ s.gone)
    (hlt : entry k < sb.rootEntriesCnt) :
    ∃ flat₁ v', (removeNode sb fuel (v.addNode (newNode env v (rootEntry sb flat (entry k))
          (rootSlot sb (entry k)).1 (rootSlot sb (entry k)).2)) rootNode v.nextNode).run
        (flatOp sb.partitionStart) flat' = .ok (flat₁, v') ∧
      Serving sb flat entry lost flat₁ v' (s.remove (catalog sb flat entry lost env fuel) k)
        chains := by
  have hhas := h.file k hkept
  have hfresh : ∀ i ∈ v.nodeList, i ≠ v.nextNode := fun i hi => Nat.ne_of_lt (h.listed i hi)
  have hnext : v.nextNode ≠ rootNode := Ne.symm (hfresh _ h.root_mem)
  obtain ⟨flat₁, hrun, hremoved⟩ := removeNode_root hl ht hfuel v
    (newNode env v (rootEntry sb flat (entry k)) (rootSlot sb (entry k)).1
      (rootSlot sb (entry k)).2) hlt rfl rfl (hnumber.symm ▸ hhas.chain) hhas.nodup hnext
  have hdisk := h.toDiskServes.remove hl hkept hlt hremoved env fuel
  refine ⟨flat₁, _, hrun, ?_⟩
  obtain ⟨hlist, hnode, hstart, hnodes⟩ := freeNode_addNode { newNode env v
    (rootEntry sb flat (entry k)) (rootSlot sb (entry k)).1 (rootSlot sb (entry k)).2 with
      dirent := (rootEntry sb flat (entry k)).setBytes 0 [direntryDeleted] } hnext
    (fun hmem => hfresh _ hmem rfl) rfl
  refine ⟨?_, hdisk, hstart ▸ h.start⟩
  refine h.toNodesServe.of_nodes hlist (fun i hi => hnodes i (hfresh i hi))
    (Nat.le_trans (Nat.le_succ _) (Nat.le_of_eq hnode.symm)) rfl rfl fun l hl' hmem => ?_
  rcases List.mem_cons.mp hmem with heq | hgone
  · exact hk (heq ▸ hl')
  · exact h.kept l hl' hgone

end Nodes

end Cheviot.Fatfs
