import Cheviot.Fatfs.ReadFile
import Cheviot.Fatfs.Removal
import Cheviot.Fatfs.Rmdir
import Cheviot.Lib.Refine

/-!
# Runs of the server on its files

Each message that the store of the files answers is answered so by its handler, and the
nodes and the clusters stand for the store again. So it is with the main loop, from the
mount on.

Every handler has a lemma of its own, for a message that finds what it asks for and for one that
does not. What it does to the list of nodes (`NodesServe`) and to the disk (`DiskServes`) is put
together in `Serving`, as most messages change only one of them. The run is an induction over
the messages (`Simulates.run`).

* `store_simulates` — one message.
* `serve_answers` — what the store allows in a run is what the server does.
-/

namespace Cheviot.Fatfs

open Cheviot.Bytes Cheviot.Files Cheviot.Refine

/-! ## Messages -/

section Messages

variable {ι : Type} {sb : FatSb} {flat flat' : Nat → UInt8} {entry : ι → Nat}
  {v : Vol} {s s' : Store ι} {chains : ι → List Nat} {lost : ι → Nat} {env : Env} {fuel : Nat}
  {k : ι}

/-- A reference of the node of a file is dropped, and is not the last one. -/
theorem Serving.drop {i : Nat} (h : Serving sb flat entry lost flat' v s chains)
    (hi : i ∈ v.nodeList) (hik : (v.nodes i).inodeNr = fileNr sb flat entry k) (hk : s.opened k)
    (htwo : 2 ≤ (v.nodes i).referenceCnt) :
    i ≠ rootNode ∧ (v.nodes i).referenceCnt ≠ 1 ∧
      Serving sb flat entry lost flat' (freeNode v i) s chains := by
  obtain ⟨hnodes, -, hne⟩ := h.toNodesServe.count (h.fileNr_inj) hk hi hik
    ((v.nodes i).referenceCnt - 1)
  have hfree : freeNode v i =
      v.setNode i { v.nodes i with referenceCnt := (v.nodes i).referenceCnt - 1 } := by
    have hcnt : ((v.setNode i { v.nodes i with
        referenceCnt := (v.nodes i).referenceCnt - 1 }).nodes i).referenceCnt ≠ 0 := by
      rw [Vol.setNode_apply, if_pos rfl]
      dsimp only
      omega
    unfold freeNode
    dsimp only
    rw [if_neg hne, if_neg hcnt]
  rw [hfree]
  exact ⟨hne, by omega, hnodes, h.toDiskServes, h.start⟩

/-- A name that the root directory does not have. -/
theorem Serving.name_missing (env : Env) (hl : DataLayout sb) (ht : sb.fatType ≠ .fat32)
    (hroot : sb.rootEntriesCnt < fuel) (h : Serving sb flat entry lost flat' v s chains)
    {name : List UInt8} (hname : Unnamed sb (withoutFiles sb flat entry s.gone) name) :
    ∃ v', findNode v 0 = (v', some rootNode) ∧
      (lookup env sb fuel v' rootNode name).run (flatOp sb.partitionStart) flat' =
        .ok (flat', v', none) ∧ Serving sb flat entry lost flat' v' s chains := by
  obtain ⟨v', hfind, hnodes, hstart⟩ := h.toNodesServe.take_root
  exact ⟨v', hfind, lookup_root_none env (Nat.ne_of_gt hl.fat_cnt) ht hnodes.root_isRoot
    (hname.congr h.same) hroot, hnodes, h.toDiskServes, by rw [hstart]; exact h.start⟩

/-- `lookup` of a name that the root directory does not have. -/
theorem Serving.lookup_missing (hl : DataLayout sb) (ht : sb.fatType ≠ .fat32)
    (hroot : sb.rootEntriesCnt < fuel) (h : Serving sb flat entry lost flat' v s chains)
    {name : List UInt8} (hfits : name.length + 1 ≤ 256)
    (hname : Unnamed sb (withoutFiles sb flat entry s.gone) name) :
    ∃ v', (fatLookup env sb fuel v 0 name).run (flatOp sb.partitionStart) flat' =
        .ok (flat', v', [⟨-eNoEnt, .none, .bytes []⟩]) ∧
      Serving sb flat entry lost flat' v' s chains := by
  obtain ⟨v', hfind, hrun, hserving⟩ := h.name_missing env hl ht hroot hname
  refine ⟨v', ?_, hserving⟩
  rw [fatLookup, Prog.run_bind_ok _ (readName_flat hfits), hfind]
  dsimp only
  rw [Prog.run_bind_ok _ hrun]
  rfl

/-- `unlink` of a name that the root directory does not have. -/
theorem Serving.unlink_missing (env : Env) (hl : DataLayout sb) (ht : sb.fatType ≠ .fat32)
    (hroot : sb.rootEntriesCnt < fuel) (h : Serving sb flat entry lost flat' v s chains)
    {name : List UInt8} (hfits : name.length + 1 ≤ 256)
    (hname : Unnamed sb (withoutFiles sb flat entry s.gone) name) :
    ∃ v', (fatUnlink env sb fuel v 0 name).run (flatOp sb.partitionStart) flat' =
        .ok (flat', v', [⟨-eNoEnt, .none, .bytes []⟩]) ∧
      Serving sb flat entry lost flat' v' s chains := by
  obtain ⟨v', hfind, hrun, hserving⟩ := h.name_missing env hl ht hroot hname
  refine ⟨v', ?_, hserving⟩
  rw [fatUnlink, hfind]
  dsimp only
  rw [Prog.run_bind_ok _ (readName_flat hfits), Prog.run_bind_ok _ hrun]
  rfl

/-- `rmdir` of a name that the root directory does not have. -/
theorem Serving.rmdir_missing (env : Env) (hl : DataLayout sb) (ht : sb.fatType ≠ .fat32)
    (hroot : sb.rootEntriesCnt < fuel) (h : Serving sb flat entry lost flat' v s chains)
    {name : List UInt8} (hfits : name.length + 1 ≤ 256)
    (hname : Unnamed sb (withoutFiles sb flat entry s.gone) name) :
    ∃ v', (fatRmDir env sb fuel v 0 name).run (flatOp sb.partitionStart) flat' =
        .ok (flat', v', [⟨-eNoEnt, .none, .bytes []⟩]) ∧
      Serving sb flat entry lost flat' v' s chains := by
  obtain ⟨v', hfind, hrun, hserving⟩ := h.name_missing env hl ht hroot hname
  refine ⟨v', ?_, hserving⟩
  rw [fatRmDir, hfind]
  dsimp only
  rw [Prog.run_bind_ok _ (readName_flat hfits), Prog.run_bind_ok _ hrun]
  rfl

/-- A read of a file that has been looked up. -/
theorem Serving.read_opened (hl : DataLayout sb) (h : Serving sb flat entry lost flat' v s chains)
    (hk : s.opened k) (offset sz : Nat) :
    ∃ v', (fatRead sb v (fileNr sb flat entry k) offset sz).run (flatOp sb.partitionStart) flat' =
        .ok (flat', v', [readReply ((s.file k).read offset (min sz 0x10000))]) ∧
      Serving sb flat entry lost flat' v' s chains := by
  obtain ⟨v₁, i, hfind, hnodes, -, -, hof, hstart⟩ :=
    h.toNodesServe.take (h.fileNr_inj) hk
  refine ⟨v₁, ?_, hnodes, h.toDiskServes, by rw [hstart]; exact h.start⟩
  have hhas := h.file k (h.kept k hk)
  have hbegin : chainStart sb (v₁.nodes i) = fileNr sb flat entry k := by
    rw [chainStart, hof.isRoot, if_neg Bool.false_ne_true, hof.first]
  have hrun := readFile_flat hl (hbegin ▸ hhas.chain) (by rw [hof.size]; exact hhas.size)
    (min sz 0x10000) offset
  have hbytes : (s.file k).read offset (min sz 0x10000) =
      ((content sb flat' (chains k) (s.file k).size).drop offset).take (min sz 0x10000) := by
    conv_lhs => rw [← hhas.bytes]
    rw [content, take_drop_slice]
    exact ByteFile.read_ofRow ..
  rw [hof.size, ← hbytes] at hrun
  unfold fatRead
  rw [hfind]
  dsimp only
  rw [Prog.run_bind_ok _ hrun]
  rfl

/-- A read of the root, which has no size. -/
theorem Serving.read_root (h : Serving sb flat entry lost flat' v s chains) (offset sz : Nat) :
    ∃ v', (fatRead sb v 0 offset sz).run (flatOp sb.partitionStart) flat' =
        .ok (flat', v', [readReply []]) ∧ Serving sb flat entry lost flat' v' s chains := by
  obtain ⟨v₁, hfind, hnodes, hstart⟩ := h.toNodesServe.take_root
  refine ⟨v₁, ?_, hnodes, h.toDiskServes, by rw [hstart]; exact h.start⟩
  have hrun : (readFile sb (v₁.nodes rootNode) (min sz 0x10000) offset).run
      (flatOp sb.partitionStart) flat' = .ok (flat', []) := by
    unfold readFile
    rw [hnodes.root_size, if_pos (Nat.zero_le _)]
    rfl
  unfold fatRead
  rw [hfind]
  dsimp only
  rw [Prog.run_bind_ok _ hrun]
  rfl

/-- A listing of the root. -/
theorem Serving.readdir_root (hl : DataLayout sb) (ht : sb.fatType ≠ .fat32)
    (h : Serving sb flat entry lost flat' v s chains) {offset nbytes sz cookie : Nat}
    {dirents : List Dirent}
    (hlist : (catalog sb flat entry lost env fuel).lists s.gone offset dirents sz cookie) :
    ∃ v', (fatReadDir env sb fuel v 0 offset nbytes).run (flatOp sb.partitionStart) flat' =
        .ok (flat', v', [⟨sz, .readdir cookie nbytes, .direntsBuf dirents nbytes⟩]) ∧
      Serving sb flat entry lost flat' v' s chains := by
  obtain ⟨v₁, hfind, hnodes, hstart⟩ := h.toNodesServe.take_root
  refine ⟨v₁, ?_, hnodes, h.toDiskServes, by rw [hstart]; exact h.start⟩
  unfold fatReadDir
  rw [hfind]
  dsimp only
  rw [Prog.run_bind_ok _ (readDirLoop_root (Nat.ne_of_gt hl.fat_cnt) ht h.same rfl
    hnodes.root_isRoot fuel _ _ _ _ hlist)]
  rfl

theorem catalog_isDir : (catalog sb flat entry lost env fuel).isDir k = true ↔
    (rootEntry sb flat (entry k)).attributes &&& attrDirectory ≠ 0 :=
  decide_eq_true_iff

theorem catalog_mode : (catalog sb flat entry lost env fuel).mode k =
    if (rootEntry sb flat (entry k)).attributes &&& attrDirectory ≠ 0 then 0o777 ||| 0o040000
    else 0o777 := by
  rw [Catalog.mode, ite_congr (propext catalog_isDir) (fun _ => rfl) fun _ => rfl]

/-- A file that has a name has not been removed, and its entry is as it was. -/
theorem NamedAt.present (hl : DataLayout sb) {gone : List ι} {name : List UInt8}
    (h : NamedAt sb (withoutFiles sb flat entry gone) name (entry k)) :
    k ∉ gone ∧ rootEntry sb (withoutFiles sb flat entry gone) (entry k) =
      rootEntry sb flat (entry k) := by
  have hnot : entry k ∉ gone.map entry := by
    intro hmem
    have hdead := dead_deleteSlots hl flat hmem h.lt
    have hnamed := h.named
    unfold withoutFiles at hnamed
    rw [hdead.unnamed] at hnamed
    cases hnamed
  exact ⟨fun hmem => hnot (List.mem_map_of_mem hmem), rootEntry_deleteSlots hl flat hnot h.lt⟩

/-- The lookup of a name that the root directory has. -/
theorem Serving.name_run (env : Env) (hl : DataLayout sb) (ht : sb.fatType ≠ .fat32)
    (hroot : sb.rootEntriesCnt < fuel) (h : Serving sb flat entry lost flat' v s chains)
    {name : List UInt8} (hname : NamedAt sb (withoutFiles sb flat entry s.gone) name (entry k)) :
    ∃ v₁, findNode v 0 = (v₁, some rootNode) ∧ Serving sb flat entry lost flat' v₁ s chains ∧
      (Counted v → Counted v₁) ∧
      (lookup env sb fuel v₁ rootNode name).run (flatOp sb.partitionStart) flat' =
        .ok (flat', lookupNode env sb v₁ (rootEntry sb flat (entry k)) (rootSlot sb (entry k)).1
          (rootSlot sb (entry k)).2) := by
  obtain ⟨v₁, hfind, hnodes, hstart⟩ := h.toNodesServe.take_root
  refine ⟨v₁, hfind, ⟨hnodes, h.toDiskServes, by rw [hstart]; exact h.start⟩,
    fun hcnt => hcnt.findNode hfind, ?_⟩
  have hrun := lookup_root env (Nat.ne_of_gt hl.fat_cnt) ht hnodes.root_isRoot
    (hname.congr h.same) hroot
  rwa [hname.entry_eq h.same, (hname.present hl).2] at hrun

/-- A directory that is made. -/
theorem Serving.mkdir_root (hl : DataLayout sb) (ht : sb.fatType ≠ .fat32)
    (h : Serving sb flat entry lost flat' v s chains) {name : List UInt8}
    (hfits : name.length + 1 ≤ 256) (hname : (catalog sb flat entry lost env fuel).dosName name) :
    ∃ flat₁ v', (fatMkDir env sb fuel v 0 name).run (flatOp sb.partitionStart) flat' =
        .ok (flat₁, v', [⟨0, .none, .bytes []⟩]) ∧ Serving sb flat entry lost flat₁ v' s chains := by
  obtain ⟨v₁, hfind, hnodes, hstart⟩ := h.toNodesServe.take_root
  obtain ⟨dirent, hdirent⟩ := Option.isSome_iff_exists.mp hname
  obtain ⟨flat₁, hrun, hsame, honly⟩ := mkDir_root env fuel hl ht hfits hfind hdirent
  exact ⟨flat₁, v₁, hrun, hnodes, h.toDiskServes.of_root hl hsame honly,
    by rw [hstart]; exact h.start⟩

/-- A node that is found is that of the root or of a file, and gets a reference. -/
theorem Serving.find (h : Serving sb flat entry lost flat' v s chains) (n : Nat) :
    ∃ v' r, findNode v n = (v', r) ∧ Serving sb flat entry lost flat' v' s chains := by
  rcases findNode_cases v n with ⟨hnone, -⟩ | ⟨i, hi, hin, hfind⟩
  · exact ⟨v, none, hnone, h⟩
  · by_cases hroot : i = rootNode
    · rw [hroot, h.root_inodeNr] at hin
      obtain ⟨v', hfind', hnodes, hstart⟩ := h.toNodesServe.take_root
      exact ⟨v', some rootNode, hin ▸ hfind', hnodes, h.toDiskServes, by rw [hstart]; exact h.start⟩
    · obtain ⟨k, hk, hof⟩ := h.nodes i hi hroot
      obtain ⟨hnodes, -, -⟩ := h.toNodesServe.count h.fileNr_inj hk hi hof.inodeNr
        ((v.nodes i).referenceCnt + 1)
      exact ⟨_, some i, hfind, hnodes, h.toDiskServes, h.start⟩

/-- A name that no directory can have. -/
theorem Serving.mkdir_refused (h : Serving sb flat entry lost flat' v s chains)
    {name : List UInt8} (hfits : name.length + 1 ≤ 256)
    (hname : ¬ (catalog sb flat entry lost env fuel).dosName name) (n : Nat) :
    ∃ v', (fatMkDir env sb fuel v n name).run (flatOp sb.partitionStart) flat' =
        .ok (flat', v', [⟨-eInval, .none, .bytes []⟩]) ∧ Serving sb flat entry lost flat' v' s chains := by
  obtain ⟨v', r, hfind, hserving⟩ := h.find n
  have hnone : fatASCIIZToDirEntry env.charSigned env.stackDirent name = none :=
    Option.not_isSome_iff_eq_none.mp hname
  refine ⟨v', ?_, hserving⟩
  unfold fatMkDir
  rw [Prog.run_bind_ok _ (readName_flat hfits), hfind, hnone]
  rfl

@[simp] theorem newNode_dirent (env : Env) (v : Vol) (dirent : FatDirEntry) (sector : Nat)
    (offset : Fin 512) : (newNode env v dirent sector offset).dirent = dirent := rfl

/-- `IsDirEmpty` is content with any directory that has a first entry. -/
theorem isDirEmpty_file (hl : DataLayout sb) (hfuel : sb.clusterCnt + 2 ≤ fuel) (node : FatNode)
    {first : Nat} (hdata : InData sb first) (hroot : node.isRoot = false)
    (hfirst : getFirstCluster sb node.dirent = first) (flat : Nat → UInt8) :
    (isDirEmpty sb fuel node).run (flatOp sb.partitionStart) flat = .ok (flat, 0) := by
  obtain ⟨m, rfl⟩ := Nat.exists_eq_succ_of_ne_zero (show fuel ≠ 0 by omega)
  have hempty := isDirEmpty_flat (Nat.ne_of_gt hl.fat_cnt) flat m node
  have hnone : ¬ (false = true ∧ sb.fatType ≠ .fat32) := fun hr => Bool.false_ne_true hr.1
  have hzero : direntOffset 0 / sb.clusterSize = 0 := Nat.zero_div _
  rw [hroot, hfirst, dirSlot, if_neg hnone, hzero, if_neg Bool.false_ne_true, chainNth,
    if_pos (hdata.allocated hl)] at hempty
  exact hempty

/-- The lookup of a file that has not been looked up makes a new node for it. -/
theorem Serving.name_new (env : Env) (hl : DataLayout sb) (ht : sb.fatType ≠ .fat32)
    (hroot : sb.rootEntriesCnt < fuel)
    (hnumber : getFirstCluster sb (rootEntry sb flat (entry k)) = fileNr sb flat entry k)
    (h : Serving sb flat entry lost flat' v s chains) (hk : ¬ s.opened k) {name : List UInt8}
    (hname : NamedAt sb (withoutFiles sb flat entry s.gone) name (entry k)) :
    ∃ v₁, findNode v 0 = (v₁, some rootNode) ∧ Serving sb flat entry lost flat' v₁ s chains ∧
      (lookup env sb fuel v₁ rootNode name).run (flatOp sb.partitionStart) flat' =
        .ok (flat', v₁.addNode (newNode env v₁ (rootEntry sb flat (entry k))
          (rootSlot sb (entry k)).1 (rootSlot sb (entry k)).2), some v₁.nextNode) := by
  obtain ⟨v₁, hfind, h₁, -, hrun⟩ := h.name_run env hl ht hroot hname
  obtain ⟨-, -, hnew⟩ := (h₁.lookupNode_cases hl env hnumber (rootSlot sb (entry k)).1
    (rootSlot sb (entry k)).2).resolve_left fun hold => hk hold.1
  rw [hnew] at hrun
  exact ⟨v₁, hfind, h₁, hrun⟩

/-- An `unlink` of a file that has not been looked up: its node is a new one, and has one
reference. -/
theorem Serving.unlink_unopened (hl : DataLayout sb) (ht : sb.fatType ≠ .fat32)
    (hfuel : sb.clusterCnt + 2 ≤ fuel) (hroot : sb.rootEntriesCnt < fuel)
    (hnumber : getFirstCluster sb (rootEntry sb flat (entry k)) = fileNr sb flat entry k)
    (h : Serving sb flat entry lost flat' v s chains) (hk : ¬ s.opened k) {name : List UInt8}
    (hfits : name.length + 1 ≤ 256)
    (hname : NamedAt sb (withoutFiles sb flat entry s.gone) name (entry k)) :
    ((catalog sb flat entry lost env fuel).isDir k = false → ∃ flat₁ v',
      (fatUnlink env sb fuel v 0 name).run (flatOp sb.partitionStart) flat' =
        .ok (flat₁, v', [⟨0, .none, .bytes []⟩]) ∧
      Serving sb flat entry lost flat₁ v' (s.remove (catalog sb flat entry lost env fuel) k)
        chains) ∧
    ((catalog sb flat entry lost env fuel).isDir k = true → ∃ v',
      (fatUnlink env sb fuel v 0 name).run (flatOp sb.partitionStart) flat' =
        .ok (flat', v', [⟨-eIsDir, .none, .bytes []⟩]) ∧
      Serving sb flat entry lost flat' v' s chains) := by
  obtain ⟨v₁, hfind, h₁, hrun⟩ := h.name_new env hl ht hroot hnumber hk hname
  have hrun' : (fatUnlink env sb fuel v 0 name).run (flatOp sb.partitionStart) flat' =
      (unlinkNode sb fuel (v₁.addNode (newNode env v₁ (rootEntry sb flat (entry k))
        (rootSlot sb (entry k)).1 (rootSlot sb (entry k)).2)) rootNode v₁.nextNode).run
        (flatOp sb.partitionStart) flat' := by
    unfold fatUnlink
    rw [hfind]
    dsimp only
    rw [Prog.run_bind_ok _ (readName_flat hfits), Prog.run_bind_ok _ hrun]
  refine ⟨fun hdir => ?_, fun hdir => ?_⟩
  · obtain ⟨flat₁, v', hremove, hserving⟩ := h₁.remove env hl ht hfuel hnumber hk
      (hname.present hl).1 hname.lt
    refine ⟨flat₁, v', ?_, hserving⟩
    -- a file is removed
    have hfile : (rootEntry sb flat (entry k)).attributes &&& attrDirectory = 0 :=
      Decidable.not_not.mp fun hne => Bool.false_ne_true (hdir.symm.trans (catalog_isDir.mpr hne))
    rw [hrun', unlinkNode_addNode rfl, newNode_dirent, if_pos hfile, Prog.run_bind_ok _ hremove]
    rfl
  · -- a directory is not
    refine ⟨_, ?_, h₁.refuse (newNode env v₁ (rootEntry sb flat (entry k))
      (rootSlot sb (entry k)).1 (rootSlot sb (entry k)).2) rfl⟩
    rw [hrun', unlinkNode_addNode rfl, newNode_dirent, if_neg (catalog_isDir.mp hdir)]
    rfl

/-- An `rmdir` of such a file. -/
theorem Serving.rmdir_unopened (hl : DataLayout sb) (ht : sb.fatType ≠ .fat32)
    (hfuel : sb.clusterCnt + 2 ≤ fuel) (hroot : sb.rootEntriesCnt < fuel)
    (hheap : ∀ n, env.heapIsRoot n = false)
    (hnumber : getFirstCluster sb (rootEntry sb flat (entry k)) = fileNr sb flat entry k)
    (h : Serving sb flat entry lost flat' v s chains) (hk : ¬ s.opened k) {name : List UInt8}
    (hfits : name.length + 1 ≤ 256)
    (hname : NamedAt sb (withoutFiles sb flat entry s.gone) name (entry k)) :
    ((catalog sb flat entry lost env fuel).isDir k = true → ∃ flat₁ v',
      (fatRmDir env sb fuel v 0 name).run (flatOp sb.partitionStart) flat' =
        .ok (flat₁, v', [⟨-eInval, .none, .bytes []⟩]) ∧
      Serving sb flat entry lost flat₁ v' (s.remove (catalog sb flat entry lost env fuel) k)
        chains) ∧
    ((catalog sb flat entry lost env fuel).isDir k = false → ∃ v',
      (fatRmDir env sb fuel v 0 name).run (flatOp sb.partitionStart) flat' =
        .ok (flat', v', [⟨-eNotDir, .none, .bytes []⟩]) ∧
      Serving sb flat entry lost flat' v' s chains) := by
  obtain ⟨v₁, hfind, h₁, hrun⟩ := h.name_new env hl ht hroot hnumber hk hname
  have hnext : v₁.nextNode ≠ rootNode := Nat.ne_of_gt (h₁.listed _ h₁.root_mem)
  have hrun' : (fatRmDir env sb fuel v 0 name).run (flatOp sb.partitionStart) flat' =
      (rmDirNode sb fuel (v₁.addNode (newNode env v₁ (rootEntry sb flat (entry k))
        (rootSlot sb (entry k)).1 (rootSlot sb (entry k)).2)) rootNode v₁.nextNode).run
        (flatOp sb.partitionStart) flat' := by
    unfold fatRmDir
    rw [hfind]
    dsimp only
    rw [Prog.run_bind_ok _ (readName_flat hfits), Prog.run_bind_ok _ hrun]
  refine ⟨fun hdir => ?_, fun hdir => ?_⟩
  · obtain ⟨flat₁, v', hremove, hserving⟩ := h₁.remove env hl ht hfuel hnumber hk
      (hname.present hl).1 hname.lt
    refine ⟨flat₁, v', ?_, hserving⟩
    -- the directory is called empty when it has a cluster
    have hempty := isDirEmpty_file hl hfuel (newNode env v₁ (rootEntry sb flat (entry k))
      (rootSlot sb (entry k)).1 (rootSlot sb (entry k)).2) (h.number k) (hheap _) hnumber flat'
    rw [hrun', rmDirNode_addNode rfl hnext, newNode_dirent, if_pos (catalog_isDir.mp hdir),
      Prog.run_bind_ok _ hempty, if_pos rfl, Prog.run_bind_ok _ hremove]
    rfl
  · -- a file is not removed by this message
    refine ⟨_, ?_, h₁.refuse (newNode env v₁ (rootEntry sb flat (entry k))
      (rootSlot sb (entry k)).1 (rootSlot sb (entry k)).2) rfl⟩
    rw [hrun', rmDirNode_addNode rfl hnext, newNode_dirent, if_neg fun hne =>
      Bool.false_ne_true (hdir.symm.trans (catalog_isDir.mpr hne))]
    rfl

variable [DecidableEq ι]

/-- A name that it has. -/
theorem Serving.name_found (hl : DataLayout sb) (ht : sb.fatType ≠ .fat32)
    (hroot : sb.rootEntriesCnt < fuel) (hheap : ∀ n, env.heapIsRoot n = false)
    (hnumber : getFirstCluster sb (rootEntry sb flat (entry k)) = fileNr sb flat entry k)
    (h : Serving sb flat entry lost flat' v s chains) {name : List UInt8}
    (hname : NamedAt sb (withoutFiles sb flat entry s.gone) name (entry k)) :
    ∃ v₁ v' i, findNode v 0 = (v₁, some rootNode) ∧
      (lookup env sb fuel v₁ rootNode name).run (flatOp sb.partitionStart) flat' =
        .ok (flat', v', some i) ∧
      i ∈ v'.nodeList ∧ (v'.nodes i).inodeNr = fileNr sb flat entry k ∧
      (v'.nodes i).dirent = rootEntry sb flat (entry k) ∧
      (s.opened k → Counted v → 2 ≤ (v'.nodes i).referenceCnt) ∧
      Serving sb flat entry lost flat' v' (s.look (catalog sb flat entry lost env fuel) k)
        chains := by
  obtain ⟨v₁, hfind, h₁, hcount, hrun⟩ := h.name_run env hl ht hroot hname
  obtain ⟨v', i, hlook, hi, hnr, hdirent, htwo, hserving⟩ := h₁.look hl hheap hnumber
    (hname.present hl).1 fuel (rootSlot sb (entry k)).1 (rootSlot sb (entry k)).2
  rw [hlook] at hrun
  exact ⟨v₁, v', i, hfind, hrun, hi, hnr, hdirent, fun hk hcnt => htwo hk (hcount hcnt), hserving⟩

/-- A lookup of such a name. -/
theorem Serving.lookup_found (hl : DataLayout sb) (ht : sb.fatType ≠ .fat32)
    (hroot : sb.rootEntriesCnt < fuel) (hheap : ∀ n, env.heapIsRoot n = false)
    (hnumber : getFirstCluster sb (rootEntry sb flat (entry k)) = fileNr sb flat entry k)
    (h : Serving sb flat entry lost flat' v s chains) {name : List UInt8}
    (hfits : name.length + 1 ≤ 256)
    (hname : NamedAt sb (withoutFiles sb flat entry s.gone) name (entry k)) :
    ∃ v', (fatLookup env sb fuel v 0 name).run (flatOp sb.partitionStart) flat' = .ok (flat', v',
        [⟨0, .lookup (fileNr sb flat entry k) (fileSize sb flat entry k) env.uid env.gid
          ((catalog sb flat entry lost env fuel).mode k), .bytes []⟩]) ∧
      Serving sb flat entry lost flat' v' (s.look (catalog sb flat entry lost env fuel) k)
        chains := by
  obtain ⟨v₁, v', i, hfind, hrun, -, hnr, hdirent, -, hserving⟩ :=
    h.name_found hl ht hroot hheap hnumber hname
  refine ⟨v', ?_, hserving⟩
  unfold fatLookup
  rw [Prog.run_bind_ok _ (readName_flat hfits), hfind]
  dsimp only
  rw [Prog.run_bind_ok _ hrun, catalog_mode]
  dsimp only
  rw [hnr, hdirent]
  rfl

/-- An `unlink` of a file that has been looked up drops the reference it has taken, and no
more. -/
theorem Serving.unlink_opened (hl : DataLayout sb) (ht : sb.fatType ≠ .fat32)
    (hroot : sb.rootEntriesCnt < fuel) (hheap : ∀ n, env.heapIsRoot n = false)
    (hnumber : getFirstCluster sb (rootEntry sb flat (entry k)) = fileNr sb flat entry k)
    (h : Serving sb flat entry lost flat' v s chains) (hcnt : Counted v) (hk : s.opened k)
    {name : List UInt8} (hfits : name.length + 1 ≤ 256)
    (hname : NamedAt sb (withoutFiles sb flat entry s.gone) name (entry k)) :
    ∃ v', (fatUnlink env sb fuel v 0 name).run (flatOp sb.partitionStart) flat' = .ok (flat', v',
        [⟨if (catalog sb flat entry lost env fuel).isDir k then -eIsDir else -eBusy, .none, .bytes []⟩]) ∧
      Serving sb flat entry lost flat' v' (s.look (catalog sb flat entry lost env fuel) k)
        chains := by
  obtain ⟨v₁, v', i, hfind, hrun, hi, hnr, hdirent, htwo, hserving⟩ :=
    h.name_found hl ht hroot hheap hnumber hname
  obtain ⟨hfree, hone, hkept⟩ := hserving.drop hi hnr (.inl rfl) (htwo hk hcnt)
  refine ⟨freeNode v' i, ?_, hkept⟩
  unfold fatUnlink
  rw [hfind]
  dsimp only
  rw [Prog.run_bind_ok _ (readName_flat hfits), Prog.run_bind_ok _ hrun]
  dsimp only
  rw [unlinkNode, hdirent]
  by_cases hdir : (rootEntry sb flat (entry k)).attributes &&& attrDirectory = 0
  · rw [if_pos hdir, if_neg hone, if_neg fun hd => catalog_isDir.mp hd hdir]
    rfl
  · rw [if_neg hdir, if_pos (catalog_isDir.mpr hdir)]
    rfl

/-- An `rmdir` of a file that has been looked up is refused, as the file has a node with two
references. -/
theorem Serving.rmdir_opened (hl : DataLayout sb) (ht : sb.fatType ≠ .fat32)
    (hroot : sb.rootEntriesCnt < fuel) (hheap : ∀ n, env.heapIsRoot n = false)
    (hnumber : getFirstCluster sb (rootEntry sb flat (entry k)) = fileNr sb flat entry k)
    (h : Serving sb flat entry lost flat' v s chains) (hcnt : Counted v) (hk : s.opened k)
    {name : List UInt8} (hfits : name.length + 1 ≤ 256)
    (hname : NamedAt sb (withoutFiles sb flat entry s.gone) name (entry k)) :
    ∃ v', (fatRmDir env sb fuel v 0 name).run (flatOp sb.partitionStart) flat' = .ok (flat', v',
        [⟨if (catalog sb flat entry lost env fuel).isDir k then -eBusy else -eNotDir, .none, .bytes []⟩]) ∧
      Serving sb flat entry lost flat' v' (s.look (catalog sb flat entry lost env fuel) k)
        chains := by
  obtain ⟨v₁, v', i, hfind, hrun, hi, hnr, hdirent, htwo, hserving⟩ :=
    h.name_found hl ht hroot hheap hnumber hname
  obtain ⟨hne, hone, hkept⟩ := hserving.drop hi hnr (.inl rfl) (htwo hk hcnt)
  refine ⟨freeNode v' i, ?_, hkept⟩
  unfold fatRmDir
  rw [hfind]
  dsimp only
  rw [Prog.run_bind_ok _ (readName_flat hfits), Prog.run_bind_ok _ hrun]
  dsimp only
  rw [rmDirNode, if_pos hne, hdirent]
  by_cases hdir : (rootEntry sb flat (entry k)).attributes &&& attrDirectory ≠ 0
  · rw [if_pos hdir, if_neg hone, if_pos (catalog_isDir.mpr hdir)]
    rfl
  · rw [if_neg hdir, if_neg fun hd => hdir (catalog_isDir.mp hd)]
    rfl

/-- A write to a file that has been looked up. -/
theorem Serving.write_opened (hl : DataLayout sb) (ht : sb.fatType ≠ .fat32)
    (hfuel : sb.clusterCnt + 2 ≤ fuel) (h : Serving sb flat entry lost flat' v s chains)
    (hk : s.opened k) {offset : Nat} {data : List UInt8} (hlen : data.length ≤ 512)
    (hin : offset ≤ (s.file k).size) (hbits : offset + data.length < 2 ^ 32) :
    ∃ flat₁ v' chains', (fatWrite sb fuel v (fileNr sb flat entry k) offset data).run
        (flatOp sb.partitionStart) flat' = .ok (flat₁, v',
          [⟨s.fits (catalog sb flat entry lost env fuel) k offset data.length, .none, .bytes []⟩]) ∧
      Serving sb flat entry lost flat₁ v'
        (s.write (catalog sb flat entry lost env fuel) k offset data) chains' := by
  obtain ⟨v₁, i, hfind, hnodes, hi, hne, hof, hstart⟩ :=
    h.toNodesServe.take (h.fileNr_inj) hk
  have h₁ : Serving sb flat entry lost flat' v₁ s chains :=
    ⟨hnodes, h.toDiskServes, by rw [hstart]; exact h.start⟩
  obtain ⟨flat₁, v', chains', hrun, hserving⟩ := h₁.write hl ht hfuel hk hi hne hof hin hbits
  refine ⟨flat₁, v', chains', ?_, hserving⟩
  unfold fatWrite
  rw [hfind]
  dsimp only
  rw [if_pos hlen, Prog.run_bind_ok _ hrun]
  rfl

end Messages

/-! ## Runs -/

section Runs

variable {ι : Type} [DecidableEq ι] {env : Env} {sb : FatSb} {fuel : Nat}
  {flat flat' flat₁ flat₂ : Nat → UInt8} {entry : ι → Nat} {chains : ι → List Nat}
  {lost : ι → Nat}

/-- What the server does with a message, on the array. -/
def Handles (env : Env) (sb : FatSb) (fuel : Nat) (t : (Nat → UInt8) × Vol)
    (e : Message × List Reply) (t' : (Nat → UInt8) × Vol) : Prop :=
  (handle env sb fuel t.2 e.1).run (flatOp sb.partitionStart) t.1 = .ok (t'.1, t'.2, e.2)

/-- The main loop takes one message more. -/
theorem serve_snoc {msgs : List Message} {msg : Message} {v v₁ v₂ : Vol}
    {replies : List (List Reply)} {reply : List Reply}
    (hrun : (serve env sb fuel v msgs).run (flatOp sb.partitionStart) flat =
      .ok (flat₁, v₁, replies))
    (hmsg : (handle env sb fuel v₁ msg).run (flatOp sb.partitionStart) flat₁ =
      .ok (flat₂, v₂, reply)) :
    (serve env sb fuel v (msgs ++ [msg])).run (flatOp sb.partitionStart) flat =
      .ok (flat₂, v₂, replies ++ [reply]) := by
  induction msgs generalizing flat v replies with
  | nil =>
    cases hrun
    rw [List.nil_append, serve, Prog.run_bind_ok _ hmsg]
    rfl
  | cons m msgs ih =>
    rw [serve] at hrun
    obtain ⟨flat₃, r, hm, hrun⟩ := Prog.ok_of_run_bind _ hrun
    obtain ⟨v₃, r⟩ := r
    obtain ⟨flat₄, rs, hrest, hrun⟩ := Prog.ok_of_run_bind _ hrun
    obtain ⟨v₄, rs⟩ := rs
    cases hrun
    rw [List.cons_append, serve, Prog.run_bind_ok _ hm]
    dsimp only
    rw [Prog.run_bind_ok _ (ih hrest)]
    rfl

/-- The main loop handles the messages of a run. -/
theorem serve_runs {t t' : (Nat → UInt8) × Vol} {es : List (Message × List Reply)}
    (hrun : Runs (Handles env sb fuel) t es t') :
    (serve env sb fuel t.2 (es.map Prod.fst)).run (flatOp sb.partitionStart) t.1 =
      .ok (t'.1, t'.2, es.map Prod.snd) := by
  induction hrun with
  | start => rfl
  | step _ hstep ih =>
    rw [List.map_append, List.map_append]
    exact serve_snoc ih hstep

/-- Every message the store answers is answered so by the server, which then stands for the store
again. -/
theorem store_simulates (hl : DataLayout sb) (ht : sb.fatType ≠ .fat32)
    (hfuel : sb.clusterCnt + 2 ≤ fuel) (hroot : sb.rootEntriesCnt < fuel)
    (hheap : ∀ n, env.heapIsRoot n = false)
    (hnumber : ∀ k, getFirstCluster sb (rootEntry sb flat (entry k)) = fileNr sb flat entry k) :
    Simulates (StoreStep (catalog sb flat entry lost env fuel)) (Handles env sb fuel)
      fun s t => Counted t.2 ∧ ∃ chains, Serving sb flat entry lost t.1 t.2 s chains := by
  intro s t e s' hrep hstep
  obtain ⟨hcnt, chains, h⟩ := hrep
  obtain ⟨flat', v⟩ := t
  -- the counts are kept by every handler
  suffices hstep' : ∃ t', Handles env sb fuel (flat', v) e t' ∧
      ∃ chains, Serving sb flat entry lost t'.1 t'.2 s' chains by
    obtain ⟨t', hrun, hserving⟩ := hstep'
    exact ⟨t', hrun, (handle_counted hcnt e.1).result hrun, hserving⟩
  have hnone : ∀ {n}, s.Unknown (catalog sb flat entry lost env fuel) n →
      findNode v n = (v, none) := fun hn => h.toNodesServe.findNode_unknown hn
  -- a message that the store answers has been dealt with above, one lemma a handler: what is left
  -- is to put the volume and the chains that it gives together
  induction hstep with
  | @found name k hfits hname =>
    obtain ⟨v', hrun, hserving⟩ := h.lookup_found hl ht hroot hheap (hnumber k) hfits hname
    exact ⟨(flat', v'), hrun, chains, hserving⟩
  | missing hfits hname =>
    obtain ⟨v', hrun, hserving⟩ := h.lookup_missing hl ht hroot hfits hname
    exact ⟨(flat', v'), hrun, chains, hserving⟩
  | noDirectory hfits hn =>
    -- the name is read before the node is looked for
    refine ⟨(flat', v), ?_, chains, h⟩
    show (fatLookup env sb fuel v _ _).run _ flat' = _
    rw [fatLookup, Prog.run_bind_ok _ (readName_flat hfits), hnone hn]
    rfl
  | read hk offset sz =>
    obtain ⟨v', hrun, hserving⟩ := h.read_opened hl hk offset sz
    exact ⟨(flat', v'), hrun, chains, hserving⟩
  | readRoot offset sz =>
    obtain ⟨v', hrun, hserving⟩ := h.read_root offset sz
    exact ⟨(flat', v'), hrun, chains, hserving⟩
  | readNone hn offset sz =>
    refine ⟨(flat', v), ?_, chains, h⟩
    show (fatRead sb v _ _ _).run _ flat' = _
    rw [fatRead, hnone hn]
    rfl
  | write hk hlen hin hbits =>
    obtain ⟨flat₁, v', chains', hrun, hserving⟩ := h.write_opened hl ht hfuel hk hlen hin hbits
    exact ⟨(flat₁, v'), hrun, chains', hserving⟩
  | writeNone hn offset data =>
    refine ⟨(flat', v), ?_, chains, h⟩
    show (fatWrite sb fuel v _ _ _).run _ flat' = _
    rw [fatWrite, hnone hn]
    rfl
  | create _ ih =>
    -- the answer of `fatCreate`, and then that of the read it falls into
    obtain ⟨t', hrun, hserving⟩ := ih
    refine ⟨t', ?_, hserving⟩
    show (handle env sb fuel v _).run _ flat' = _
    have hread : (fatRead sb v _ _ _).run _ flat' = _ := hrun
    rw [handle, fatCreate, Prog.run_bind_ok _ (show (replymsg v _).run _ flat' = .ok (flat', _) from
      rfl), Prog.run_bind_ok _ hread]
    rfl
  | mkdir hfits hname =>
    -- a directory that is made in the root area is in none of the files
    obtain ⟨flat₁, v', hrun, hserving⟩ := h.mkdir_root hl ht hfits hname
    exact ⟨(flat₁, v'), hrun, chains, hserving⟩
  | mkdirRefused hfits hname n =>
    obtain ⟨v', hrun, hserving⟩ := h.mkdir_refused hfits hname n
    exact ⟨(flat', v'), hrun, chains, hserving⟩
  | readdir hlist =>
    obtain ⟨v', hrun, hserving⟩ := h.readdir_root hl ht hlist
    exact ⟨(flat', v'), hrun, chains, hserving⟩
  | @unlink name k hfits hname hk hdir =>
    obtain ⟨flat₁, v', hrun, hserving⟩ :=
      (h.unlink_unopened hl ht hfuel hroot (hnumber k) hk hfits hname).1 hdir
    exact ⟨(flat₁, v'), hrun, chains, hserving⟩
  | @unlinkDir name k hfits hname hk hdir =>
    obtain ⟨v', hrun, hserving⟩ :=
      (h.unlink_unopened hl ht hfuel hroot (hnumber k) hk hfits hname).2 hdir
    exact ⟨(flat', v'), hrun, chains, hserving⟩
  | unlinkMissing hfits hname =>
    obtain ⟨v', hrun, hserving⟩ := h.unlink_missing env hl ht hroot hfits hname
    exact ⟨(flat', v'), hrun, chains, hserving⟩
  | @unlinkOpened name k hfits hname hk =>
    -- the node of the file is counted twice: it stays
    obtain ⟨v', hrun, hserving⟩ :=
      h.unlink_opened hl ht hroot hheap (hnumber k) hcnt hk hfits hname
    exact ⟨(flat', v'), hrun, chains, hserving⟩
  | unlinkNone hn name =>
    refine ⟨(flat', v), ?_, chains, h⟩
    show (fatUnlink env sb fuel v _ _).run _ flat' = _
    rw [fatUnlink, hnone hn]
    rfl
  | @rmdir name k hfits hname hk hdir =>
    obtain ⟨flat₁, v', hrun, hserving⟩ :=
      (h.rmdir_unopened hl ht hfuel hroot hheap (hnumber k) hk hfits hname).1 hdir
    exact ⟨(flat₁, v'), hrun, chains, hserving⟩
  | @rmdirFile name k hfits hname hk hdir =>
    obtain ⟨v', hrun, hserving⟩ :=
      (h.rmdir_unopened hl ht hfuel hroot hheap (hnumber k) hk hfits hname).2 hdir
    exact ⟨(flat', v'), hrun, chains, hserving⟩
  | rmdirMissing hfits hname =>
    obtain ⟨v', hrun, hserving⟩ := h.rmdir_missing env hl ht hroot hfits hname
    exact ⟨(flat', v'), hrun, chains, hserving⟩
  | @rmdirOpened name k hfits hname hk =>
    obtain ⟨v', hrun, hserving⟩ :=
      h.rmdir_opened hl ht hroot hheap (hnumber k) hcnt hk hfits hname
    exact ⟨(flat', v'), hrun, chains, hserving⟩
  | rmdirNone hn name =>
    refine ⟨(flat', v), ?_, chains, h⟩
    show (fatRmDir env sb fuel v _ _).run _ flat' = _
    rw [fatRmDir, hnone hn]
    rfl
  -- these handlers do not look at anything
  | close n => exact ⟨(flat', v), rfl, chains, h⟩
  | mknod => exact ⟨(flat', v), rfl, chains, h⟩
  | rename => exact ⟨(flat', v), rfl, chains, h⟩

end Runs

/-! ## A file that grows and is looked up again -/

theorem fileFlat_entry : getFirstCluster sampleFat16 (rootEntry sampleFat16 fileFlat 0) = 2 ∧
    rawFirstCluster (rootEntry sampleFat16 fileFlat 0) = 2 ∧
    (rootEntry sampleFat16 fileFlat 0).size = 3 := by
  decide

theorem fileFlat_files : RootFiles sampleFat16 fileFlat (fun _ : Unit => 0) fun _ => [2] where
  slot _ := show 0 < 16 by decide
  number _ := fileFlat_entry.1.trans fileFlat_entry.2.1.symm
  file _ := by
    show FileHas _ _ (rawFirstCluster (rootEntry sampleFat16 fileFlat 0)) [2]
      (.ofRow _ (rootEntry sampleFat16 fileFlat 0).size)
    rw [fileFlat_entry.2.1, fileFlat_entry.2.2]
    have hend : fatLink sampleFat16 fileFlat 2 = clusterEoc := by decide
    refine ⟨⟨rfl, by decide, ?_⟩, List.cons_ne_nil _ _, List.nodup_singleton _, ?_, by decide, rfl⟩
    · show ¬ Allocated (fatLink sampleFat16 fileFlat 2)
      rw [hend]
      decide
    · intro c hc
      rw [List.mem_singleton.mp hc, hend]
      decide
  apart k l h := absurd rfl h
  reserved := by
    intro c hc
    have hc : c = 0 ∨ c = 1 := by omega
    rcases hc with rfl | rfl
    · decide
    · decide

/-- What its root directory says. -/
def storeCatalog : Catalog Unit :=
  catalog sampleFat16 fileFlat (fun _ => 0) (fileLost sampleFat16 fun _ => [2]) sampleEnv 5000

/-- Its file. -/
def storeMounted : Store Unit := mountedStore sampleFat16 fileFlat (fun _ => 0) fun _ => [2]

/-- A lookup of the file, as long as it is there. -/
theorem storeCatalog_look {s : Store Unit} (hs : s.gone = []) : StoreStep storeCatalog s
    (.lookup 0 (sampleName 'a'.toUInt8), [⟨0, .lookup 2 3 0 0 0o777, .bytes []⟩])
    (s.look storeCatalog ()) := by
  have hname : storeCatalog.names [] (sampleName 'a'.toUInt8) (some ()) := by
    show NamedAt sampleFat16 (withoutFiles sampleFat16 fileFlat (fun _ : Unit => 0) []) _ 0
    rw [withoutFiles_nil]
    exact ⟨show 0 < 16 by decide,
      show fatCmpDirent (rootEntry sampleFat16 fileFlat 0) _ = true by decide,
      fun j hj => absurd hj (Nat.not_lt_zero j)⟩
  have hnr : storeCatalog.inodeNr () = 2 := fileFlat_entry.2.1
  have hsize : storeCatalog.recorded () = 3 := fileFlat_entry.2.2
  have hmode : storeCatalog.mode () = 0o777 := by decide +kernel
  have hfits : (sampleName 'a'.toUInt8).length + 1 ≤ 256 := by decide
  have hstep := StoreStep.found (s := s) hfits (hs.symm ▸ hname)
  rw [hnr, hsize, hmode] at hstep
  exact hstep

end Cheviot.Fatfs
