import Cheviot.Fatfs.References
import Cheviot.Fatfs.Lookup

/-!
# Removing directories

`fatRmDir` asks `IsDirEmpty` whether a directory is empty, which goes on as long as
`fat_dir_read` returns 1. That function returns 0 for an entry it has read, so the scan is
over before it has begun: a directory is empty if its first entry can be read.

* `RmDirOk` — no directory with a live entry is removed; the request is refused.
* `rmDirOk_iff` — so it is where something else is in the way of the removal.
-/

namespace Cheviot.Fatfs

open Cheviot.Bytes

section Specs

variable (env : Env) (sb : FatSb) (flat : Nat → UInt8)

/-- An entry that is used, other than `.`, `..` and volume labels. -/
def Live (dirent : FatDirEntry) : Prop :=
  dirent.byte 0 ≠ direntryFree ∧ dirent.byte 0 ≠ direntryDeleted ∧
    dirent.attributes &&& attrVolumeId = 0 ∧
    cstr (fatDirEntryToASCIIZ dirent) ≠ ['.'.toUInt8] ∧
    cstr (fatDirEntryToASCIIZ dirent) ≠ ['.'.toUInt8, '.'.toUInt8]

instance (dirent : FatDirEntry) : Decidable (Live dirent) :=
  inferInstanceAs (Decidable (_ ∧ _))

/-- A directory that begins at a cluster has such an entry, in some slot. -/
def HasLive (first : Nat) : Prop :=
  ∃ slot loc, dirSlot sb flat false first slot = some loc ∧ Live (direntAt sb flat loc)

/-- The directory a request names: the first entry of the name in the directory whose
inode number it gives. -/
def Target (v : Vol) (n : Nat) (name : List UInt8) (loc : Nat × Fin 512) : Prop :=
  (∃ v₁ parent, findNode v n = (v₁, some parent) ∧ EntryIn sb flat (v.nodes parent).isRoot
    (getFirstCluster sb (v.nodes parent).dirent) name loc) ∧
  (direntAt sb flat loc).attributes &&& attrDirectory ≠ 0

/-- What is removed is a directory without live entries; a request that names another
directory is refused, with the volume as it was. -/
structure RmDirOk (c : Cache) (v : Vol) (n : Nat) (name : List UInt8) : Prop where
  only_empty : ∀ fuel c' v' flat' replies,
    (fatRmDir env sb fuel v n name).run (cacheOp sb.partitionStart) c = .ok (c', v', replies) →
      Stands c' flat' → flat' ≠ flat → ∃ loc, Target sb flat v n name loc ∧
        ¬ HasLive sb flat (getFirstCluster sb (direntAt sb flat loc))
  refused : ∀ loc, Target sb flat v n name loc →
    HasLive sb flat (getFirstCluster sb (direntAt sb flat loc)) → ∃ fuel c' v' reply,
      (fatRmDir env sb fuel v n name).run (cacheOp sb.partitionStart) c = .ok (c', v', [reply]) ∧
        reply.status < 0 ∧ Stands c' flat

end Specs

section Removal

variable {env : Env} {sb : FatSb} {flat flat' : Nat → UInt8} {v v' : Vol} {fuel : Nat}

/-- After a removal the entry of the node is marked as deleted. -/
theorem removeNode_flat {parent i : Nat} (hi : i ≠ rootNode)
    (hrun : (removeNode sb fuel v parent i).run (flatOp sb.partitionStart) flat =
      .ok (flat', v')) :
    flat' (byteOf sb.partitionStart (v.nodes i).direntSector (v.nodes i).direntOffset) =
      direntryDeleted := by
  obtain ⟨flat₁, _, -, hrun⟩ := Prog.ok_of_run_bind _ hrun
  obtain ⟨flat₂, _, -, hrun⟩ := Prog.ok_of_run_bind _ hrun
  obtain ⟨flat₃, _, hflush, hrun⟩ := Prog.ok_of_run_bind _ hrun
  cases hrun
  unfold flushDirent at hflush
  rw [if_neg hi, Vol.setNode_apply, if_pos rfl] at hflush
  cases hflush
  have hlt := byteOf_lt sb.partitionStart (v.nodes i).direntSector (v.nodes i).direntOffset
  have hlen : 0 < ((v.nodes i).dirent.setBytes 0 [direntryDeleted]).bytes.length := by
    rw [FatDirEntry.length_eq]
    decide
  exact (ringPatch_start flat₂ hlt hlen).trans rfl

/-- With rounds enough the scan of `IsDirEmpty` ends with the first slot. -/
theorem isDirEmpty_flat (hfat : sb.fatCnt ≠ 0) (flat : Nat → UInt8) (fuel : Nat)
    (node : FatNode) :
    (isDirEmpty sb (fuel + 1) node).run (flatOp sb.partitionStart) flat = .ok (flat,
      if (dirSlot sb flat node.isRoot (getFirstCluster sb node.dirent) 0).isSome then 0 else -1) := by
  unfold isDirEmpty
  rw [isDirEmptyLoop_eq, Prog.run_bind_ok _ (fatDirRead_flat hfat node 0)]
  cases dirSlot sb flat node.isRoot (getFirstCluster sb node.dirent) 0 <;> rfl

/-- An entry that matches is neither free nor deleted. -/
theorem match_not_deleted {dirent : FatDirEntry} {name : List UInt8}
    (h : fatCmpDirent dirent name = true) : dirent.byte 0 ≠ direntryDeleted := by
  unfold fatCmpDirent at h
  exact (of_decide_eq_true h).2.1

/-- What stands between a directory and its removal: a node on the list that has its first
cluster, or no first entry to be read by the node it gets. -/
def Kept (env : Env) (sb : FatSb) (flat : Nat → UInt8) (v : Vol) (first : Nat) : Prop :=
  (∃ i ∈ v.nodeList, (v.nodes i).inodeNr = first) ∨
    dirSlot sb flat (env.heapIsRoot v.nextNode) first 0 = none

/-- The directory a request names, with the node that `lookup` gives for it: it is kept,
and the request refused, or its entry is marked as deleted and the request refused all the
same. -/
theorem rmDirNode_flat (hfat : sb.fatCnt ≠ 0) (hcnt : Counted v) {dirent : FatDirEntry}
    {loc : Nat × Fin 512} {i : Nat} {v₂ : Vol}
    (hdir : dirent.attributes &&& attrDirectory ≠ 0)
    (hnode : lookupNode env sb v dirent loc.1 loc.2 = (v₂, some i)) (parent fuel : Nat) :
    (Kept env sb flat v (getFirstCluster sb dirent) ∧ ∃ v' reply,
      (rmDirNode sb (fuel + 1) v₂ parent i).run (flatOp sb.partitionStart) flat =
        .ok (flat, v', [reply]) ∧ reply.status < 0) ∨
    (¬ Kept env sb flat v (getFirstCluster sb dirent) ∧ ∀ flat' v' replies,
      (rmDirNode sb (fuel + 1) v₂ parent i).run (flatOp sb.partitionStart) flat =
        .ok (flat', v', replies) →
      flat' (byteOf sb.partitionStart loc.1 loc.2) = direntryDeleted ∧
        replies = [⟨-eInval, .none, .bytes []⟩]) := by
  unfold rmDirNode
  rcases lookupNode_cases env sb v dirent loc.1 loc.2 with
    ⟨-, hnone⟩ | ⟨-, ⟨j, hfind, hj, hsome⟩ | ⟨hall, hnew⟩⟩
  · rw [hnone] at hnode
    cases hnode
  · -- a node on the list has references besides
    rw [hsome] at hnode
    cases hnode
    refine .inl ⟨.inl ⟨i, findNode_some hfind⟩, ?_⟩
    have hpos := hcnt.pos i hj
    by_cases hi : i = rootNode
    · rw [if_neg (not_not_intro hi)]
      exact ⟨_, _, rfl, show -eInval < 0 by decide⟩
    · rw [if_pos hi, Vol.setNode_apply, if_pos rfl, if_pos hdir]
      dsimp only
      rw [if_neg (by omega)]
      exact ⟨_, _, rfl, show -eBusy < 0 by decide⟩
  · -- a new node has one
    rw [hnew] at hnode
    cases hnode
    have hi : v.nextNode ≠ rootNode := Nat.ne_of_gt (hcnt.lt rootNode hcnt.root)
    rw [if_pos hi, Vol.addNode_apply, if_pos rfl, if_pos hdir, if_pos rfl]
    -- the first slot alone decides whether the directory is empty
    have hempty := isDirEmpty_flat hfat flat fuel {
      inodeNr := rawFirstCluster dirent
      isRoot := env.heapIsRoot v.nextNode
      direntSector := loc.1
      direntOffset := loc.2
      dirent := dirent
      hintCluster := 0
      hintOffset := 0
      referenceCnt := 1 }
    dsimp only at hempty
    cases hslot : dirSlot sb flat (env.heapIsRoot v.nextNode) (getFirstCluster sb dirent) 0 with
    | none =>
      rw [hslot] at hempty
      refine .inl ⟨.inr hslot, ?_⟩
      rw [Prog.run_bind_ok _ hempty]
      exact ⟨_, _, rfl, show -eExist < 0 by decide⟩
    | some loc' =>
      rw [hslot] at hempty
      refine .inr ⟨fun hkept => ?_, fun flat' v' replies hrun => ?_⟩
      · rcases hkept with ⟨j, hj, hnr⟩ | hnone
        · exact hall j hj hnr
        · rw [hslot] at hnone
          cases hnone
      · rw [Prog.run_bind_ok _ hempty] at hrun
        obtain ⟨flat₁, v₁, hremove, hreply⟩ := Prog.ok_of_run_bind _ hrun
        cases hreply
        have hdeleted := removeNode_flat hi hremove
        rw [Vol.addNode_apply, if_pos rfl] at hdeleted
        exact ⟨hdeleted, rfl⟩

/-- The node of an entry has the entry. -/
theorem lookupNode_dirent {dirent : FatDirEntry} {sector i : Nat} {offset : Fin 512}
    (hnode : lookupNode env sb v dirent sector offset = (v', some i)) :
    (v'.nodes i).dirent = dirent := by
  rcases lookupNode_cases env sb v dirent sector offset with
    ⟨-, hnone⟩ | ⟨-, ⟨j, -, -, hsome⟩ | ⟨-, hnew⟩⟩
  · rw [hnone] at hnode
    cases hnode
  · rw [hsome] at hnode
    cases hnode
    rw [Vol.setNode_apply, if_pos rfl]
  · rw [hnew] at hnode
    cases hnode
    rw [Vol.addNode_apply, if_pos rfl]

/-- What is no directory is not removed. -/
theorem rmDirNode_file {i parent : Nat} {r : Vol × List Reply}
    (hfile : (v.nodes i).dirent.attributes &&& attrDirectory = 0)
    (hrun : (rmDirNode sb fuel v parent i).run (flatOp sb.partitionStart) flat =
      .ok (flat', r)) : flat' = flat := by
  unfold rmDirNode at hrun
  rw [if_neg (not_not_intro hfile)] at hrun
  split at hrun
  · cases hrun
    rfl
  · cases hrun
    rfl

/-- A request by a name in a directory, and what is done with the node of the name. -/
def byName (env : Env) (sb : FatSb) (fuel : Nat) (v : Vol) (n : Nat) (name : List UInt8)
    (act : Vol → Nat → Nat → Handled) : Handled :=
  match findNode v n with
  | (v, none) => replymsg v (-eInval)
  | (v, some parent) => do
    readName name
    match ← lookup env sb fuel v parent name with
    | (v, none) => replymsg v (-eNoEnt)
    | (v, some node) => act v parent node

theorem fatRmDir_eq (env : Env) (sb : FatSb) (fuel : Nat) (v : Vol) (n : Nat)
    (name : List UInt8) :
    fatRmDir env sb fuel v n name = byName env sb fuel v n name (rmDirNode sb fuel) := rfl

/-- A request that goes by a name, on the array: there is no directory; the name does not fit; the
scan has not ended; it gives no node; or the node of an entry is acted on. -/
theorem byName_flat (hfat : sb.fatCnt ≠ 0) (fuel : Nat) (flat : Nat → UInt8) (v : Vol) (n : Nat)
    (name : List UInt8) (act : Vol → Nat → Nat → Handled) :
    (findNode v n = (v, none) ∧ (byName env sb fuel v n name act).run (flatOp sb.partitionStart)
      flat = .ok (flat, v, [⟨-eInval, .none, .bytes []⟩])) ∨
    ∃ v₁ parent, findNode v n = (v₁, some parent) ∧
      ((¬ name.length + 1 ≤ 256 ∧ (byName env sb fuel v n name act).run
        (flatOp sb.partitionStart) flat = .error .wildPointer) ∨
      (name.length + 1 ≤ 256 ∧
        (((lookup env sb fuel v₁ parent name).run (flatOp sb.partitionStart) flat = .error .hang ∧
          (byName env sb fuel v n name act).run (flatOp sb.partitionStart) flat = .error .hang) ∨
        ((∀ loc, EntryIn sb flat (v.nodes parent).isRoot
            (getFirstCluster sb (v.nodes parent).dirent) name loc →
            lookupNode env sb v₁ (direntAt sb flat loc) loc.1 loc.2 = (v₁, none)) ∧
          (byName env sb fuel v n name act).run (flatOp sb.partitionStart) flat =
            .ok (flat, v₁, [⟨-eNoEnt, .none, .bytes []⟩])) ∨
        ∃ loc v₂ i, EntryIn sb flat (v.nodes parent).isRoot
            (getFirstCluster sb (v.nodes parent).dirent) name loc ∧ fuel ≠ 0 ∧
          lookupNode env sb v₁ (direntAt sb flat loc) loc.1 loc.2 = (v₂, some i) ∧
          (byName env sb fuel v n name act).run (flatOp sb.partitionStart) flat =
            (act v₂ parent i).run (flatOp sb.partitionStart) flat))) := by
  unfold byName
  rcases hfind : findNode v n with ⟨v₁, _ | parent⟩
  · rcases findNode_cases v n with ⟨hnone, -⟩ | ⟨i, -, -, hsome⟩
    · -- there is no such directory
      rw [hnone] at hfind
      cases hfind
      exact .inl ⟨rfl, rfl⟩
    · rw [hsome] at hfind
      cases hfind
  · obtain ⟨-, -, hsame⟩ := findNode_same hfind
    refine .inr ⟨v₁, parent, rfl, ?_⟩
    by_cases hname : name.length + 1 ≤ 256
    · refine .inr ⟨hname, ?_⟩
      dsimp only
      rw [Prog.run_bind_ok _ (readName_flat hname)]
      rcases lookup_flat env hfat v₁ parent name fuel with
        hhang | ⟨hall, hnone⟩ | ⟨loc, hentry, hfound⟩
      · -- the scan goes around for ever, ends without an entry, or stops at one
        exact .inl ⟨hhang, Prog.run_bind_error _ hhang _⟩
      · refine .inr (.inl ⟨fun loc hloc => ?_, ?_⟩)
        · have hall := hall loc
          rw [hsame parent] at hall
          exact absurd hloc hall
        · rw [Prog.run_bind_ok _ hnone]
          rfl
      · rw [hsame parent] at hentry
        rw [Prog.run_bind_ok _ hfound]
        rcases hnode : lookupNode env sb v₁ (direntAt sb flat loc) loc.1 loc.2 with ⟨v₂, _ | i⟩
        · -- the entry is that of a file without clusters
          rcases lookupNode_cases env sb v₁ (direntAt sb flat loc) loc.1 loc.2 with
            ⟨-, hsame'⟩ | ⟨-, ⟨i, -, -, hsome⟩ | ⟨-, hnew⟩⟩
          · rw [hsame'] at hnode
            cases hnode
            refine .inr (.inl ⟨fun loc' hloc' => ?_, rfl⟩)
            rw [← hentry.unique hloc']
            exact hsame'
          · rw [hsome] at hnode
            cases hnode
          · rw [hnew] at hnode
            cases hnode
        · -- a node has been found or made
          refine .inr (.inr ⟨loc, v₂, i, hentry, fun hzero => ?_, hnode, rfl⟩)
          rw [hzero] at hfound
          cases hfound
    · -- the name is longer than the buffer for it
      refine .inl ⟨hname, ?_⟩
      unfold readName
      rw [if_neg hname]
      rfl

/-- A request by a name that has ended has done nothing, or what its action does. -/
theorem byName_done (hfat : sb.fatCnt ≠ 0) {n : Nat} {name : List UInt8}
    {act : Vol → Nat → Nat → Handled} {r : Vol × List Reply}
    (hrun : (byName env sb fuel v n name act).run (flatOp sb.partitionStart) flat =
      .ok (flat', r)) :
    (flat' = flat ∧ ∀ v₁ parent loc, findNode v n = (v₁, some parent) → EntryIn sb flat
      (v.nodes parent).isRoot (getFirstCluster sb (v.nodes parent).dirent) name loc →
        lookupNode env sb v₁ (direntAt sb flat loc) loc.1 loc.2 = (v₁, none)) ∨
    ∃ v₁ parent loc v₂ i, findNode v n = (v₁, some parent) ∧
      EntryIn sb flat (v.nodes parent).isRoot (getFirstCluster sb (v.nodes parent).dirent) name loc ∧
      name.length + 1 ≤ 256 ∧ fuel ≠ 0 ∧
      lookupNode env sb v₁ (direntAt sb flat loc) loc.1 loc.2 = (v₂, some i) ∧
      (act v₂ parent i).run (flatOp sb.partitionStart) flat = .ok (flat', r) := by
  rcases byName_flat hfat fuel flat v n name act with
    ⟨hfind, hok⟩ | ⟨v₁, parent, hfind, ⟨-, herr⟩ | ⟨hname, ⟨-, herr⟩ | ⟨hnone, hok⟩ |
      ⟨loc, v₂, i, hentry, hfuel, hnode, hact⟩⟩⟩
  · rw [hok] at hrun
    cases hrun
    refine .inl ⟨rfl, fun v₁ parent loc hsome => ?_⟩
    rw [hfind] at hsome
    cases hsome
  · rw [herr] at hrun
    cases hrun
  · rw [herr] at hrun
    cases hrun
  · rw [hok] at hrun
    cases hrun
    refine .inl ⟨rfl, fun v₂ parent' loc hsome => ?_⟩
    rw [hfind] at hsome
    cases hsome
    exact hnone loc
  · rw [hact] at hrun
    exact .inr ⟨v₁, parent, loc, v₂, i, hfind, hentry, hname, hfuel, hnode, hrun⟩

/-- `fatRmDir` on the array: the request names nothing that gets a node, or `rmDirNode` has
its node. -/
theorem fatRmDir_flat (hfat : sb.fatCnt ≠ 0) {n : Nat} {name : List UInt8}
    {r : Vol × List Reply}
    (hrun : (fatRmDir env sb fuel v n name).run (flatOp sb.partitionStart) flat =
      .ok (flat', r)) :
    (flat' = flat ∧ ∀ v₁ parent loc, findNode v n = (v₁, some parent) → EntryIn sb flat
      (v.nodes parent).isRoot (getFirstCluster sb (v.nodes parent).dirent) name loc →
        lookupNode env sb v₁ (direntAt sb flat loc) loc.1 loc.2 = (v₁, none)) ∨
    ∃ v₁ parent loc, findNode v n = (v₁, some parent) ∧
      EntryIn sb flat (v.nodes parent).isRoot (getFirstCluster sb (v.nodes parent).dirent) name loc ∧
      name.length + 1 ≤ 256 ∧
      ∃ k v₂ i, lookupNode env sb v₁ (direntAt sb flat loc) loc.1 loc.2 = (v₂, some i) ∧
        (rmDirNode sb (k + 1) v₂ parent i).run (flatOp sb.partitionStart) flat =
          .ok (flat', r) := by
  rw [fatRmDir_eq] at hrun
  rcases byName_done hfat hrun with
    hleft | ⟨v₁, parent, loc, v₂, i, hfind, hentry, hname, hfuel, hnode, hact⟩
  · exact .inl hleft
  · obtain ⟨k, rfl⟩ := Nat.exists_eq_succ_of_ne_zero hfuel
    exact .inr ⟨v₁, parent, loc, hfind, hentry, hname, k, v₂, i, hnode, hact⟩

/-- An entry with a first cluster gets a node. -/
theorem lookupNode_allocated (env : Env) (v : Vol) {dirent : FatDirEntry} (h : Allocated (getFirstCluster sb dirent))
    (sector : Nat) (offset : Fin 512) :
    ∃ v' i, lookupNode env sb v dirent sector offset = (v', some i) := by
  rcases lookupNode_cases env sb v dirent sector offset with
    ⟨hmark, -⟩ | ⟨-, ⟨i, -, -, hsome⟩ | ⟨-, hnew⟩⟩
  · obtain ⟨-, hle⟩ := h
    have hmarks : clusterAllocMax < clusterBad ∧ clusterBad < clusterEoc := by decide
    omega
  · exact ⟨_, _, hsome⟩
  · exact ⟨_, _, hnew⟩

/-- Where `lookup` finds the node, the action goes on with it. -/
theorem byName_found {n parent i : Nat} {name : List UInt8} {v₁ v₂ : Vol}
    (hfind : findNode v n = (v₁, some parent)) (hname : name.length + 1 ≤ 256)
    (hfound : (lookup env sb fuel v₁ parent name).run (flatOp sb.partitionStart) flat =
      .ok (flat, v₂, some i)) (act : Vol → Nat → Nat → Handled) :
    (byName env sb fuel v n name act).run (flatOp sb.partitionStart) flat =
      (act v₂ parent i).run (flatOp sb.partitionStart) flat := by
  unfold byName
  rw [hfind]
  dsimp only
  rw [Prog.run_bind_ok _ (readName_flat hname), Prog.run_bind_ok _ hfound]

theorem findNode_kept {n first : Nat} {v₁ : Vol} {r : Option Nat}
    (hfind : findNode v n = (v₁, r)) :
    Kept env sb flat v₁ first ↔ Kept env sb flat v first := by
  obtain ⟨hlist, hnext, hsame⟩ := findNode_same hfind
  have hnr : ∀ i, (v₁.nodes i).inodeNr = (v.nodes i).inodeNr := fun i => by rw [hsame i]
  unfold Kept
  rw [hlist, hnext]
  simp only [hnr]

end Removal

section Claim

variable {env : Env} {sb : FatSb} {flat : Nat → UInt8} {v : Vol} {c : Cache}

/-- The cluster of a directory with a live entry is one. -/
theorem HasLive.allocated {first : Nat} (h : HasLive sb flat first) : Allocated first := by
  obtain ⟨slot, loc, hslot, -⟩ := h
  by_contra hnot
  have hnth : chainNth sb flat (direntOffset slot / sb.clusterSize) first = none := by
    cases direntOffset slot / sb.clusterSize with
    | zero => exact if_neg hnot
    | succ k => exact if_neg hnot
  unfold dirSlot at hslot
  rw [if_neg (fun h => nomatch h.1), if_neg (by decide), hnth] at hslot
  cases hslot

theorem EntryIn.not_deleted {isRoot : Bool} {first : Nat} {name : List UInt8}
    {loc : Nat × Fin 512} (h : EntryIn sb flat isRoot first name loc) :
    flat (byteOf sb.partitionStart loc.1 loc.2) ≠ direntryDeleted := by
  obtain ⟨slot, hfirst⟩ := h
  have hne := match_not_deleted hfirst.named
  rwa [direntAt_byte_zero] at hne

/-- `fatRmDir` keeps every directory with a live entry, and refuses the request, exactly
when for each such directory that is its target the name fits the buffer, and a node on the
list has the directory's first cluster, or its first entry cannot be read. -/
theorem rmDirOk_iff (hfat : sb.fatCnt ≠ 0) (hc : Stands c flat) (hcnt : Counted v) (n : Nat)
    (name : List UInt8) :
    RmDirOk env sb flat c v n name ↔ ∀ loc, Target sb flat v n name loc →
      HasLive sb flat (getFirstCluster sb (direntAt sb flat loc)) →
        name.length + 1 ≤ 256 ∧
          Kept env sb flat v (getFirstCluster sb (direntAt sb flat loc)) := by
  have hsim := fun fuel => run_cache_flat sb.partitionStart (fatRmDir env sb fuel v n name) hc
  constructor
  · -- a directory that is kept has been found and refused
    intro hok loc htarget hhas
    obtain ⟨fuel, c', v', reply, hrun, -, hc'⟩ := hok.refused loc htarget hhas
    obtain ⟨flat', hflat, hc''⟩ := (hsim fuel).of_ok hrun
    obtain rfl := hc''.unique hc'
    obtain ⟨⟨v₁, parent, hfind, hentry⟩, hdir⟩ := htarget
    rcases fatRmDir_flat hfat hflat with
      ⟨-, hnone⟩ | ⟨v₁', parent', loc', hfind', hentry', hname, k, v₂, i, hnode, hremove⟩
    · obtain ⟨v₂, i, hsome⟩ := lookupNode_allocated env v₁ hhas.allocated loc.1 loc.2
      rw [hnone v₁ parent loc hfind hentry] at hsome
      cases hsome
    · rw [hfind] at hfind'
      cases hfind'
      obtain rfl := hentry.unique hentry'
      refine ⟨hname, ?_⟩
      rcases rmDirNode_flat hfat (hcnt.findNode hfind) hdir hnode parent k with
        ⟨hkept, -⟩ | ⟨-, hremoved⟩
      · exact (findNode_kept hfind).mp hkept
      · exact absurd (hremoved _ _ _ hremove).1 hentry.not_deleted
  · intro hcond
    constructor
    · -- a directory is deleted only where it is a target without live entries
      intro fuel c' v' flat' replies hrun hc' hne
      obtain ⟨flat'', hflat, hc''⟩ := (hsim fuel).of_ok hrun
      obtain rfl := hc''.unique hc'
      rcases fatRmDir_flat hfat hflat with
        ⟨heq, -⟩ | ⟨v₁, parent, loc, hfind, hentry, hname, k, v₂, i, hnode, hremove⟩
      · exact absurd heq hne
      · have hdir : (direntAt sb flat loc).attributes &&& attrDirectory ≠ 0 := by
          intro hfile
          rw [← lookupNode_dirent hnode] at hfile
          exact hne (rmDirNode_file hfile hremove)
        have htarget : Target sb flat v n name loc := ⟨⟨v₁, parent, hfind, hentry⟩, hdir⟩
        refine ⟨loc, htarget, fun hhas => ?_⟩
        rcases rmDirNode_flat hfat (hcnt.findNode hfind) hdir hnode parent k with
          ⟨-, v₃, reply, hrefuse, -⟩ | ⟨hnot, -⟩
        · rw [hrefuse] at hremove
          cases hremove
          exact hne rfl
        · exact hnot ((findNode_kept hfind).mpr (hcond loc htarget hhas).2)
    · -- a target with live entries is refused, by the number of rounds to its slot
      intro loc htarget hhas
      obtain ⟨hname, hkept⟩ := hcond loc htarget hhas
      obtain ⟨⟨v₁, parent, hfind, slot, hfirst⟩, hdir⟩ := htarget
      obtain ⟨-, -, hsame⟩ := findNode_same hfind
      obtain ⟨v₂, i, hnode⟩ := lookupNode_allocated env v₁ hhas.allocated loc.1 loc.2
      have hfound : (lookup env sb (slot + 1) v₁ parent name).run (flatOp sb.partitionStart) flat =
          .ok (flat, v₂, some i) := by
        rw [← hnode]
        refine lookup_returns hfat ?_ (Nat.lt_succ_self slot)
        rw [hsame parent]
        exact hfirst
      have hentry : EntryIn sb flat _ _ name loc := ⟨slot, hfirst⟩
      have hrun := byName_found hfind hname hfound (rmDirNode sb (slot + 1))
      rw [← fatRmDir_eq] at hrun
      rcases rmDirNode_flat hfat (hcnt.findNode hfind) hdir hnode parent slot with
        ⟨-, v₃, reply, hrefuse, hneg⟩ | ⟨hnot, -⟩
      · have hflat := hsim (slot + 1)
        rw [hrun, hrefuse] at hflat
        obtain ⟨c', hcache, hc'⟩ := hflat
        exact ⟨slot + 1, c', v₃, reply, hcache, hneg, hc'⟩
      · exact absurd ((findNode_kept hfind).mpr hkept) hnot

end Claim

/-- The nodes after a lookup of the directory whose entry stands at a place in the root. -/
def openDirVol (loc : Nat × Fin 512) : Vol :=
  (lookupNode sampleEnv sampleFat16 initVol
    (direntAt sampleFat16 (sampleFlat 'P'.toUInt8 2) loc) loc.1 loc.2).1

theorem openDirVol_counted : Counted (openDirVol (21, 0)) := by
  constructor <;> decide

/-- `rmDirOk_iff` where the directory has an entry, and a node. -/
theorem rmDirOk_iff_sample : ∃ c, createCache (sampleDev 'P'.toUInt8 2) 1 512 true 5 = some c ∧
    RmDirOk sampleEnv sampleFat16 (sampleFlat 'P'.toUInt8 2) c (openDirVol (21, 0)) 0
      (sampleName 'p'.toUInt8) := by
  have hcreate : createCache (sampleDev 'P'.toUInt8 2) 1 512 true 5 = some _ := rfl
  refine ⟨_, hcreate, (rmDirOk_iff (by decide) (createCache_stands hcreate).1 openDirVol_counted 0
    (sampleName 'p'.toUInt8)).mpr fun loc htarget _ => ⟨by decide, .inl ⟨1, by decide, ?_⟩⟩⟩
  obtain ⟨⟨v₁, parent, hfind, hentry⟩, -⟩ := htarget
  cases hfind
  rw [sampleFat16_entry (by decide) hentry]
  decide

/-- A directory in the root that has an entry of its own name. -/
theorem rmDir_not_ok : ∃ c, createCache (sampleDev 'P'.toUInt8 2) 1 512 true 5 = some c ∧
    ¬ RmDirOk sampleEnv sampleFat16 (sampleFlat 'P'.toUInt8 2) c initVol 0
      (sampleName 'p'.toUInt8) := by
  have hcreate : createCache (sampleDev 'P'.toUInt8 2) 1 512 true 5 = some _ := rfl
  refine ⟨_, hcreate, fun hok => ?_⟩
  obtain ⟨flat', v', hrun, hbyte⟩ : ∃ flat' v', (fatRmDir sampleEnv sampleFat16 5 initVol 0
      (sampleName 'p'.toUInt8)).run (flatOp 1) (sampleFlat 'P'.toUInt8 2) =
        .ok (flat', v', [⟨-eInval, .none, .bytes []⟩]) ∧ flat' 11264 = direntryDeleted :=
    ⟨_, _, rfl, rfl⟩
  have hsim := run_cache_flat 1 (fatRmDir sampleEnv sampleFat16 5 initVol 0
    (sampleName 'p'.toUInt8)) (show Stands _ (sampleFlat 'P'.toUInt8 2) from
      (createCache_stands hcreate).1)
  rw [hrun] at hsim
  obtain ⟨c', hcache, hc'⟩ := hsim
  obtain ⟨loc, ⟨⟨v₁, parent, hfind, hentry⟩, -⟩, hnone⟩ :=
    hok.only_empty 5 c' v' flat' _ hcache hc' fun heq => by
      rw [heq] at hbyte
      exact absurd hbyte (by decide)
  cases hfind
  have hfirst : getFirstCluster sampleFat16
      (direntAt sampleFat16 (sampleFlat 'P'.toUInt8 2) (21, 0)) = 2 := by decide
  rw [sampleFat16_entry (by decide) hentry, hfirst] at hnone
  have hslot : dirSlot sampleFat16 (sampleFlat 'P'.toUInt8 2) false 2 0 = some (22, 0) := by
    decide
  exact hnone ⟨0, (22, 0), hslot, by decide⟩

end Cheviot.Fatfs
