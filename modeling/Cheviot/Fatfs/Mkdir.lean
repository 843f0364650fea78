import Cheviot.Fatfs.Append
import Cheviot.Fatfs.RootDir

/-!
# What a request for a directory leaves behind

`fatMkDir` puts an entry without a first cluster into the parent. `alloc_node` has no node
for such an entry, so that it is deleted again, and the reply has status 0 all the same.
This file shows that no name is in the parent behind the request that was not there before.

The entry takes the place of a dead one, in the area of the root or in a cluster of the
chain, or it is the first of a cluster that `AppendCluster` has put behind the chain and
`ClearCluster` has cleared. In each case a slot of the parent has the entry it had, or a dead
one (`NothingNew`): an entry is 32 bytes at a multiple of 32, so that a write of one leaves
the others alone (`direntAt_write`), and a deleted one is dead. A name that is found through
such slots was found before (`NothingNew.entryIn`).

* `DirInOrder` — the directories for which this is shown.
* `createInChain_flat` — where an entry goes in a chain.
* `mkDir_nothing` — the reply has status 0, and there is nothing new.
-/

namespace Cheviot.Fatfs

open Cheviot.Bytes

/-! ## Entries at their places -/

section Places

variable {sb : FatSb} {flat flat' : Nat → UInt8} {isRoot : Bool} {first slot : Nat}
  {name : List UInt8}

/-- An entry is at a multiple of its size. -/
theorem dirSlot_aligned {loc : Nat × Fin 512}
    (h : dirSlot sb flat isRoot first slot = some loc) : (loc.2 : Nat) % 32 = 0 := by
  have hoff : (sectorOffset (direntOffset slot) : Nat) % 32 = 0 := by
    show slot * 32 % 2 ^ 32 % 512 % 32 = 0
    omega
  unfold dirSlot at h
  split at h
  · split at h
    · cases h
      exact hoff
    · cases h
  · obtain ⟨cluster, -, hloc⟩ := Option.map_eq_some_iff.mp h
    rw [← hloc]
    exact hoff

/-- The bytes of an entry do not come around the end of the device. -/
theorem byteOf_aligned {loc : Nat × Fin 512} (h : (loc.2 : Nat) % 32 = 0) :
    byteOf sb.partitionStart loc.1 loc.2 % 32 = 0 ∧
      byteOf sb.partitionStart loc.1 loc.2 + 32 ≤ 2 ^ 41 := by
  have hlt := byteOf_lt sb.partitionStart loc.1 loc.2
  have hmod : byteOf sb.partitionStart loc.1 loc.2 % 32 = 0 := by
    unfold byteOf
    omega
  exact ⟨hmod, by omega⟩

theorem direntAt_slice (flat : Nat → UInt8) {loc : Nat × Fin 512} (h : (loc.2 : Nat) % 32 = 0) :
    direntAt sb flat loc = .ofBytes (slice flat (byteOf sb.partitionStart loc.1 loc.2) 32) := by
  obtain ⟨-, hle⟩ := @byteOf_aligned sb loc h
  unfold direntAt fatDirentrySz
  rw [ringSlice_eq flat hle]

/-- The entries after one has been written. -/
theorem direntAt_write (flat : Nat → UInt8) {loc other : Nat × Fin 512}
    (h : (loc.2 : Nat) % 32 = 0) (hother : (other.2 : Nat) % 32 = 0) (dirent : FatDirEntry) :
    direntAt sb (ringPatch flat (byteOf sb.partitionStart loc.1 loc.2) dirent.bytes) other =
      if byteOf sb.partitionStart other.1 other.2 = byteOf sb.partitionStart loc.1 loc.2 then dirent
      else direntAt sb flat other := by
  obtain ⟨hmod, hle⟩ := @byteOf_aligned sb loc h
  obtain ⟨hmod', -⟩ := @byteOf_aligned sb other hother
  rw [direntAt_slice _ hother, direntAt_slice flat hother,
    ringPatch_eq flat (by rw [dirent.length_eq]; exact hle)]
  generalize byteOf sb.partitionStart loc.1 loc.2 = b at hmod hle ⊢
  generalize byteOf sb.partitionStart other.1 other.2 = b' at hmod' ⊢
  by_cases heq : b' = b
  · subst heq
    rw [if_pos rfl]
    refine FatDirEntry.ofBytes_eq _ fun k hk => ?_
    rw [List.getD_eq_getElem _ _ (by rw [slice_length]; exact hk), getElem_slice, patch,
      if_pos (by rw [dirent.length_eq]; omega), Nat.add_sub_cancel_left]
    rfl
  · -- two multiples of 32 are 32 bytes apart
    rw [if_neg heq]
    congr 1
    refine List.map_congr_left fun k hk => ?_
    have hk : k < 32 := List.mem_range.mp hk
    rw [patch, dirent.length_eq, if_neg (by omega)]

/-- An entry that is put somewhere and deleted again: each entry is the one that was there,
or dead, and nothing but its own bytes has been written. -/
theorem deleteDirEntry_flat (flat : Nat → UInt8) {loc : Nat × Fin 512}
    (h : (loc.2 : Nat) % 32 = 0) (dirent : FatDirEntry) :
    ∃ flat', (fatDeleteDirEntry loc.1 loc.2).run (flatOp sb.partitionStart)
        (ringPatch flat (byteOf sb.partitionStart loc.1 loc.2) dirent.bytes) = .ok (flat', ()) ∧
      (∀ other : Nat × Fin 512, (other.2 : Nat) % 32 = 0 →
        Dead (direntAt sb flat' other) ∨ direntAt sb flat' other = direntAt sb flat other) ∧
      ∀ a, a < byteOf sb.partitionStart loc.1 loc.2 ∨
        byteOf sb.partitionStart loc.1 loc.2 + 32 ≤ a → flat' a = flat a := by
  obtain ⟨flat₁, hflat₁⟩ : ∃ f, f =
    ringPatch flat (byteOf sb.partitionStart loc.1 loc.2) dirent.bytes := ⟨_, rfl⟩
  have hread := @readDirent_flat sb flat₁ loc.1 loc.2
  have hwrite : (FatM.writeSector ((direntAt sb flat₁ loc).setBytes 0
      [direntryDeleted]).toChunk loc.1 loc.2).run (flatOp sb.partitionStart) flat₁ =
      .ok (ringPatch flat₁ (byteOf sb.partitionStart loc.1 loc.2)
        ((direntAt sb flat₁ loc).setBytes 0 [direntryDeleted]).bytes, ()) := rfl
  rw [← hflat₁]
  unfold fatDeleteDirEntry
  rw [Prog.run_bind_ok _ hread]
  refine ⟨_, hwrite, fun other hother => ?_, fun a ha => ?_⟩
  · -- the second write covers what the first one has written
    rw [direntAt_write flat₁ h hother]
    split
    · exact .inl (dead_deleted _)
    next hne =>
      rw [hflat₁, direntAt_write flat h hother, if_neg hne]
      exact .inr rfl
  · obtain ⟨-, hle⟩ := @byteOf_aligned sb loc h
    have hlen := fun d : FatDirEntry => d.length_eq
    rw [ringPatch_eq flat₁ (by rw [hlen]; exact hle), patch, hlen, if_neg (by omega), hflat₁,
      ringPatch_eq flat (by rw [hlen]; exact hle), patch, hlen, if_neg (by omega)]

end Places

/-! ## Nothing new -/

section Names

variable (sb : FatSb) (flat flat' : Nat → UInt8) (isRoot : Bool) (first : Nat)

/-- A slot of the directory has the entry it had, or a dead one. -/
def NothingNew : Prop := ∀ slot loc, dirSlot sb flat' isRoot first slot = some loc →
  Dead (direntAt sb flat' loc) ∨
    (dirSlot sb flat isRoot first slot = some loc ∧ direntAt sb flat' loc = direntAt sb flat loc)

variable {sb} {flat} {flat'} {isRoot} {first} {slot : Nat} {loc : Nat × Fin 512}
  {name : List UInt8}

/-- A chain that has a cluster has one in front of it. -/
theorem chainNth_before {n m c cluster : Nat} (h : chainNth sb flat n cluster = some c)
    (hle : m ≤ n) : ∃ d, chainNth sb flat m cluster = some d := by
  induction m generalizing n cluster with
  | zero =>
    have halloc : Allocated cluster := by
      by_contra hnot
      cases n with
      | zero => rw [chainNth, if_neg hnot] at h; cases h
      | succ n => rw [chainNth, if_neg hnot] at h; cases h
    exact ⟨cluster, if_pos halloc⟩
  | succ m ih =>
    obtain ⟨n, rfl⟩ : ∃ k, n = k + 1 := ⟨n - 1, by omega⟩
    rw [chainNth] at h ⊢
    split at h
    next halloc =>
      rw [if_pos halloc]
      exact ih h (Nat.le_of_succ_le_succ hle)
    · cases h

/-- An entry is in a slot that a scan comes to: offsets have 32 bits, so that it is in one of
the first 2 ^ 27. -/
theorem dirSlot_reached (h : dirSlot sb flat isRoot first slot = some loc) :
    ∃ k, dirSlot sb flat isRoot first k = some loc ∧
      ∀ j, j < k → ∃ loc', dirSlot sb flat isRoot first j = some loc' := by
  by_cases harea : isRoot = true ∧ sb.fatType ≠ .fat32
  · unfold dirSlot at h ⊢
    rw [if_pos harea] at h
    refine ⟨slot, (if_pos harea).trans h, fun j hj => ?_⟩
    by_cases hlt : slot < sb.rootEntriesCnt
    · rw [if_pos harea, if_pos (Nat.lt_trans hj hlt)]
      exact ⟨_, rfl⟩
    · rw [if_neg hlt] at h
      cases h
  · have hwrap : direntOffset (slot % 2 ^ 27) = direntOffset slot := by
      show slot % 2 ^ 27 * 32 % 2 ^ 32 = slot * 32 % 2 ^ 32
      omega
    refine ⟨slot % 2 ^ 27, ?_, fun j hj => ?_⟩
    · unfold dirSlot at h ⊢
      rw [if_neg harea] at h ⊢
      rw [hwrap]
      exact h
    · unfold dirSlot at h ⊢
      rw [if_neg harea] at h ⊢
      obtain ⟨c, hc, -⟩ := Option.map_eq_some_iff.mp h
      have hmono : direntOffset j / sb.clusterSize ≤ direntOffset slot / sb.clusterSize := by
        apply Nat.div_le_div_right
        show j * 32 % 2 ^ 32 ≤ slot * 32 % 2 ^ 32
        omega
      obtain ⟨d, hd⟩ := chainNth_before hc hmono
      rw [hd]
      exact ⟨_, rfl⟩

/-- A name that is in some slot is found. -/
theorem entryIn_of_named (h : dirSlot sb flat isRoot first slot = some loc)
    (hnamed : fatCmpDirent (direntAt sb flat loc) name = true) :
    ∃ loc', EntryIn sb flat isRoot first name loc' := by
  obtain ⟨k, hk, hbefore⟩ := dirSlot_reached h
  have hex : ∃ j loc', dirSlot sb flat isRoot first j = some loc' ∧
      fatCmpDirent (direntAt sb flat loc') name = true := ⟨k, loc, hk, hnamed⟩
  classical
  obtain ⟨loc', hslot', hnamed'⟩ := Nat.find_spec hex
  refine ⟨loc', Nat.find hex, hslot', hnamed', fun j hj => ?_⟩
  have hle : Nat.find hex ≤ k := Nat.find_min' hex ⟨loc, hk, hnamed⟩
  obtain ⟨other, hother⟩ := hbefore j (Nat.lt_of_lt_of_le hj hle)
  refine ⟨other, hother, ?_⟩
  by_contra hyes
  exact Nat.find_min hex hj ⟨other, hother, Bool.eq_true_of_not_eq_false hyes⟩

/-- A name that is found where nothing is new was found before. -/
theorem NothingNew.entryIn (h : NothingNew sb flat flat' isRoot first)
    (hentry : EntryIn sb flat' isRoot first name loc) :
    ∃ loc', EntryIn sb flat isRoot first name loc' := by
  obtain ⟨slot, hfirst⟩ := hentry
  rcases h slot loc hfirst.slot_eq with hdead | ⟨hslot, hsame⟩
  · exact absurd hfirst.named (by rw [hdead.unnamed]; exact Bool.false_ne_true)
  · exact entryIn_of_named hslot (hsame ▸ hfirst.named)

/-- A directory that keeps its slots, where each entry is the one it was, or dead. -/
theorem NothingNew.of_slots
    (hslots : ∀ slot, dirSlot sb flat' isRoot first slot = dirSlot sb flat isRoot first slot)
    (h : ∀ loc : Nat × Fin 512, (loc.2 : Nat) % 32 = 0 →
      Dead (direntAt sb flat' loc) ∨ direntAt sb flat' loc = direntAt sb flat loc) :
    NothingNew sb flat flat' isRoot first := by
  intro slot loc hslot
  rcases h loc (dirSlot_aligned hslot) with hdead | hsame
  · exact .inl hdead
  · exact .inr ⟨hslots slot ▸ hslot, hsame⟩

end Names

/-! ## Where an entry goes -/

section Create

variable {sb : FatSb} {flat flat' : Nat → UInt8}

/-- A slot with an entry that is in use. -/
def TakenSlot (sb : FatSb) (flat : Nat → UInt8) (isRoot : Bool) (first slot : Nat) : Prop :=
  ∃ loc, dirSlot sb flat isRoot first slot = some loc ∧ ¬ Dead (direntAt sb flat loc)

/-- `FatCreateDirEntry` scans a chain for the first slot that is not taken, if it does not go
around for ever: the entry goes there, or the chain ends. -/
theorem createInChain_flat (hfat : sb.fatCnt ≠ 0) {node : FatNode}
    (hchain : ¬ (node.isRoot = true ∧ sb.fatType ≠ .fat32)) (dirent : FatDirEntry) (fuel : Nat) :
    ∀ offset,
    ((createInChain sb node dirent fuel offset).run (flatOp sb.partitionStart) flat =
        .error .hang ∧
      ∀ j, offset ≤ j → j < offset + fuel →
        TakenSlot sb flat node.isRoot (getFirstCluster sb node.dirent) j) ∨
    ∃ slot, offset ≤ slot ∧ slot < offset + fuel ∧ (∀ j, offset ≤ j → j < slot →
        TakenSlot sb flat node.isRoot (getFirstCluster sb node.dirent) j) ∧
      ((dirSlot sb flat node.isRoot (getFirstCluster sb node.dirent) slot = none ∧
        (createInChain sb node dirent fuel offset).run (flatOp sb.partitionStart) flat =
          .ok (flat, none)) ∨
      ∃ loc, dirSlot sb flat node.isRoot (getFirstCluster sb node.dirent) slot = some loc ∧
        Dead (direntAt sb flat loc) ∧
        (createInChain sb node dirent fuel offset).run (flatOp sb.partitionStart) flat =
          .ok (ringPatch flat (byteOf sb.partitionStart loc.1 loc.2) dirent.bytes, some loc)) := by
  induction fuel with
  | zero => exact fun offset => .inl ⟨rfl, fun j hle hlt => absurd hlt (Nat.not_lt.mpr hle)⟩
  | succ fuel ih =>
    intro offset
    -- a slot of the chain is in the cluster that FindCluster finds
    have hfind := @findCluster_flat sb flat hfat node (direntOffset offset)
    have hslot : dirSlot sb flat node.isRoot (getFirstCluster sb node.dirent) offset =
        (chainNth sb flat (direntOffset offset / sb.clusterSize) (if node.isRoot then
          sb.rootCluster else getFirstCluster sb node.dirent)).map fun cluster =>
            (sectorInCluster sb cluster (direntOffset offset),
              sectorOffset (direntOffset offset)) := if_neg hchain
    have hnone : ∀ j, offset ≤ j → j < offset →
        TakenSlot sb flat node.isRoot (getFirstCluster sb node.dirent) j :=
      fun j hle hlt => absurd hlt (Nat.not_lt.mpr hle)
    rw [createInChain, Prog.run_bind_ok _ hfind]
    revert hslot
    cases chainNth sb flat (direntOffset offset / sb.clusterSize) (if node.isRoot then
      sb.rootCluster else getFirstCluster sb node.dirent) with
    | none =>
      intro hslot
      -- the chain ends
      exact .inr ⟨offset, Nat.le_refl _, by omega, hnone, .inl ⟨hslot, rfl⟩⟩
    | some cluster =>
      intro hslot
      obtain ⟨loc, hloc⟩ : ∃ loc, loc = (sectorInCluster sb cluster (direntOffset offset),
        sectorOffset (direntOffset offset)) := ⟨_, rfl⟩
      have hslot : dirSlot sb flat node.isRoot (getFirstCluster sb node.dirent) offset = some loc :=
        hslot.trans (congrArg some hloc.symm)
      have hread : (readDirent (sectorInCluster sb cluster (direntOffset offset))
          (sectorOffset (direntOffset offset))).run (flatOp sb.partitionStart) flat =
          .ok (flat, direntAt sb flat loc) := by
        rw [hloc]
        exact readDirent_flat ..
      dsimp only
      rw [Prog.run_bind_ok _ hread]
      by_cases hdead : Dead (direntAt sb flat loc)
      · -- the entry goes into a dead slot
        rw [if_pos (show _ ∨ _ from hdead)]
        refine .inr ⟨offset, Nat.le_refl _, by omega, hnone, .inr ⟨loc, hslot, hdead, ?_⟩⟩
        rw [hloc]
        rfl
      · -- the scan goes on behind a slot that is taken
        have htaken : TakenSlot sb flat node.isRoot (getFirstCluster sb node.dirent) offset :=
          ⟨loc, hslot, hdead⟩
        rw [if_neg (show ¬ (_ ∨ _) from hdead)]
        have hext : ∀ {k}, (∀ j, offset + 1 ≤ j → j < k →
            TakenSlot sb flat node.isRoot (getFirstCluster sb node.dirent) j) →
            ∀ j, offset ≤ j → j < k →
              TakenSlot sb flat node.isRoot (getFirstCluster sb node.dirent) j := by
          intro k hall j hle hlt
          rcases Nat.eq_or_lt_of_le hle with rfl | hgt
          · exact htaken
          · exact hall j hgt hlt
        rcases ih (offset + 1) with ⟨hrun, hall⟩ | ⟨slot, hle, hlt, hall, hstop⟩
        · refine .inl ⟨hrun, hext fun j hle hlt => hall j hle (by omega)⟩
        · exact .inr ⟨slot, by omega, by omega, hext hall, hstop⟩

/-- Enough fuel takes the scan to the first slot that is not taken. -/
theorem createInChain_stops (hfat : sb.fatCnt ≠ 0) {node : FatNode}
    (hchain : ¬ (node.isRoot = true ∧ sb.fatType ≠ .fat32)) (dirent : FatDirEntry)
    {fuel slot : Nat} (hlt : slot < fuel)
    (htaken : ∀ j, j < slot → TakenSlot sb flat node.isRoot (getFirstCluster sb node.dirent) j) :
    (dirSlot sb flat node.isRoot (getFirstCluster sb node.dirent) slot = none →
      (createInChain sb node dirent fuel 0).run (flatOp sb.partitionStart) flat =
        .ok (flat, none)) ∧
    ∀ loc, dirSlot sb flat node.isRoot (getFirstCluster sb node.dirent) slot = some loc →
      Dead (direntAt sb flat loc) →
      (createInChain sb node dirent fuel 0).run (flatOp sb.partitionStart) flat =
        .ok (ringPatch flat (byteOf sb.partitionStart loc.1 loc.2) dirent.bytes, some loc) := by
  have hnot : ∀ j, (dirSlot sb flat node.isRoot (getFirstCluster sb node.dirent) j = none ∨
      ∃ loc, dirSlot sb flat node.isRoot (getFirstCluster sb node.dirent) j = some loc ∧
        Dead (direntAt sb flat loc)) →
      ¬ TakenSlot sb flat node.isRoot (getFirstCluster sb node.dirent) j := by
    intro j hj htaken
    obtain ⟨loc, hloc, hlive⟩ := htaken
    rcases hj with hnone | ⟨loc', hloc', hdead⟩
    · rw [hnone] at hloc
      cases hloc
    · rw [hloc] at hloc'
      cases hloc'
      exact hlive hdead
  -- the scan stops where it stops with any fuel
  have hstops : ∀ j, ¬ TakenSlot sb flat node.isRoot (getFirstCluster sb node.dirent) j →
      (∀ i, i < j → TakenSlot sb flat node.isRoot (getFirstCluster sb node.dirent) i) →
      ¬ TakenSlot sb flat node.isRoot (getFirstCluster sb node.dirent) slot → j = slot := by
    intro j hj hall hslot
    rcases Nat.lt_trichotomy j slot with hlt | heq | hgt
    · exact absurd (htaken j hlt) hj
    · exact heq
    · exact absurd (hall slot hgt) hslot
  rcases @createInChain_flat sb flat hfat node hchain dirent fuel 0 with
    ⟨-, hall⟩ | ⟨j, -, -, hall, hstop⟩
  · have hslot := hall slot (Nat.zero_le _) (by omega)
    exact ⟨fun hnone => absurd hslot (hnot slot (.inl hnone)),
      fun loc hloc hdead => absurd hslot (hnot slot (.inr ⟨loc, hloc, hdead⟩))⟩
  · have hall := fun i hi => hall i (Nat.zero_le _) hi
    rcases hstop with ⟨hnone, hrun⟩ | ⟨loc, hloc, hdead, hrun⟩
    · have heq := hstops j (hnot j (.inl hnone)) hall
      refine ⟨fun _ => hrun, fun loc hloc hdead => ?_⟩
      rw [← heq (hnot slot (.inr ⟨loc, hloc, hdead⟩)), hnone] at hloc
      cases hloc
    · have heq := hstops j (hnot j (.inr ⟨loc, hloc, hdead⟩)) hall
      refine ⟨fun hnone => ?_, fun loc' hloc' hdead' => ?_⟩
      · rw [← heq (hnot slot (.inl hnone)), hloc] at hnone
        cases hnone
      · rw [← heq (hnot slot (.inr ⟨loc', hloc', hdead'⟩)), hloc] at hloc'
        cases hloc'
        exact hrun

/-- A directory whose entries are in a chain. -/
def ChainDir (sb : FatSb) (v : Vol) (dir : Nat) : Prop :=
  ¬ (dir = rootNode ∧ sb.fatType ≠ .fat32) ∧ ¬ ((v.nodes dir).isRoot = true ∧ sb.fatType ≠ .fat32)

/-- Where the chain has a dead entry, the new one takes the place of such an entry. -/
theorem fatCreateDirEntry_room (hfat : sb.fatCnt ≠ 0) {v : Vol} {dir slot : Nat}
    {loc : Nat × Fin 512} (hdir : ChainDir sb v dir)
    (hloc : dirSlot sb flat (v.nodes dir).isRoot (getFirstCluster sb (v.nodes dir).dirent) slot =
      some loc) (hdead : Dead (direntAt sb flat loc)) (dirent : FatDirEntry) :
    ∃ fuel slot' loc', dirSlot sb flat (v.nodes dir).isRoot
        (getFirstCluster sb (v.nodes dir).dirent) slot' = some loc' ∧
      (fatCreateDirEntry sb fuel v dir dirent).run (flatOp sb.partitionStart) flat =
        .ok (ringPatch flat (byteOf sb.partitionStart loc'.1 loc'.2) dirent.bytes, v,
          some loc') := by
  obtain ⟨k, hk, hbefore⟩ := dirSlot_reached hloc
  rcases @createInChain_flat sb flat hfat (v.nodes dir) hdir.2 dirent (k + 1) 0 with
    ⟨-, hall⟩ | ⟨j, -, hj, -, ⟨hnone, -⟩ | ⟨loc', hloc', -, hrun⟩⟩
  · obtain ⟨loc', hloc', hlive⟩ := hall k (Nat.zero_le _) (by omega)
    rw [hk] at hloc'
    cases hloc'
    exact absurd hdead hlive
  · -- there is a slot wherever the scan comes
    obtain ⟨loc', hloc'⟩ : ∃ loc', dirSlot sb flat (v.nodes dir).isRoot
        (getFirstCluster sb (v.nodes dir).dirent) j = some loc' := by
      rcases Nat.eq_or_lt_of_le (show j ≤ k by omega) with rfl | hlt
      · exact ⟨loc, hk⟩
      · exact hbefore j hlt
    rw [hnone] at hloc'
    cases hloc'
  · refine ⟨k + 1, j, loc', hloc', ?_⟩
    unfold fatCreateDirEntry
    rw [if_neg hdir.1, Prog.run_bind_ok _ hrun]
    rfl

/-- The sectors of a cluster are behind one another. -/
theorem byteOf_sector (hl : DataLayout sb) {cluster k : Nat} (h : InData sb cluster)
    (hk : k < sb.sectorsPerCluster) :
    byteOf sb.partitionStart (clusterToSector sb cluster + k) (sectorOffset 0) =
      clusterStart sb cluster + 512 * k := by
  have hin : 512 * k < sb.clusterSize := by
    unfold FatSb.clusterSize
    omega
  have hbyte := byteOf_cluster hl h (512 * k)
  rw [Nat.mod_eq_of_lt hin] at hbyte
  rw [← hbyte, sectorInCluster, Nat.mod_eq_of_lt hin]
  unfold byteOf blockOf sectorOffset
  dsimp only
  omega

/-- The loop of `ClearCluster` fills the sectors of a cluster from `k` on with zeros. -/
theorem clearSectors_flat (hl : DataLayout sb) {cluster : Nat} (h : InData sb cluster) (n : Nat) :
    ∀ k flat, k + n = sb.sectorsPerCluster → ∃ flat',
      (clearSectors (clusterToSector sb cluster + k) n).run (flatOp sb.partitionStart) flat =
        .ok (flat', ()) ∧
      ∀ a, flat' a = if clusterStart sb cluster + 512 * k ≤ a ∧
        a < clusterStart sb cluster + sb.clusterSize then 0 else flat a := by
  have hbytes := h.bytes hl
  induction n with
  | zero =>
    intro k flat hk
    refine ⟨flat, rfl, fun a => (if_neg ?_).symm⟩
    unfold FatSb.clusterSize
    omega
  | succ n ih =>
    intro k flat hk
    have hsize : 512 * k + 512 ≤ sb.clusterSize := by
      unfold FatSb.clusterSize
      omega
    -- the sector of zeros is only used through its bytes
    obtain ⟨zeros, hzeros⟩ : ∃ z, z = Chunk.zeros := ⟨_, rfl⟩
    have hlen : zeros.bytes.length = 512 := by
      rw [hzeros, Chunk.zeros, List.length_replicate]
    have hzero : ∀ j, zeros.bytes.getD j 0 = 0 := by
      intro j
      rw [hzeros, Chunk.zeros, List.getD_eq_getElem?_getD,
        List.getElem?_getD_replicate_default_eq]
    have hwrite : (FatM.writeSector zeros (clusterToSector sb cluster + k) (sectorOffset 0)).run
        (flatOp sb.partitionStart) flat =
        .ok (patch flat (clusterStart sb cluster + 512 * k) zeros.bytes, ()) := by
      rw [FatM.writeSector, Prog.run_op, flatOp, byteOf_sector hl h (by omega),
        ringPatch_eq flat (by rw [hlen]; omega)]
    -- the sectors behind this one
    obtain ⟨flat', hrun, hflat'⟩ := ih (k + 1)
      (patch flat (clusterStart sb cluster + 512 * k) zeros.bytes) (by omega)
    rw [clearSectors, ← hzeros, Prog.run_bind_ok _ hwrite]
    refine ⟨flat', hrun, fun a => ?_⟩
    rw [hflat', patch, hlen, hzero]
    -- a byte is in one of them, in this sector or in neither
    by_cases hnext : clusterStart sb cluster + 512 * (k + 1) ≤ a ∧
        a < clusterStart sb cluster + sb.clusterSize
    · rw [if_pos hnext, if_pos (by omega)]
    · rw [if_neg hnext]
      by_cases hsector : clusterStart sb cluster + 512 * k ≤ a ∧
          a < clusterStart sb cluster + 512 * k + 512
      · rw [if_pos hsector, if_pos (by omega)]
      · rw [if_neg hsector, if_neg (by omega)]

/-- `ClearCluster` fills a cluster with zeros. -/
theorem clearCluster_flat (hl : DataLayout sb) {cluster : Nat} (h : InData sb cluster)
    (flat : Nat → UInt8) :
    ∃ flat', (clearCluster sb cluster).run (flatOp sb.partitionStart) flat = .ok (flat', ()) ∧
      ∀ a, flat' a = if clusterStart sb cluster ≤ a ∧ a < clusterStart sb cluster + sb.clusterSize
        then 0 else flat a := by
  obtain ⟨flat', hrun, hflat'⟩ :=
    clearSectors_flat hl h sb.sectorsPerCluster 0 flat (Nat.zero_add _)
  rw [Nat.add_zero] at hrun
  refine ⟨flat', hrun, fun a => ?_⟩
  rw [hflat' a, Nat.mul_zero, Nat.add_zero]

/-- Where the chain is full, the entry is the first of a new cluster, if there is one. -/
theorem fatCreateDirEntry_full (hl : DataLayout sb) (ht : sb.fatType ≠ .fat32) {v : Vol}
    {dir slot : Nat} {cs : List Nat} (hdir : ChainDir sb v dir) (h : FileState sb flat v dir cs)
    (hne : cs ≠ []) (htaken : ∀ j, j < slot →
      TakenSlot sb flat (v.nodes dir).isRoot (getFirstCluster sb (v.nodes dir).dirent) j)
    (hend : dirSlot sb flat (v.nodes dir).isRoot (getFirstCluster sb (v.nodes dir).dirent) slot =
      none) (dirent : FatDirEntry) :
    ∃ fuel, (∃ v', (fatCreateDirEntry sb fuel v dir dirent).run (flatOp sb.partitionStart) flat =
        .ok (flat, v', none)) ∨
      ∃ c flat₁ v', InData sb c ∧ c ∉ cs ∧
        IsChain sb flat₁ (chainStart sb (v.nodes dir)) (cs ++ [c]) ∧
        (∀ a, ¬ InFats sb a → flat₁ a =
          if clusterStart sb c ≤ a ∧ a < clusterStart sb c + sb.clusterSize then 0 else flat a) ∧
        (fatCreateDirEntry sb fuel v dir dirent).run (flatOp sb.partitionStart) flat =
          .ok (ringPatch flat₁ (byteOf sb.partitionStart (clusterToSector sb c) (sectorOffset 0))
            dirent.bytes, v', some (clusterToSector sb c, sectorOffset 0)) := by
  have hroot : (v.nodes dir).isRoot = false := by
    rcases Bool.eq_false_or_eq_true (v.nodes dir).isRoot with htrue | hfalse
    · exact absurd ⟨htrue, ht⟩ hdir.2
    · exact hfalse
  refine ⟨slot + 1 + cs.length, ?_⟩
  have hscan := (createInChain_stops (Nat.ne_of_gt hl.fat_cnt) hdir.2 dirent
    (show slot < slot + 1 + cs.length by omega) htaken).1 hend
  unfold fatCreateDirEntry
  rw [if_neg hdir.1, Prog.run_bind_ok _ hscan]
  dsimp only
  by_cases hfree : (freeSet sb flat).Nonempty
  · obtain ⟨c, flat₂, v₂, hrun, hwrote, hbytes⟩ := appendCluster_flat hl ht h hroot hne hfree
      (show cs.length ≤ slot + 1 + cs.length by omega)
    have hdata : InData sb c := hwrote.state.chain.inData c (List.mem_append_right _
      (List.mem_singleton_self c))
    obtain ⟨flat₃, hclear, hzeros⟩ := clearCluster_flat hl hdata flat₂
    refine .inr ⟨c, flat₃, v₂, hdata, fun hin => ?_, ?_, fun a ha => ?_, ?_⟩
    · exact List.disjoint_of_nodup_append hwrote.state.nodup hin (List.mem_singleton_self c)
    · -- the FATs are in front of what has been cleared
      have hchain := hwrote.state.chain
      rw [hwrote.nodes.chainStart] at hchain
      refine hchain.congr fun d hd => fatLink_congr hl (hchain.inData d hd).2 fun a ha => ?_
      rw [hzeros, if_neg fun hin => not_inFats_of_cluster hl hin.1 ha]
    · rw [hzeros, hbytes a ha]
    · rw [Prog.run_bind_ok _ hrun]
      dsimp only
      rw [Prog.run_bind_ok _ hclear]
      rfl
  · obtain ⟨v₂, hrun, -⟩ := appendCluster_none hl ht h hroot hne
      (Finset.not_nonempty_iff_eq_empty.mp hfree) (show cs.length ≤ slot + 1 + cs.length by omega)
    left
    rw [Prog.run_bind_ok _ hrun]
    exact ⟨v₂, rfl⟩

end Create

/-! ## The request -/

section Request

variable {sb : FatSb} {flat flat' : Nat → UInt8} {v : Vol} {dir : Nat} {cs : List Nat}

/-- A directory that is in order: the area of the root, a chain with a dead entry, or a chain
that can be extended. -/
inductive DirInOrder (sb : FatSb) (flat : Nat → UInt8) (v : Vol) (dir : Nat) : Prop
  | area : sb.fatType ≠ .fat32 → dir = rootNode → (v.nodes dir).isRoot = true →
      DirInOrder sb flat v dir
  | room (cs : List Nat) (slot : Nat) (loc : Nat × Fin 512) : ChainDir sb v dir →
      IsChain sb flat (chainStart sb (v.nodes dir)) cs →
      dirSlot sb flat (v.nodes dir).isRoot (getFirstCluster sb (v.nodes dir).dirent) slot =
        some loc → Dead (direntAt sb flat loc) → DirInOrder sb flat v dir
  | grows (cs : List Nat) : sb.fatType ≠ .fat32 → ChainDir sb v dir →
      FileState sb flat v dir cs → cs ≠ [] → DirInOrder sb flat v dir

/-- An entry that `FatCreateDirEntry` finds no place for, or that leaves nothing new once it
has been deleted. -/
def Vanishes (sb : FatSb) (flat : Nat → UInt8) (v : Vol) (dir : Nat) (dirent : FatDirEntry) :
    Prop :=
  ∃ fuel v' flat', NothingNew sb flat flat' (v.nodes dir).isRoot
      (getFirstCluster sb (v.nodes dir).dirent) ∧
    ((fatCreateDirEntry sb fuel v dir dirent).run (flatOp sb.partitionStart) flat =
        .ok (flat', v', none) ∨
      ∃ flat₁ loc, (fatCreateDirEntry sb fuel v dir dirent).run (flatOp sb.partitionStart) flat =
          .ok (flat₁, v', some loc) ∧
        (fatDeleteDirEntry loc.1 loc.2).run (flatOp sb.partitionStart) flat₁ = .ok (flat', ()))

theorem NothingNew.refl {isRoot : Bool} {first : Nat} : NothingNew sb flat flat isRoot first :=
  fun _ _ hslot => .inr ⟨hslot, rfl⟩

/-- A chain gives the slots of a directory. -/
theorem dirSlot_chain (hl : DataLayout sb) (hdir : ChainDir sb v dir)
    (h : IsChain sb flat (chainStart sb (v.nodes dir)) cs) (slot : Nat) :
    dirSlot sb flat (v.nodes dir).isRoot (getFirstCluster sb (v.nodes dir).dirent) slot =
      cs[direntOffset slot / sb.clusterSize]?.map fun cluster =>
        (sectorInCluster sb cluster (direntOffset slot), sectorOffset (direntOffset slot)) := by
  unfold dirSlot
  rw [if_neg hdir.2, ← chainStart, h.nth hl]

/-- The entry is inside the cluster. -/
theorem direntOffset_inside (hl : DataLayout sb) (slot : Nat) :
    direntOffset slot % sb.clusterSize + 32 ≤ sb.clusterSize := by
  apply piece_le hl
  show slot * 32 % 2 ^ 32 % 512 + 32 ≤ 512
  omega

theorem vanishes_room (hl : DataLayout sb) (hdir : ChainDir sb v dir)
    (h : IsChain sb flat (chainStart sb (v.nodes dir)) cs) {slot : Nat} {loc : Nat × Fin 512}
    (hloc : dirSlot sb flat (v.nodes dir).isRoot (getFirstCluster sb (v.nodes dir).dirent) slot =
      some loc) (hdead : Dead (direntAt sb flat loc)) (dirent : FatDirEntry) :
    Vanishes sb flat v dir dirent := by
  obtain ⟨fuel, slot', loc', hloc', hrun⟩ :=
    fatCreateDirEntry_room (Nat.ne_of_gt hl.fat_cnt) hdir hloc hdead dirent
  obtain ⟨flat', hdelete, hsame, hbytes⟩ := @deleteDirEntry_flat sb flat loc'
    (dirSlot_aligned hloc') dirent
  refine ⟨fuel, v, flat', .of_slots (fun j => ?_) hsame, .inr ⟨_, loc', hrun, hdelete⟩⟩
  -- the entry is in a cluster, so that the links stay
  have hchain : IsChain sb flat' (chainStart sb (v.nodes dir)) cs := by
    refine h.congr fun d hd => fatLink_congr hl (h.inData d hd).2 fun a ha => hbytes a ?_
    rw [dirSlot_chain hl hdir h] at hloc'
    obtain ⟨c, hc, rfl⟩ := Option.map_eq_some_iff.mp hloc'
    rw [byteOf_cluster hl (h.inData c (List.mem_of_getElem? hc))]
    by_contra hin
    exact @not_inFats_of_cluster sb c hl a (by omega) ha
  rw [dirSlot_chain hl hdir hchain, dirSlot_chain hl hdir h]

theorem vanishes_full (hl : DataLayout sb) (ht : sb.fatType ≠ .fat32) (hdir : ChainDir sb v dir)
    (h : FileState sb flat v dir cs) (hne : cs ≠ []) {slot : Nat} (htaken : ∀ j, j < slot →
      TakenSlot sb flat (v.nodes dir).isRoot (getFirstCluster sb (v.nodes dir).dirent) j)
    (hend : dirSlot sb flat (v.nodes dir).isRoot (getFirstCluster sb (v.nodes dir).dirent) slot =
      none) (dirent : FatDirEntry) : Vanishes sb flat v dir dirent := by
  obtain ⟨fuel, ⟨v', hrun⟩ | ⟨c, flat₁, v', hdata, hnot, hchain₁, hflat₁, hrun⟩⟩ :=
    fatCreateDirEntry_full hl ht hdir h hne htaken hend dirent
  · -- no cluster is found for the entry
    exact ⟨fuel, v', flat, .refl, .inl hrun⟩
  · -- the entry is the first one of a new cluster
    obtain ⟨flat', hdelete, hsame, hbytes⟩ := @deleteDirEntry_flat sb flat₁
      (clusterToSector sb c, sectorOffset 0) rfl dirent
    refine ⟨fuel, v', flat', fun j loc hloc => ?_, .inr ⟨_, _, hrun, hdelete⟩⟩
    have hstart : byteOf sb.partitionStart (clusterToSector sb c) (sectorOffset 0) =
        clusterStart sb c := by
      have hsector := byteOf_sector hl hdata hl.cluster_pos
      rwa [Nat.add_zero, Nat.mul_zero, Nat.add_zero] at hsector
    have hchain : IsChain sb flat' (chainStart sb (v.nodes dir)) (cs ++ [c]) := by
      refine hchain₁.congr fun d hd => fatLink_congr hl (hchain₁.inData d hd).2 fun a ha => ?_
      refine hbytes a ?_
      rw [hstart]
      by_contra hin
      exact @not_inFats_of_cluster sb c hl a (by omega) ha
    -- a slot behind the old ones is in the new cluster, and shows nothing
    have hinside := direntOffset_inside hl j
    have haligned := dirSlot_aligned hloc
    rw [dirSlot_chain hl hdir hchain] at hloc
    obtain ⟨d, hd, hplace⟩ := Option.map_eq_some_iff.mp hloc
    have hbyte := byteOf_cluster hl (hchain.inData d (List.mem_of_getElem? hd)) (direntOffset j)
    have hfst : sectorInCluster sb d (direntOffset j) = loc.1 := congrArg Prod.fst hplace
    have hsnd : sectorOffset (direntOffset j) = loc.2 := congrArg Prod.snd hplace
    rw [hfst, hsnd] at hbyte
    rcases hsame loc haligned with hdead | hkept
    · exact .inl hdead
    · by_cases hold : direntOffset j / sb.clusterSize < cs.length
      · -- the entry of a cluster that the directory had
        rw [List.getElem?_append_left hold] at hd
        have hmem := List.mem_of_getElem? hd
        refine .inr ⟨?_, hkept.trans ?_⟩
        · rw [dirSlot_chain hl hdir h.chain, hd, ← hplace]
          rfl
        · rw [direntAt_slice flat₁ haligned, direntAt_slice flat haligned]
          congr 1
          refine List.map_congr_left fun k hk => ?_
          have hk : k < 32 := List.mem_range.mp hk
          have hapart := clusterStart_apart hdata (h.chain.inData d hmem)
            (fun heq => hnot (heq ▸ hmem))
          unfold Segments.Apart at hapart
          have hbehind : clusterStart sb d ≤ byteOf sb.partitionStart loc.1 loc.2 + k := by omega
          rw [hflat₁ _ (not_inFats_of_cluster hl hbehind), if_neg (by omega)]
      · -- one of the new cluster
        obtain rfl : d = c := by
          rw [List.getElem?_append_right (Nat.not_lt.mp hold)] at hd
          exact List.mem_singleton.mp (List.mem_of_getElem? hd)
        have hbehind : clusterStart sb d ≤ byteOf sb.partitionStart loc.1 loc.2 := by omega
        refine .inl (.inl ?_)
        rw [hkept, direntAt_byte_zero, hflat₁ _ (not_inFats_of_cluster hl hbehind),
          if_pos (by omega)]
        rfl

/-- An entry vanishes in a directory that is in order, if it is put anywhere. -/
theorem DirInOrder.vanishes (hl : DataLayout sb) (h : DirInOrder sb flat v dir)
    (hchain : ChainDir sb v dir) {dirent : FatDirEntry} (hends : ∃ fuel result,
      (fatCreateDirEntry sb fuel v dir dirent).run (flatOp sb.partitionStart) flat = .ok result) :
    Vanishes sb flat v dir dirent := by
  cases h with
  | area ht hdir => exact absurd ⟨hdir, ht⟩ hchain.1
  | room cs slot loc _ hcs hloc hdead => exact vanishes_room hl hchain hcs hloc hdead dirent
  | grows cs ht _ hstate hne =>
    obtain ⟨fuel, result, hrun⟩ := hends
    unfold fatCreateDirEntry at hrun
    rw [if_neg hchain.1] at hrun
    obtain ⟨flat₁, r, hscan, -⟩ := Prog.ok_of_run_bind _ hrun
    -- the scan has stopped at a dead entry, or at the end of the chain
    rcases @createInChain_flat sb flat (Nat.ne_of_gt hl.fat_cnt) (v.nodes dir) hchain.2 dirent
      fuel 0 with ⟨herr, -⟩ | ⟨slot, -, -, htaken, ⟨hend, -⟩ | ⟨loc, hloc, hdead, -⟩⟩
    · rw [herr] at hscan
      cases hscan
    · exact vanishes_full hl ht hchain hstate hne (fun j hj => htaken j (Nat.zero_le _) hj) hend
        dirent
    · exact vanishes_room hl hchain hstate.chain hloc hdead dirent

/-- A request for a directory in a parent that is in order: if it ends, it ends with status 0
and nothing new. -/
theorem mkDir_nothing (env : Env) (hl : DataLayout sb) {v₁ : Vol} {n : Nat} {name : List UInt8}
    {dirent : FatDirEntry} (h : DirInOrder sb flat v₁ dir) (hfits : name.length + 1 ≤ 256)
    (hfind : findNode v n = (v₁, some dir))
    (hname : fatASCIIZToDirEntry env.charSigned env.stackDirent name = some dirent)
    (hends : ∃ fuel result,
      (fatMkDir env sb fuel v n name).run (flatOp sb.partitionStart) flat = .ok result) :
    ∃ fuel flat' v', (fatMkDir env sb fuel v n name).run (flatOp sb.partitionStart) flat =
        .ok (flat', v', [⟨0, .none, .bytes []⟩]) ∧
      NothingNew sb flat flat' (v.nodes dir).isRoot (getFirstCluster sb (v.nodes dir).dirent) := by
  obtain ⟨-, -, hsame⟩ := findNode_same hfind
  have hroot : (v₁.nodes dir).isRoot = (v.nodes dir).isRoot := by rw [hsame dir]
  have hfirst : (v₁.nodes dir).dirent = (v.nodes dir).dirent := by rw [hsame dir]
  rw [← hroot, ← hfirst]
  by_cases harea : sb.fatType ≠ .fat32 ∧ dir = rootNode ∧ (v₁.nodes dir).isRoot = true
  · -- the root area has a fixed number of slots
    obtain ⟨ht, hdir, hisroot⟩ := harea
    subst hdir
    obtain ⟨flat', hrun, hroot', -⟩ := mkDir_root env 0 hl ht hfits hfind hname
    refine ⟨0, flat', v₁, hrun, fun slot loc hslot => ?_⟩
    rw [hisroot, dirSlot_root ht] at hslot ⊢
    split at hslot
    next hlt =>
      cases hslot
      rcases hroot' slot hlt with heq | ⟨hdead, -⟩
      · exact .inr ⟨if_pos hlt, heq⟩
      · exact .inl hdead
    · cases hslot
  · -- a chain: the entry is made and then marked as deleted
    have hchain : ChainDir sb v₁ dir := by
      cases h with
      | area ht hdir hroot => exact absurd ⟨ht, hdir, hroot⟩ harea
      | room _ _ _ hchain => exact hchain
      | grows _ _ hchain => exact hchain
    have hcreates : ∃ fuel result, (fatCreateDirEntry sb fuel v₁ dir
        (dirDirent sb dirent clusterEoc)).run (flatOp sb.partitionStart) flat = .ok result := by
      obtain ⟨fuel, result, hrun⟩ := hends
      unfold fatMkDir at hrun
      rw [Prog.run_bind_ok _ (readName_flat hfits), hfind, hname] at hrun
      obtain ⟨flat₁, r, hcreate, -⟩ := Prog.ok_of_run_bind _ hrun
      exact ⟨fuel, _, hcreate⟩
    obtain ⟨fuel, v', flat', hnew, hnone | ⟨flat₁, loc, hsome, hdelete⟩⟩ := h.vanishes hl hchain hcreates
    · exact ⟨fuel, flat', v', (mkDir_entry env fuel hfits hfind hname hnone).1 rfl, hnew⟩
    · exact ⟨fuel, flat', v',
        (mkDir_entry env fuel hfits hfind hname hsome).2 loc flat' rfl hdelete, hnew⟩

end Request

end Cheviot.Fatfs
