import Cheviot.Fatfs.Data
import Cheviot.Fatfs.Main

/-!
# The root directory of a FAT12 or FAT16 volume

It is a row of entries between the FATs and the clusters. No chain says where they are, so
that what is read of it depends on these bytes alone. A free entry and a deleted one are the
same to whoever reads them.

* `rootEntry`, `SameRoot` — an entry, and two volumes with the same ones but for dead ones.
* `deleteSlots`, `SameRoot.delete` — a volume without some entries.
* `NamedAt`, `Unnamed` — where a name is first, if it is there.
* `lookup_root`, `lookup_root_none` — what `lookup` makes of it.
* `readDirLoop_root` — a listing depends on the entries alone.
* `mkDir_root` — a directory that is made in it is deleted at once.
-/

namespace Cheviot.Fatfs

open Cheviot.Bytes

section Places

variable {sb : FatSb} {flat flat' : Nat → UInt8} {slot : Nat}

/-- Where a slot of the root directory is. -/
def rootSlot (sb : FatSb) (slot : Nat) : Nat × Fin 512 :=
  (rootDirSector sb slot, sectorOffset (direntOffset slot))

/-- The entry in a slot of the root directory. -/
def rootEntry (sb : FatSb) (flat : Nat → UInt8) (slot : Nat) : FatDirEntry :=
  direntAt sb flat (rootSlot sb slot)

/-- The first byte of the entry. -/
def rootByte (sb : FatSb) (slot : Nat) : Nat :=
  512 * (sb.partitionStart + sb.rootDirStart) + 32 * slot

/-- An entry that is free or deleted. -/
def Dead (dirent : FatDirEntry) : Prop :=
  dirent.byte 0 = direntryFree ∨ dirent.byte 0 = direntryDeleted

/-- Two volumes with the same entries in the root directory, but for dead ones. -/
def SameRoot (sb : FatSb) (flat flat' : Nat → UInt8) : Prop :=
  ∀ slot, slot < sb.rootEntriesCnt → rootEntry sb flat' slot = rootEntry sb flat slot ∨
    (Dead (rootEntry sb flat' slot) ∧ Dead (rootEntry sb flat slot))

theorem SameRoot.refl (sb : FatSb) (flat : Nat → UInt8) : SameRoot sb flat flat :=
  fun _ _ => .inl rfl

theorem SameRoot.trans {flat'' : Nat → UInt8} (h : SameRoot sb flat flat')
    (h' : SameRoot sb flat' flat'') : SameRoot sb flat flat'' := by
  intro slot hlt
  rcases h' slot hlt with heq' | hdead'
  · rw [heq']
    exact h slot hlt
  · refine .inr ⟨hdead'.1, ?_⟩
    rcases h slot hlt with heq | hdead
    · rw [← heq]
      exact hdead'.2
    · exact hdead.2

/-- A dead entry has no name. -/
theorem Dead.unnamed {dirent : FatDirEntry} (h : Dead dirent) (name : List UInt8) :
    fatCmpDirent dirent name = false := by
  unfold fatCmpDirent
  rw [decide_eq_false_iff_not]
  intro hmatch
  rcases h with h | h
  · exact hmatch.1 h
  · exact hmatch.2.1 h

/-- A dead entry is not listed. -/
theorem Dead.unlisted {dirent : FatDirEntry} (h : Dead dirent) (env : Env) (cookie : Nat) :
    direntRecord env dirent cookie = none := by
  unfold direntRecord
  rcases h with h | h
  · rw [if_pos h]
  · rw [if_neg (by rw [h]; decide), if_neg fun hlive => hlive.1 h]

theorem SameRoot.cmp (h : SameRoot sb flat flat') (hlt : slot < sb.rootEntriesCnt)
    (name : List UInt8) :
    fatCmpDirent (rootEntry sb flat' slot) name = fatCmpDirent (rootEntry sb flat slot) name := by
  rcases h slot hlt with heq | ⟨hdead', hdead⟩
  · rw [heq]
  · rw [hdead'.unnamed, hdead.unnamed]

theorem SameRoot.record (h : SameRoot sb flat flat') (hlt : slot < sb.rootEntriesCnt) (env : Env)
    (cookie : Nat) : direntRecord env (rootEntry sb flat' slot) cookie =
      direntRecord env (rootEntry sb flat slot) cookie := by
  rcases h slot hlt with heq | ⟨hdead', hdead⟩
  · rw [heq]
  · rw [hdead'.unlisted, hdead.unlisted]

theorem rootByte_end (hlt : slot < sb.rootEntriesCnt) :
    rootByte sb slot + 32 ≤ 512 * (sb.partitionStart + sb.rootDirStart + sb.rootDirSectors) := by
  unfold rootByte FatSb.rootDirSectors
  omega

/-- The root directory is in front of the clusters. -/
theorem rootByte_lt_cluster (hlt : slot < sb.rootEntriesCnt) (cluster : Nat) :
    rootByte sb slot + 32 ≤ clusterStart sb cluster := by
  have hend := rootByte_end hlt
  unfold clusterStart
  omega

/-- The root directory is behind the FATs. -/
theorem rootByte_not_inFats (hl : DataLayout sb) {a : Nat} (ha : rootByte sb slot ≤ a) :
    ¬ InFats sb a := by
  intro hin
  obtain ⟨f, hf, hlo, hhi⟩ := hin
  have hmul : (f + 1) * sb.fatSz ≤ sb.fatCnt * sb.fatSz := Nat.mul_le_mul_right _ hf
  rw [Nat.succ_mul] at hmul
  unfold rootByte FatSb.rootDirStart at ha
  unfold fatStart at hhi
  rw [hl.behind] at ha
  omega

theorem byteOf_rootSlot (hl : DataLayout sb) (hlt : slot < sb.rootEntriesCnt) :
    byteOf sb.partitionStart (rootSlot sb slot).1 (rootSlot sb slot).2 = rootByte sb slot := by
  have hdata := hl.data
  have hend := rootByte_end hlt
  unfold rootByte at hend
  have hrow : slot * fatDirentrySz = 32 * slot := Nat.mul_comm ..
  unfold byteOf blockOf rootSlot rootDirSector sectorOffset direntOffset rootByte
  dsimp only
  rw [hrow, Nat.mod_eq_of_lt (show sb.rootDirStart + 32 * slot / 512 < 2 ^ 32 by omega),
    Nat.mod_eq_of_lt (show sb.rootDirStart + 32 * slot / 512 + sb.partitionStart < 2 ^ 32 by omega)]
  omega

/-- The entry is made of its bytes. -/
theorem rootEntry_eq (hl : DataLayout sb) (flat : Nat → UInt8) (hlt : slot < sb.rootEntriesCnt) :
    rootEntry sb flat slot = .ofBytes (slice flat (rootByte sb slot) 32) := by
  have hend := rootByte_end hlt
  have hdata := hl.data
  unfold rootEntry direntAt
  rw [byteOf_rootSlot hl hlt]
  congr 1
  refine List.map_congr_left fun k hk => ?_
  have hk : k < 32 := List.mem_range.mp hk
  rw [Nat.mod_eq_of_lt (by omega)]

/-- The bytes between the FATs and the clusters stay. -/
theorem SameRoot.of_bytes (hl : DataLayout sb)
    (h : ∀ a, ¬ InFats sb a → (∀ cluster, a < clusterStart sb cluster) → flat' a = flat a) :
    SameRoot sb flat flat' := by
  intro slot hlt
  left
  rw [rootEntry_eq hl flat' hlt, rootEntry_eq hl flat hlt]
  congr 1
  refine List.map_congr_left fun k hk => ?_
  have hk : k < 32 := List.mem_range.mp hk
  refine h _ (rootByte_not_inFats hl (Nat.le_add_right _ k)) fun cluster => ?_
  have hcluster := rootByte_lt_cluster hlt cluster
  omega

/-- The bytes of an entry are in no other one. -/
theorem rootByte_apart (sb : FatSb) {j k : Nat} (hne : j ≠ slot) (hk : k < 32) :
    ¬ (rootByte sb slot ≤ rootByte sb j + k ∧ rootByte sb j + k < rootByte sb slot + 32) := by
  unfold rootByte
  omega

theorem FatDirEntry.ofBytes_eq {l : List UInt8} (dirent : FatDirEntry)
    (h : ∀ k, k < 32 → l.getD k 0 = dirent.byte k) : ofBytes l = dirent := by
  obtain ⟨bytes, hlen⟩ := dirent
  unfold ofBytes
  congr 1
  refine List.ext_getElem (by rw [List.length_map, List.length_range, hlen]) fun k hk hk' => ?_
  rw [List.getElem_map, List.getElem_range, h k (by omega)]
  exact List.getD_eq_getElem _ _ hk'

/-- The entries after one has been written. -/
theorem rootEntry_patch (hl : DataLayout sb) (flat : Nat → UInt8) (hlt : slot < sb.rootEntriesCnt)
    (dirent : FatDirEntry) {j : Nat} (hj : j < sb.rootEntriesCnt) :
    rootEntry sb (patch flat (rootByte sb slot) dirent.bytes) j =
      if j = slot then dirent else rootEntry sb flat j := by
  rw [rootEntry_eq hl _ hj]
  by_cases hjs : j = slot
  · subst hjs
    rw [if_pos rfl]
    refine FatDirEntry.ofBytes_eq _ fun k hk => ?_
    have hget : (slice (patch flat (rootByte sb j) dirent.bytes) (rootByte sb j) 32).getD k 0 =
        patch flat (rootByte sb j) dirent.bytes (rootByte sb j + k) := by
      rw [List.getD_eq_getElem _ _ (by rw [slice_length]; exact hk), getElem_slice]
    rw [hget, patch, if_pos (by rw [dirent.length_eq]; omega), Nat.add_sub_cancel_left]
    rfl
  · rw [if_neg hjs, rootEntry_eq hl flat hj]
    congr 1
    refine List.map_congr_left fun k hk => ?_
    rw [patch, dirent.length_eq, if_neg (rootByte_apart sb hjs (List.mem_range.mp hk))]

/-- A dead entry in the place of another one. -/
theorem SameRoot.patch (hl : DataLayout sb) (flat : Nat → UInt8) (hlt : slot < sb.rootEntriesCnt)
    {dirent : FatDirEntry} (hdead : Dead dirent) (hold : Dead (rootEntry sb flat slot)) :
    SameRoot sb flat (patch flat (rootByte sb slot) dirent.bytes) := by
  intro j hj
  rw [rootEntry_patch hl flat hlt dirent hj]
  by_cases hjs : j = slot
  · subst hjs
    rw [if_pos rfl]
    exact .inr ⟨hdead, hold⟩
  · rw [if_neg hjs]
    exact .inl rfl

/-- The volume with the entries in some slots deleted. -/
def deleteSlots (sb : FatSb) (slots : List Nat) (flat : Nat → UInt8) (a : Nat) : UInt8 :=
  if ∃ slot ∈ slots, a = rootByte sb slot then direntryDeleted else flat a

theorem rootEntry_byte_zero (hl : DataLayout sb) (flat : Nat → UInt8)
    (hlt : slot < sb.rootEntriesCnt) :
    (rootEntry sb flat slot).byte 0 = flat (rootByte sb slot) := by
  rw [rootEntry_eq hl flat hlt]
  rfl

theorem dead_deleteSlots (hl : DataLayout sb) (flat : Nat → UInt8) {slots : List Nat}
    (hmem : slot ∈ slots) (hlt : slot < sb.rootEntriesCnt) :
    Dead (rootEntry sb (deleteSlots sb slots flat) slot) := by
  right
  rw [rootEntry_byte_zero hl _ hlt]
  exact if_pos ⟨slot, hmem, rfl⟩

theorem rootEntry_deleteSlots (hl : DataLayout sb) (flat : Nat → UInt8) {slots : List Nat}
    (hnot : slot ∉ slots) (hlt : slot < sb.rootEntriesCnt) :
    rootEntry sb (deleteSlots sb slots flat) slot = rootEntry sb flat slot := by
  rw [rootEntry_eq hl _ hlt, rootEntry_eq hl _ hlt]
  congr 1
  refine List.map_congr_left fun k hk => if_neg ?_
  have hk : k < 32 := List.mem_range.mp hk
  intro hex
  obtain ⟨other, hother, heq⟩ := hex
  unfold rootByte at heq
  obtain rfl : other = slot := by omega
  exact hnot hother

/-- One entry more is deleted. -/
theorem SameRoot.delete (hl : DataLayout sb) {slots : List Nat} {flat₁ : Nat → UInt8}
    (h : SameRoot sb (deleteSlots sb slots flat) flat')
    (hdead : slot < sb.rootEntriesCnt → Dead (rootEntry sb flat₁ slot))
    (hother : ∀ j, j < sb.rootEntriesCnt → j ≠ slot → rootEntry sb flat₁ j = rootEntry sb flat' j) :
    SameRoot sb (deleteSlots sb (slot :: slots) flat) flat₁ := by
  intro j hj
  by_cases hjs : j = slot
  · subst hjs
    exact .inr ⟨hdead hj, dead_deleteSlots hl flat (List.mem_cons_self ..) hj⟩
  · rw [hother j hj hjs]
    by_cases hmem : j ∈ slots
    · have hgone := dead_deleteSlots hl flat hmem hj
      refine .inr ⟨?_, dead_deleteSlots hl flat (List.mem_cons_of_mem _ hmem) hj⟩
      rcases h j hj with heq | hboth
      · rw [heq]
        exact hgone
      · exact hboth.1
    · have hkept := rootEntry_deleteSlots hl flat hmem hj
      have hkept' := rootEntry_deleteSlots hl flat
        (fun hin => (List.mem_cons.mp hin).elim hjs hmem) hj
      rw [hkept', ← hkept]
      exact h j hj

theorem dirSlot_root (ht : sb.fatType ≠ .fat32) (flat : Nat → UInt8) (first slot : Nat) :
    dirSlot sb flat true first slot =
      if slot < sb.rootEntriesCnt then some (rootSlot sb slot) else none :=
  if_pos ⟨rfl, ht⟩

end Places

/-! ## Names -/

section Names

variable (sb : FatSb) (flat : Nat → UInt8)

/-- The slot is the first with an entry of the name. -/
structure NamedAt (name : List UInt8) (slot : Nat) : Prop where
  lt : slot < sb.rootEntriesCnt
  named : fatCmpDirent (rootEntry sb flat slot) name = true
  before : ∀ j, j < slot → fatCmpDirent (rootEntry sb flat j) name = false

/-- No entry has the name. -/
def Unnamed (name : List UInt8) : Prop :=
  ∀ slot, slot < sb.rootEntriesCnt → fatCmpDirent (rootEntry sb flat slot) name = false

variable {sb} {flat} {flat' : Nat → UInt8} {name : List UInt8} {slot : Nat}

theorem NamedAt.congr (hsame : SameRoot sb flat flat') (h : NamedAt sb flat name slot) :
    NamedAt sb flat' name slot where
  lt := h.lt
  named := by
    rw [hsame.cmp h.lt]
    exact h.named
  before j hj := by
    rw [hsame.cmp (Nat.lt_trans hj h.lt)]
    exact h.before j hj

/-- The entry of a name is not dead. -/
theorem NamedAt.entry_eq (h : NamedAt sb flat name slot) (hsame : SameRoot sb flat flat') :
    rootEntry sb flat' slot = rootEntry sb flat slot := by
  rcases hsame slot h.lt with heq | ⟨-, hdead⟩
  · exact heq
  · exact absurd h.named (by rw [hdead.unnamed]; exact Bool.false_ne_true)

theorem Unnamed.congr (hsame : SameRoot sb flat flat') (h : Unnamed sb flat name) :
    Unnamed sb flat' name := by
  intro slot hlt
  rw [hsame.cmp hlt]
  exact h slot hlt

variable {env : Env} {fuel : Nat} {v : Vol} {dir : Nat}

/-- `lookup` in the root takes the first entry of the name. -/
theorem lookup_root (env : Env) (hfat : sb.fatCnt ≠ 0) (ht : sb.fatType ≠ .fat32)
    (hroot : (v.nodes dir).isRoot = true) (h : NamedAt sb flat name slot)
    (hfuel : sb.rootEntriesCnt < fuel) :
    (lookup env sb fuel v dir name).run (flatOp sb.partitionStart) flat = .ok (flat,
      lookupNode env sb v (rootEntry sb flat slot) (rootSlot sb slot).1 (rootSlot sb slot).2) := by
  have hlt := h.lt
  refine lookup_returns hfat ?_ (Nat.lt_trans hlt hfuel)
  rw [hroot]
  refine ⟨?_, h.named, fun j hj => ⟨rootSlot sb j, ?_, h.before j hj⟩⟩
  · rw [dirSlot_root ht, if_pos hlt]
  · rw [dirSlot_root ht, if_pos (Nat.lt_trans hj hlt)]

/-- `lookup` goes through all entries of the root directory where none has the name. -/
theorem lookup_root_none (env : Env) (hfat : sb.fatCnt ≠ 0) (ht : sb.fatType ≠ .fat32)
    (hroot : (v.nodes dir).isRoot = true) (h : Unnamed sb flat name)
    (hfuel : sb.rootEntriesCnt < fuel) :
    (lookup env sb fuel v dir name).run (flatOp sb.partitionStart) flat =
      .ok (flat, (v, none)) := by
  unfold lookup
  rcases lookupLoop_flat env hfat v (v.nodes dir) name fuel 0 with
    ⟨-, hpass⟩ | ⟨slot, -, -, -, ⟨-, hrun⟩ | ⟨loc, hslot, hnamed, -⟩⟩
  · -- the scan would have passed a slot that is not there
    obtain ⟨loc, hslot, -⟩ := hpass sb.rootEntriesCnt (Nat.zero_le _) (by omega)
    rw [hroot, dirSlot_root ht, if_neg (Nat.lt_irrefl _)] at hslot
    cases hslot
  · exact hrun
  · rw [hroot, dirSlot_root ht] at hslot
    by_cases hlt : slot < sb.rootEntriesCnt
    · rw [if_pos hlt] at hslot
      cases hslot
      have hother := h slot hlt
      rw [rootEntry, hnamed] at hother
      cases hother
    · rw [if_neg hlt] at hslot
      cases hslot

/-- A listing of the root is made of its entries. -/
theorem readDirLoop_root (hfat : sb.fatCnt ≠ 0) (ht : sb.fatType ≠ .fat32)
    (hsame : SameRoot sb flat flat') {node node' : FatNode} (hroot : node.isRoot = true)
    (hroot' : node'.isRoot = true) (fuel : Nat) : ∀ cookie direntBufSz flat₁ r,
    (readDirLoop env sb node fuel cookie direntBufSz).run (flatOp sb.partitionStart) flat =
      .ok (flat₁, r) →
    (readDirLoop env sb node' fuel cookie direntBufSz).run (flatOp sb.partitionStart) flat' =
      .ok (flat', r) := by
  induction fuel with
  | zero =>
    intro _ _ _ _ hrun
    cases hrun
  | succ fuel ih =>
    intro cookie direntBufSz flat₁ r hrun
    have hread := @fatDirRead_flat sb flat hfat node cookie
    have hread' := @fatDirRead_flat sb flat' hfat node' cookie
    rw [hroot, dirSlot_root ht] at hread
    rw [hroot', dirSlot_root ht] at hread'
    rw [readDirLoop] at hrun ⊢
    by_cases hfull : direntBufSz < 4096 - 64
    · rw [if_pos hfull, Prog.run_bind_ok _ hread] at hrun
      rw [if_pos hfull, Prog.run_bind_ok _ hread']
      -- the two volumes have the same entry in this slot
      by_cases hlt : cookie < sb.rootEntriesCnt
      · rw [if_pos hlt] at hrun ⊢
        have hentry := hsame.record hlt env cookie
        unfold rootEntry at hentry
        dsimp only [Option.map_some] at hrun ⊢
        rw [hentry]
        cases hrec : direntRecord env (direntAt sb flat (rootSlot sb cookie)) cookie with
        | none =>
          rw [hrec] at hrun
          exact ih _ _ _ _ hrun
        | some record =>
          rw [hrec] at hrun
          dsimp only at hrun ⊢
          obtain ⟨flat₂, rest, hrest, hrun⟩ := Prog.ok_of_run_bind _ hrun
          rw [Prog.run_bind_ok _ (ih _ _ _ _ hrest)]
          cases hrun
          rfl
      · rw [if_neg hlt] at hrun ⊢
        cases hrun
        rfl
    · rw [if_neg hfull] at hrun ⊢
      cases hrun
      rfl

end Names

/-! ## Writing entries -/

section Entries

variable {sb : FatSb} {flat flat' : Nat → UInt8} {slot : Nat}

/-- Nothing but bytes of the root directory differs. -/
def OnlyRoot (sb : FatSb) (flat flat' : Nat → UInt8) : Prop :=
  ∀ a, (∀ slot, slot < sb.rootEntriesCnt → a < rootByte sb slot ∨ rootByte sb slot + 32 ≤ a) →
    flat' a = flat a

theorem OnlyRoot.refl (sb : FatSb) (flat : Nat → UInt8) : OnlyRoot sb flat flat := fun _ _ => rfl

theorem OnlyRoot.trans {flat'' : Nat → UInt8} (h : OnlyRoot sb flat flat')
    (h' : OnlyRoot sb flat' flat'') : OnlyRoot sb flat flat'' :=
  fun a ha => (h' a ha).trans (h a ha)

theorem OnlyRoot.patch (flat : Nat → UInt8) (hlt : slot < sb.rootEntriesCnt)
    (dirent : FatDirEntry) : OnlyRoot sb flat (patch flat (rootByte sb slot) dirent.bytes) := by
  intro a ha
  rw [Fatfs.patch, dirent.length_eq, if_neg]
  have hout := ha slot hlt
  omega

/-- The FATs are as they were. -/
theorem OnlyRoot.fats (hl : DataLayout sb) (h : OnlyRoot sb flat flat') {a : Nat}
    (ha : InFats sb a) : flat' a = flat a := by
  refine h a fun slot _ => .inl ?_
  by_contra hle
  exact rootByte_not_inFats hl (Nat.not_lt.mp hle) ha

/-- A change of the root directory alone leaves the clusters as they are. -/
theorem OnlyRoot.cluster (h : OnlyRoot sb flat flat') (cluster k : Nat) :
    flat' (clusterStart sb cluster + k) = flat (clusterStart sb cluster + k) := by
  refine h _ fun slot hlt => .inr ?_
  have hbefore := rootByte_lt_cluster hlt cluster
  omega

theorem writeDirent_root (hl : DataLayout sb) (flat : Nat → UInt8) (hlt : slot < sb.rootEntriesCnt)
    (dirent : FatDirEntry) :
    (FatM.writeSector dirent.toChunk (rootSlot sb slot).1 (rootSlot sb slot).2).run
        (flatOp sb.partitionStart) flat =
      .ok (patch flat (rootByte sb slot) dirent.bytes, ()) := by
  have hend := rootByte_end hlt
  have hdata := hl.data
  have hpatch : ringPatch flat (rootByte sb slot) dirent.bytes =
      patch flat (rootByte sb slot) dirent.bytes := by
    apply ringPatch_eq
    rw [dirent.length_eq]
    omega
  show Except.ok (ringPatch flat (byteOf sb.partitionStart _ _) dirent.bytes, ()) = _
  rw [byteOf_rootSlot hl hlt, hpatch]

theorem dead_deleted (dirent : FatDirEntry) : Dead (dirent.setBytes 0 [direntryDeleted]) := .inr rfl

/-- `FatCreateDirEntry` puts an entry into the place of a dead one, if it finds one. -/
theorem createInRoot_flat (hl : DataLayout sb) (flat : Nat → UInt8) (dirent : FatDirEntry)
    (n : Nat) : ∀ offset, offset + n ≤ sb.rootEntriesCnt →
    (createInRoot sb dirent n offset).run (flatOp sb.partitionStart) flat = .ok (flat, none) ∨
    ∃ slot, slot < sb.rootEntriesCnt ∧ Dead (rootEntry sb flat slot) ∧
      (createInRoot sb dirent n offset).run (flatOp sb.partitionStart) flat =
        .ok (patch flat (rootByte sb slot) dirent.bytes, some (rootSlot sb slot)) := by
  induction n with
  | zero => exact fun _ _ => .inl rfl
  | succ n ih =>
    intro offset hle
    have hlt : offset < sb.rootEntriesCnt := by omega
    have hread : (readDirent (rootDirSector sb offset) (sectorOffset (direntOffset offset))).run
        (flatOp sb.partitionStart) flat = .ok (flat, rootEntry sb flat offset) := rfl
    unfold createInRoot
    dsimp only
    rw [Prog.run_bind_ok _ hread]
    by_cases hdead : (rootEntry sb flat offset).byte 0 = direntryFree ∨
        (rootEntry sb flat offset).byte 0 = direntryDeleted
    · refine .inr ⟨offset, hlt, hdead, ?_⟩
      have hwrite : (FatM.writeSector dirent.toChunk (rootDirSector sb offset)
          (sectorOffset (direntOffset offset))).run (flatOp sb.partitionStart) flat =
          .ok (patch flat (rootByte sb offset) dirent.bytes, ()) :=
        writeDirent_root hl flat hlt dirent
      rw [if_pos hdead, Prog.run_bind_ok _ hwrite]
      rfl
    · have hmore := ih (offset + 1) (by omega)
      rw [if_neg hdead]
      exact hmore

/-- An entry that is deleted at once is not noticed. -/
theorem deleteCreated_root (hl : DataLayout sb) (hlt : slot < sb.rootEntriesCnt)
    (hdead : Dead (rootEntry sb flat slot)) (dirent : FatDirEntry) :
    ∃ flat', (fatDeleteDirEntry (rootSlot sb slot).1 (rootSlot sb slot).2).run
        (flatOp sb.partitionStart) (patch flat (rootByte sb slot) dirent.bytes) = .ok (flat', ()) ∧
      SameRoot sb flat flat' ∧ OnlyRoot sb flat flat' := by
  obtain ⟨flat₁, hflat₁⟩ : ∃ f, f = patch flat (rootByte sb slot) dirent.bytes := ⟨_, rfl⟩
  have hread := @readDirent_flat sb flat₁ (rootSlot sb slot).1 (rootSlot sb slot).2
  have hwrite := writeDirent_root hl flat₁ hlt
    ((direntAt sb flat₁ (rootSlot sb slot)).setBytes 0 [direntryDeleted])
  rw [← hflat₁]
  unfold fatDeleteDirEntry
  rw [Prog.run_bind_ok _ hread]
  refine ⟨_, hwrite, fun j hj => ?_, (hflat₁ ▸ OnlyRoot.patch flat hlt dirent).trans
    (.patch flat₁ hlt _)⟩
  rw [rootEntry_patch hl flat₁ hlt _ hj]
  by_cases hjs : j = slot
  · subst hjs
    rw [if_pos rfl]
    exact .inr ⟨dead_deleted _, hdead⟩
  · rw [if_neg hjs, hflat₁, rootEntry_patch hl flat hlt _ hj, if_neg hjs]
    exact .inl rfl

/-- A request for a directory comes to its entry. -/
theorem mkDir_entry (env : Env) (fuel : Nat) {v v' v'' : Vol} {n parent : Nat} {name : List UInt8}
    {dirent : FatDirEntry} {r : Option (Nat × Fin 512)} (hfits : name.length + 1 ≤ 256)
    (hfind : findNode v n = (v', some parent))
    (hname : fatASCIIZToDirEntry env.charSigned env.stackDirent name = some dirent)
    (hcreate : (fatCreateDirEntry sb fuel v' parent (dirDirent sb dirent clusterEoc)).run
      (flatOp sb.partitionStart) flat = .ok (flat', v'', r)) :
    (r = none → (fatMkDir env sb fuel v n name).run (flatOp sb.partitionStart) flat =
      .ok (flat', v'', [⟨0, .none, .bytes []⟩])) ∧
    ∀ loc flat'', r = some loc → (fatDeleteDirEntry loc.1 loc.2).run (flatOp sb.partitionStart)
      flat' = .ok (flat'', ()) →
        (fatMkDir env sb fuel v n name).run (flatOp sb.partitionStart) flat =
          .ok (flat'', v'', [⟨0, .none, .bytes []⟩]) := by
  unfold fatMkDir
  rw [Prog.run_bind_ok _ (readName_flat hfits), hfind, hname]
  dsimp only
  rw [Prog.run_bind_ok _ hcreate]
  refine ⟨fun hnone => ?_, fun loc flat'' hsome hdelete => ?_⟩
  · rw [hnone]
    rfl
  · -- the entry has no first cluster, so that it gets no node
    rw [hsome]
    dsimp only
    rw [allocNode_dirDirent]
    dsimp only
    rw [Prog.run_bind_ok _ hdelete]
    rfl

/-- A directory is not made: its entry has no first cluster, so that it gets no node and is
deleted again. -/
theorem mkDir_root (env : Env) (fuel : Nat) (hl : DataLayout sb) (ht : sb.fatType ≠ .fat32)
    {v v' : Vol} {n : Nat} {name : List UInt8} {dirent : FatDirEntry}
    (hfits : name.length + 1 ≤ 256) (hfind : findNode v n = (v', some rootNode))
    (hname : fatASCIIZToDirEntry env.charSigned env.stackDirent name = some dirent) :
    ∃ flat', (fatMkDir env sb fuel v n name).run (flatOp sb.partitionStart) flat =
        .ok (flat', v', [⟨0, .none, .bytes []⟩]) ∧ SameRoot sb flat flat' ∧ OnlyRoot sb flat flat' := by
  have hcreate : (fatCreateDirEntry sb fuel v' rootNode (dirDirent sb dirent clusterEoc)) =
      (do return (v', ← createInRoot sb (dirDirent sb dirent clusterEoc) sb.rootEntriesCnt 0)) :=
    if_pos ⟨rfl, ht⟩
  rcases createInRoot_flat hl flat (dirDirent sb dirent clusterEoc) sb.rootEntriesCnt 0 (by omega)
    with hnone | ⟨slot, hlt, hdead, hsome⟩
  · have hrun : (fatCreateDirEntry sb fuel v' rootNode (dirDirent sb dirent clusterEoc)).run
        (flatOp sb.partitionStart) flat = .ok (flat, v', none) := by
      rw [hcreate, Prog.run_bind_ok _ hnone]
      rfl
    exact ⟨flat, (mkDir_entry env fuel hfits hfind hname hrun).1 rfl, .refl sb flat, .refl sb flat⟩
  · have hrun : (fatCreateDirEntry sb fuel v' rootNode (dirDirent sb dirent clusterEoc)).run
        (flatOp sb.partitionStart) flat =
        .ok (patch flat (rootByte sb slot) (dirDirent sb dirent clusterEoc).bytes, v',
          some (rootSlot sb slot)) := by
      rw [hcreate, Prog.run_bind_ok _ hsome]
      rfl
    obtain ⟨flat', hdelete, hsame, honly⟩ :=
      deleteCreated_root hl hlt hdead (dirDirent sb dirent clusterEoc)
    exact ⟨flat', (mkDir_entry env fuel hfits hfind hname hrun).2 _ _ rfl hdelete, hsame, honly⟩

end Entries

end Cheviot.Fatfs
