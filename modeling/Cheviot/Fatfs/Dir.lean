import Cheviot.Fatfs.Cluster

/-!
# Directories: `dir.c`, `lookup.c`

A directory is a row of entries of 32 bytes, in the sectors between the FATs and the
clusters for the root of a FAT12 or FAT16 volume, in a chain of clusters otherwise.
`lookup` takes the first entry whose name matches and finds or allocates its node.

* `dirSlot`, `direntAt` — where an entry of a directory is, and what is there.
* `fatDirRead_flat`, `lookup_flat` — the entries are read, and the first match is taken.

Mirroring notes:
- The device does not fail, so `readSector` and `writeSector` return 0.
- A name is the characters in front of its NUL.
- `Env.charSigned` is for the one comparison of a `char` with 0.
- `fuel` is the number of entries a scan is given.
-/

namespace Cheviot.Fatfs

open Cheviot.Bytes

/-! ## Names -/

/-- The characters of a string in front of its NUL. -/
def cstr (l : List UInt8) : List UInt8 := l.takeWhile (· ≠ 0)

/-- A character of a directory entry, in lower case. -/
def lowerCase (c : UInt8) : UInt8 :=
  if 'A'.toUInt8 ≤ c ∧ c ≤ 'Z'.toUInt8 then c + ('a'.toUInt8 - 'A'.toUInt8) else c

/-- `FatDirEntryToASCIIZ` -/
def fatDirEntryToASCIIZ (dirent : FatDirEntry) : List UInt8 :=
  (dirent.name.takeWhile (· ≠ ' '.toUInt8)).map lowerCase ++
    (if dirent.extension.head? ≠ some ' '.toUInt8 then ['.'.toUInt8] else []) ++
    (dirent.extension.takeWhile (· ≠ ' '.toUInt8)).map lowerCase

/-- Whether `fat_cmp_dirent` gives 0. -/
def fatCmpDirent (dirent : FatDirEntry) (comp : List UInt8) : Bool :=
  dirent.byte 0 ≠ direntryFree ∧ dirent.byte 0 ≠ direntryDeleted ∧
    dirent.attributes &&& attrLongFilename ≠ attrLongFilename ∧
    cstr comp = cstr (fatDirEntryToASCIIZ dirent)

/-- The characters a name may have beside letters of either case. -/
def dosChar (charSigned : Bool) (c : UInt8) : Bool :=
  ('A'.toUInt8 ≤ c ∧ c ≤ 'Z'.toUInt8) ∨ ('0'.toUInt8 ≤ c ∧ c ≤ '9'.toUInt8) ∨
    (charSigned ∧ 0x80 ≤ c) ∨
    c ∈ ['$', '%', '\x27', '-', '_', '@', '~', '\x60', '!', '(', ')', '\x7b', '\x7d', '^', '#', '&',
      ' '].map Char.toUInt8

/-- The loop of `FatIsDosName`; the name comes back in upper case. -/
def fatIsDosNameLoop (charSigned : Bool) :
    Nat → Nat → Nat → List UInt8 → Option (List UInt8)
  | _, _, _, [] => some []
  | nameCnt, extensionCnt, dotCnt, s :: rest =>
    if s = '/'.toUInt8 then some (s :: rest)
    else if s = '.'.toUInt8 then
      if 1 < dotCnt + 1 then none
      else (fatIsDosNameLoop charSigned nameCnt extensionCnt (dotCnt + 1) rest).map (s :: ·)
    else
      let lower : Bool := 'a'.toUInt8 ≤ s ∧ s ≤ 'z'.toUInt8
      let s := if lower then s - ('a'.toUInt8 - 'A'.toUInt8) else s
      if lower ∨ dosChar charSigned s then
        let nameCnt := if dotCnt = 0 then nameCnt + 1 else nameCnt
        let extensionCnt := if dotCnt = 1 then extensionCnt + 1 else extensionCnt
        if 1 < dotCnt then none
        else if nameCnt = 0 ∧ 1 ≤ dotCnt then none
        else if 8 < nameCnt ∨ 1 < dotCnt ∨ 3 < extensionCnt then none
        else (fatIsDosNameLoop charSigned nameCnt extensionCnt dotCnt rest).map (s :: ·)
      else none

/-- `FatIsDosName` -/
def fatIsDosName (charSigned : Bool) (s : List UInt8) : Option (List UInt8) :=
  fatIsDosNameLoop charSigned 0 0 0 (cstr s)

/-- A field of a directory entry, filled up with spaces. -/
def padField (n : Nat) (l : List UInt8) : List UInt8 :=
  l ++ List.replicate (n - l.length) ' '.toUInt8

/-- `FatASCIIZToDirEntry` -/
def fatASCIIZToDirEntry (charSigned : Bool) (dirent : FatDirEntry) (filename : List UInt8) :
    Option FatDirEntry :=
  (fatIsDosName charSigned filename).map fun p =>
    let name := (p.take 8).takeWhile (· ≠ '.'.toUInt8)
    let extension := match p.drop name.length with
      | c :: rest => if c = '.'.toUInt8 then rest.take 3 else []
      | [] => []
    (dirent.setBytes 0 (padField 8 name)).setBytes 8 (padField 3 extension)

/-! ## Entries -/

section Functions

variable (env : Env) (sb : FatSb) (fuel : Nat)

/-- `FAT_DIRENTRY_SZ` -/
def fatDirentrySz : Nat := 32

/-- Where an entry is that begins `fileOffset` bytes into a directory, in a cluster. -/
def sectorInCluster (cluster fileOffset : Nat) : Nat :=
  (clusterToSector sb cluster + fileOffset % sb.clusterSize / 512) % 2 ^ 32

/-- A sector of the root directory of a FAT12 or FAT16 volume. -/
def rootDirSector (cookie : Nat) : Nat := (sb.rootDirStart + cookie * fatDirentrySz / 512) % 2 ^ 32

/-- The offset of an entry into its directory. -/
def direntOffset (cookie : Nat) : Nat := cookie * fatDirentrySz % 2 ^ 32

/-- A directory entry that is read. -/
def readDirent (sector : Nat) (offset : Fin 512) : FatM FatDirEntry := do
  return .ofBytes (← FatM.readSector sector offset fatDirentrySz)

/-- What `fat_dir_read` gives with 0: an entry and where it is. -/
abbrev DirRead := Option (FatDirEntry × Nat × Fin 512)

/-- What `fat_dir_read` returns. -/
def DirRead.rc (r : DirRead) : Int := if r.isSome then 0 else -1

/-- `fat_dir_read` -/
def fatDirRead (node : FatNode) (cookie : Nat) : FatM DirRead :=
  let sectorOffset := sectorOffset (direntOffset cookie)
  if node.isRoot ∧ sb.fatType ≠ .fat32 then
    if cookie < sb.rootEntriesCnt then do
      let sector := rootDirSector sb cookie
      return some (← readDirent sector sectorOffset, sector, sectorOffset)
    else return none
  else do
    match ← findCluster sb node (direntOffset cookie) with
    | none => return none
    | some cluster =>
      let sector := sectorInCluster sb cluster (direntOffset cookie)
      return some (← readDirent sector sectorOffset, sector, sectorOffset)

/-- The loop of `FatCreateDirEntry` in the root directory, for `n` more entries. -/
def createInRoot (dirent : FatDirEntry) : Nat → Nat → FatM (Option (Nat × Fin 512))
  | 0, _ => return none
  | n + 1, offset => do
    let sector := rootDirSector sb offset
    let secOffset := sectorOffset (direntOffset offset)
    let current ← readDirent sector secOffset
    if current.byte 0 = direntryFree ∨ current.byte 0 = direntryDeleted then
      FatM.writeSector dirent.toChunk sector secOffset
      return some (sector, secOffset)
    else createInRoot dirent n (offset + 1)

/-- The loop of `FatCreateDirEntry` along a chain; at its end there is no entry left. -/
def createInChain (parent : FatNode) (dirent : FatDirEntry) :
    Nat → Nat → FatM (Option (Nat × Fin 512))
  | 0, _ => FatM.fault .hang
  | fuel + 1, offset => do
    match ← findCluster sb parent (direntOffset offset) with
    | none => return none
    | some cluster =>
      let sector := sectorInCluster sb cluster (direntOffset offset)
      let secOffset := sectorOffset (direntOffset offset)
      let current ← readDirent sector secOffset
      if current.byte 0 = direntryFree ∨ current.byte 0 = direntryDeleted then
        FatM.writeSector dirent.toChunk sector secOffset
        return some (sector, secOffset)
      else createInChain parent dirent fuel (offset + 1)

/-- `FatCreateDirEntry`: where the entry is, with 1, or nothing with 0. -/
def fatCreateDirEntry (v : Vol) (parent : Nat) (dirent : FatDirEntry) :
    FatM (Vol × Option (Nat × Fin 512)) :=
  if parent = rootNode ∧ sb.fatType ≠ .fat32 then do
    return (v, ← createInRoot sb dirent sb.rootEntriesCnt 0)
  else do
    match ← createInChain sb (v.nodes parent) dirent fuel 0 with
    | some loc => return (v, some loc)
    | none =>
      let (v, r) ← appendCluster sb fuel v parent
      match r with
      | none => return (v, none)
      | some cluster =>
        clearCluster sb cluster
        let sector := clusterToSector sb cluster
        FatM.writeSector dirent.toChunk sector (sectorOffset 0)
        return (v, some (sector, sectorOffset 0))

/-- `FatDeleteDirEntry` -/
def fatDeleteDirEntry (sector : Nat) (offset : Fin 512) : FatM Unit := do
  let dirent ← readDirent sector offset
  FatM.writeSector (dirent.setBytes 0 [direntryDeleted]).toChunk sector offset

/-- The loop of `IsDirEmpty`, as long as `fat_dir_read` returns 1. -/
def isDirEmptyLoop (node : FatNode) : Nat → Nat → FatM Int
  | 0, _ => FatM.fault .hang
  | fuel + 1, offset => do
    let r ← fatDirRead sb node offset
    match r with
    | some (dirent, _) =>
      if DirRead.rc r = 1 then
        if dirent.byte 0 = direntryFree then return 0
        else if dirent.byte 0 = direntryDeleted then isDirEmptyLoop node fuel (offset + 1)
        else if dirent.attributes &&& attrVolumeId ≠ 0 then isDirEmptyLoop node fuel (offset + 1)
        else
          let asciizName := cstr (fatDirEntryToASCIIZ dirent)
          if asciizName = ['.'.toUInt8, '.'.toUInt8] ∨ asciizName = ['.'.toUInt8] then
            isDirEmptyLoop node fuel (offset + 1)
          else return -1
      else return DirRead.rc r
    | none => return DirRead.rc r

/-- `IsDirEmpty` -/
def isDirEmpty (node : FatNode) : FatM Int := isDirEmptyLoop sb node fuel 0

/-! ## Lookup -/

/-- What `lookup` does once it has the entry: a node that has its first cluster for its
inode number is taken for the node of the entry. -/
def lookupNode (v : Vol) (dirent : FatDirEntry) (sector : Nat) (offset : Fin 512) :
    Vol × Option Nat :=
  let cluster := getFirstCluster sb dirent
  if cluster = clusterEoc ∨ cluster = clusterBad then (v, none)
  else
    let (v, node) := match findNode v cluster with
      | (v, none) => allocNode env sb v dirent sector offset
      | (v, some i) => (v, some i)
    match node with
    | none => (v, none)
    | some i => (v.setNode i { v.nodes i with
        inodeNr := rawFirstCluster dirent
        hintCluster := 0
        hintOffset := 0
        dirent := dirent }, some i)

/-- The loop of `lookup`. -/
def lookupLoop (v : Vol) (dirnode : FatNode) (name : List UInt8) :
    Nat → Nat → FatM (Vol × Option Nat)
  | 0, _ => FatM.fault .hang
  | fuel + 1, offset => do
    match ← fatDirRead sb dirnode offset with
    | none => return (v, none)
    | some (dirent, sector, secOffset) =>
      if dirent.byte 0 = direntryFree then lookupLoop v dirnode name fuel (offset + 1)
      else if dirent.byte 0 ≠ direntryDeleted ∧ fatCmpDirent dirent name then
        return lookupNode env sb v dirent sector secOffset
      else lookupLoop v dirnode name fuel (offset + 1)

/-- `lookup` -/
def lookup (v : Vol) (dirnode : Nat) (name : List UInt8) : FatM (Vol × Option Nat) :=
  lookupLoop env sb v (v.nodes dirnode) name fuel 0

end Functions

/-- `lookup` with an entry in hand: none for a file without clusters, the node on the list
that has its first cluster, or a new node. -/
theorem lookupNode_cases (env : Env) (sb : FatSb) (v : Vol) (dirent : FatDirEntry) (sector : Nat)
    (offset : Fin 512) :
    ((getFirstCluster sb dirent = clusterEoc ∨ getFirstCluster sb dirent = clusterBad) ∧
      lookupNode env sb v dirent sector offset = (v, none)) ∨
    (¬ (getFirstCluster sb dirent = clusterEoc ∨ getFirstCluster sb dirent = clusterBad) ∧
      ((∃ i, (findNode v (getFirstCluster sb dirent)).2 = some i ∧ i ∈ v.nodeList ∧
        lookupNode env sb v dirent sector offset = (v.setNode i { v.nodes i with
          inodeNr := rawFirstCluster dirent
          referenceCnt := (v.nodes i).referenceCnt + 1
          hintCluster := 0
          hintOffset := 0
          dirent := dirent }, some i)) ∨
      ((∀ i ∈ v.nodeList, (v.nodes i).inodeNr ≠ getFirstCluster sb dirent) ∧
        lookupNode env sb v dirent sector offset = (v.addNode {
          inodeNr := rawFirstCluster dirent
          isRoot := env.heapIsRoot v.nextNode
          direntSector := sector
          direntOffset := offset
          dirent := dirent
          hintCluster := 0
          hintOffset := 0
          referenceCnt := 1 }, some v.nextNode)))) := by
  unfold lookupNode
  dsimp only
  by_cases hmark : getFirstCluster sb dirent = clusterEoc ∨ getFirstCluster sb dirent = clusterBad
  · exact .inl ⟨hmark, if_pos hmark⟩
  · rw [if_neg hmark]
    refine .inr ⟨hmark, ?_⟩
    rcases findNode_cases v (getFirstCluster sb dirent) with ⟨hnone, hall⟩ | ⟨i, hi, -, hsome⟩
    · -- no node on the list has this first cluster
      rcases allocNode_cases env sb v dirent sector offset with ⟨hmark', -⟩ | ⟨-, halloc⟩
      · exact absurd hmark' hmark
      · refine .inr ⟨hall, ?_⟩
        rw [hnone]
        dsimp only
        rw [halloc]
        dsimp only
        rw [Vol.addNode_setNode, Vol.addNode_apply, if_pos rfl]
    · -- the node that has is given the entry and one more reference
      refine .inl ⟨i, by rw [hsome], hi, ?_⟩
      rw [hsome]
      dsimp only
      rw [Vol.setNode_setNode, Vol.setNode_apply, if_pos rfl]

/-! ## Directories on the array -/

section Slots

variable (sb : FatSb) (flat : Nat → UInt8)

/-- Where an entry of a directory is: of the root, or of the directory with the cluster
`first`. -/
def dirSlot (isRoot : Bool) (first slot : Nat) : Option (Nat × Fin 512) :=
  if isRoot ∧ sb.fatType ≠ .fat32 then
    if slot < sb.rootEntriesCnt then
      some (rootDirSector sb slot, sectorOffset (direntOffset slot))
    else none
  else (chainNth sb flat (direntOffset slot / sb.clusterSize)
    (if isRoot then sb.rootCluster else first)).map fun cluster =>
      (sectorInCluster sb cluster (direntOffset slot), sectorOffset (direntOffset slot))

/-- The entry there. -/
def direntAt (loc : Nat × Fin 512) : FatDirEntry :=
  .ofBytes (ringSlice flat (byteOf sb.partitionStart loc.1 loc.2) fatDirentrySz)

/-- A slot of a directory with an entry of another name, or of none. -/
def Passes (isRoot : Bool) (first : Nat) (name : List UInt8) (slot : Nat) : Prop :=
  ∃ loc, dirSlot sb flat isRoot first slot = some loc ∧
    fatCmpDirent (direntAt sb flat loc) name = false

/-- The first entry of a name in a directory. -/
structure FirstMatch (isRoot : Bool) (first : Nat) (name : List UInt8) (slot : Nat)
    (loc : Nat × Fin 512) : Prop where
  slot_eq : dirSlot sb flat isRoot first slot = some loc
  named : fatCmpDirent (direntAt sb flat loc) name = true
  before : ∀ j, j < slot → Passes sb flat isRoot first name j

/-- The first entry of a name, wherever it is. -/
def EntryIn (isRoot : Bool) (first : Nat) (name : List UInt8) (loc : Nat × Fin 512) : Prop :=
  ∃ slot, FirstMatch sb flat isRoot first name slot loc

variable {sb} {flat} {env : Env} {fuel : Nat}

/-- The first byte of an entry. -/
theorem direntAt_byte_zero (sb : FatSb) (flat : Nat → UInt8) (loc : Nat × Fin 512) :
    (direntAt sb flat loc).byte 0 = flat (byteOf sb.partitionStart loc.1 loc.2) := by
  have hlt := byteOf_lt sb.partitionStart loc.1 loc.2
  show flat ((byteOf sb.partitionStart loc.1 loc.2 + 0) % 2 ^ 41) = _
  rw [Nat.add_zero, Nat.mod_eq_of_lt hlt]

theorem Passes.not_match {isRoot : Bool} {first slot : Nat} {name : List UInt8}
    {loc : Nat × Fin 512} (h : Passes sb flat isRoot first name slot)
    (hslot : dirSlot sb flat isRoot first slot = some loc) :
    ¬ fatCmpDirent (direntAt sb flat loc) name = true := by
  obtain ⟨loc', hslot', hother⟩ := h
  rw [hslot] at hslot'
  cases hslot'
  rw [hother]
  exact Bool.false_ne_true

/-- A name has one first entry. -/
theorem EntryIn.unique {isRoot : Bool} {first : Nat} {name : List UInt8} {loc loc' : Nat × Fin 512}
    (h : EntryIn sb flat isRoot first name loc) (h' : EntryIn sb flat isRoot first name loc') :
    loc = loc' := by
  obtain ⟨slot, hfirst⟩ := h
  obtain ⟨slot', hfirst'⟩ := h'
  rcases Nat.lt_trichotomy slot slot' with hlt | heq | hlt
  · exact absurd hfirst.named ((hfirst'.before slot hlt).not_match hfirst.slot_eq)
  · subst heq
    exact Option.some.inj (hfirst.slot_eq.symm.trans hfirst'.slot_eq)
  · exact absurd hfirst'.named ((hfirst.before slot' hlt).not_match hfirst'.slot_eq)

theorem readDirent_flat (sector : Nat) (offset : Fin 512) :
    (readDirent sector offset).run (flatOp sb.partitionStart) flat =
      .ok (flat, direntAt sb flat (sector, offset)) := rfl

/-- `fat_dir_read` reads the entry of a slot. -/
theorem fatDirRead_flat (hfat : sb.fatCnt ≠ 0) (node : FatNode) (slot : Nat) :
    (fatDirRead sb node slot).run (flatOp sb.partitionStart) flat =
      .ok (flat, (dirSlot sb flat node.isRoot (getFirstCluster sb node.dirent) slot).map
        fun loc => (direntAt sb flat loc, loc.1, loc.2)) := by
  unfold fatDirRead dirSlot
  dsimp only
  split
  · split
    · rfl
    · rfl
  · rw [Prog.run_bind_ok _ (findCluster_flat hfat node _)]
    cases chainNth sb flat (direntOffset slot / sb.clusterSize)
      (if node.isRoot then sb.rootCluster else getFirstCluster sb node.dirent) <;> rfl

/-- `lookup` ends behind the last slot, at the first match, or not at all. -/
theorem lookupLoop_flat (env : Env) (hfat : sb.fatCnt ≠ 0) (v : Vol) (dirnode : FatNode) (name : List UInt8)
    (fuel : Nat) : ∀ offset,
    ((lookupLoop env sb v dirnode name fuel offset).run (flatOp sb.partitionStart) flat =
        .error .hang ∧
      ∀ j, offset ≤ j → j < offset + fuel →
        Passes sb flat dirnode.isRoot (getFirstCluster sb dirnode.dirent) name j) ∨
    ∃ slot, offset ≤ slot ∧ slot < offset + fuel ∧ (∀ j, offset ≤ j → j < slot →
        Passes sb flat dirnode.isRoot (getFirstCluster sb dirnode.dirent) name j) ∧
      ((dirSlot sb flat dirnode.isRoot (getFirstCluster sb dirnode.dirent) slot = none ∧
        (lookupLoop env sb v dirnode name fuel offset).run (flatOp sb.partitionStart) flat =
          .ok (flat, (v, none))) ∨
      ∃ loc, dirSlot sb flat dirnode.isRoot (getFirstCluster sb dirnode.dirent) slot = some loc ∧
        fatCmpDirent (direntAt sb flat loc) name = true ∧
        (lookupLoop env sb v dirnode name fuel offset).run (flatOp sb.partitionStart) flat =
          .ok (flat, lookupNode env sb v (direntAt sb flat loc) loc.1 loc.2)) := by
  induction fuel with
  | zero => exact fun offset => .inl ⟨rfl, fun j h1 h2 => by omega⟩
  | succ fuel ih =>
    intro offset
    rw [lookupLoop, Prog.run_bind_ok _ (fatDirRead_flat hfat dirnode offset)]
    cases hslot : dirSlot sb flat dirnode.isRoot (getFirstCluster sb dirnode.dirent) offset with
    | none =>
      -- the directory ends
      exact .inr ⟨offset, Nat.le_refl _, by omega, fun j h1 h2 => by omega, .inl ⟨hslot, rfl⟩⟩
    | some loc =>
      cases hcmp : fatCmpDirent (direntAt sb flat loc) name with
      | true =>
        refine .inr ⟨offset, Nat.le_refl _, by omega, fun j h1 h2 => by omega,
          .inr ⟨loc, hslot, hcmp, ?_⟩⟩
        -- a match is neither free nor deleted
        have hlive := hcmp
        unfold fatCmpDirent at hlive
        rw [decide_eq_true_eq] at hlive
        dsimp only [Option.map_some]
        rw [if_neg hlive.1, if_pos ⟨hlive.2.1, hcmp⟩]
        rfl
      | false =>
        -- the entry is passed, and so are those that the rest of the scan passes
        have hpass : Passes sb flat dirnode.isRoot (getFirstCluster sb dirnode.dirent) name offset :=
          ⟨loc, hslot, hcmp⟩
        have hgo : ∀ slot, (∀ j, offset + 1 ≤ j → j < slot →
            Passes sb flat dirnode.isRoot (getFirstCluster sb dirnode.dirent) name j) →
            ∀ j, offset ≤ j → j < slot →
              Passes sb flat dirnode.isRoot (getFirstCluster sb dirnode.dirent) name j := by
          intro slot hrest j h1 h2
          by_cases hj : j = offset
          · rw [hj]
            exact hpass
          · exact hrest j (by omega) h2
        dsimp only [Option.map_some]
        rw [hcmp, if_neg (show ¬ (_ ∧ false = true) from fun h => nomatch h.2), ite_self]
        rcases ih (offset + 1) with ⟨hrun, hall⟩ | ⟨slot, h1, h2, hbefore, hend⟩
        · refine .inl ⟨hrun, hgo _ fun j h1 h2 => hall j h1 (by omega)⟩
        · exact .inr ⟨slot, by omega, by omega, hgo slot hbefore, hend⟩

/-- `lookup` on the array: it has not ended, or found no entry, or the first one. -/
theorem lookup_flat (env : Env) (hfat : sb.fatCnt ≠ 0) (v : Vol) (dir : Nat) (name : List UInt8)
    (fuel : Nat) :
    (lookup env sb fuel v dir name).run (flatOp sb.partitionStart) flat = .error .hang ∨
    ((∀ loc, ¬ EntryIn sb flat (v.nodes dir).isRoot
        (getFirstCluster sb (v.nodes dir).dirent) name loc) ∧
      (lookup env sb fuel v dir name).run (flatOp sb.partitionStart) flat = .ok (flat, (v, none))) ∨
    ∃ loc, EntryIn sb flat (v.nodes dir).isRoot (getFirstCluster sb (v.nodes dir).dirent) name loc ∧
      (lookup env sb fuel v dir name).run (flatOp sb.partitionStart) flat =
        .ok (flat, lookupNode env sb v (direntAt sb flat loc) loc.1 loc.2) := by
  unfold lookup
  rcases lookupLoop_flat env hfat v (v.nodes dir) name fuel 0 with
    ⟨hhang, -⟩ | ⟨slot, -, -, hbefore, ⟨hslot, hnone⟩ | ⟨loc, hslot, hnamed, hsome⟩⟩
  · exact .inl hhang
  · refine .inr (.inl ⟨fun loc hloc => ?_, hnone⟩)
    obtain ⟨slot', hfirst⟩ := hloc
    rcases Nat.lt_trichotomy slot slot' with hlt | heq | hlt
    · obtain ⟨loc', hloc', -⟩ := hfirst.before slot hlt
      rw [hslot] at hloc'
      cases hloc'
    · rw [heq, hfirst.slot_eq] at hslot
      cases hslot
    · exact (hbefore slot' (Nat.zero_le _) hlt).not_match hfirst.slot_eq hfirst.named
  · exact .inr (.inr ⟨loc, ⟨slot, hslot, hnamed, fun j hj => hbefore j (Nat.zero_le j) hj⟩, hsome⟩)

/-- With rounds enough it comes to the first entry. -/
theorem lookup_returns (hfat : sb.fatCnt ≠ 0) {v : Vol} {dir slot : Nat} {name : List UInt8}
    {loc : Nat × Fin 512} (h : FirstMatch sb flat (v.nodes dir).isRoot
      (getFirstCluster sb (v.nodes dir).dirent) name slot loc) (hfuel : slot < fuel) :
    (lookup env sb fuel v dir name).run (flatOp sb.partitionStart) flat =
      .ok (flat, lookupNode env sb v (direntAt sb flat loc) loc.1 loc.2) := by
  have hentry : EntryIn sb flat _ _ name loc := ⟨slot, h⟩
  rcases lookup_flat env hfat v dir name fuel with hhang | ⟨hnone, -⟩ | ⟨loc', hloc', hrun⟩
  · rcases lookupLoop_flat env hfat v (v.nodes dir) name fuel 0 with
      ⟨-, hall⟩ | ⟨slot', -, -, -, ⟨-, hrun⟩ | ⟨loc', -, -, hrun⟩⟩
    · exact absurd h.named ((hall slot (Nat.zero_le _) (by omega)).not_match h.slot_eq)
    · rw [lookup, hrun] at hhang
      cases hhang
    · rw [lookup, hrun] at hhang
      cases hhang
  · exact absurd hentry (hnone loc)
  · rw [hrun, hentry.unique hloc']

end Slots

/-! ## What they call and return -/

section Meets

variable {env : Env} {sb : FatSb} {fuel : Nat}

theorem readDirent_meets (sector : Nat) (offset : Fin 512) :
    (readDirent sector offset).Meets DiskOp.IsRead fun _ => True :=
  .bind (FatM.readSector_meets ..) fun _ _ => .pure trivial

/-- `fat_dir_read` writes nothing. -/
theorem fatDirRead_meets (node : FatNode) (cookie : Nat) :
    (fatDirRead sb node cookie).Meets DiskOp.IsRead fun _ => True := by
  unfold fatDirRead
  dsimp only
  split
  · split
    · exact .bind (readDirent_meets ..) fun _ _ => .pure trivial
    · exact .pure trivial
  · refine .bind (findCluster_meets ..) fun r _ => ?_
    cases r with
    | none => exact .pure trivial
    | some cluster => exact .bind (readDirent_meets ..) fun _ _ => .pure trivial

/-- `FatCreateDirEntry` changes no more than the entry and the hints of the directory. -/
theorem fatCreateDirEntry_keeps (v : Vol) (parent : Nat) (dirent : FatDirEntry) :
    (fatCreateDirEntry sb fuel v parent dirent).Meets (fun _ => True) fun r => Keeps v r.1 := by
  unfold fatCreateDirEntry
  split
  · exact .bind (.any _) fun _ _ => .pure (.refl v)
  · refine .bind (.any _) fun r _ => ?_
    cases r with
    | some loc => exact .pure (.refl v)
    | none =>
      refine .bind (appendCluster_keeps v parent) fun r hkeeps => ?_
      obtain ⟨v', r⟩ := r
      cases r with
      | none => exact .pure hkeeps
      | some cluster =>
        exact .bind (.any _) fun _ _ => .bind (.any _) fun _ _ => .pure hkeeps

theorem DirRead.rc_ne_one (r : DirRead) : r.rc ≠ 1 := by
  cases r with
  | none => exact show (-1 : Int) ≠ 1 by decide
  | some r => exact show (0 : Int) ≠ 1 by decide

/-- `fat_dir_read` never returns 1: `IsDirEmpty` ends with what the first entry gives. -/
theorem isDirEmptyLoop_eq (node : FatNode) (fuel offset : Nat) :
    isDirEmptyLoop sb node (fuel + 1) offset = do
      let r ← fatDirRead sb node offset
      return DirRead.rc r := by
  rw [isDirEmptyLoop]
  refine congrArg (fatDirRead sb node offset >>= ·) (funext fun r => ?_)
  cases r with
  | none => rfl
  | some r => exact if_neg (DirRead.rc_ne_one (some r))

/-- `lookup` writes nothing, and gives no node or the one of an entry. -/
theorem lookupLoop_meets (v : Vol) (dirnode : FatNode) (name : List UInt8) (fuel : Nat) :
    ∀ offset, (lookupLoop env sb v dirnode name fuel offset).Meets DiskOp.IsRead fun r =>
      r = (v, none) ∨ ∃ dirent sector offset, r = lookupNode env sb v dirent sector offset := by
  induction fuel with
  | zero => exact fun _ => .fail _
  | succ fuel ih =>
    intro offset
    rw [lookupLoop]
    refine .bind (fatDirRead_meets ..) fun r _ => ?_
    cases r with
    | none => exact .pure (.inl rfl)
    | some r =>
      obtain ⟨dirent, sector, secOffset⟩ := r
      show Prog.Meets _ _ (if _ then _ else if _ then _ else _)
      split
      · exact ih (offset + 1)
      · split
        · exact .pure (.inr ⟨dirent, sector, secOffset, rfl⟩)
        · exact ih (offset + 1)

theorem lookup_meets (v : Vol) (dirnode : Nat) (name : List UInt8) :
    (lookup env sb fuel v dirnode name).Meets DiskOp.IsRead fun r =>
      r = (v, none) ∨ ∃ dirent sector offset, r = lookupNode env sb v dirent sector offset :=
  lookupLoop_meets ..

end Meets

end Cheviot.Fatfs
