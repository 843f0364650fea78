import Cheviot.Fatfs.Write
import Cheviot.Fatfs.Main
import Mathlib.Algebra.BigOperators.Group.Finset.Basic
import Mathlib.Algebra.BigOperators.Intervals

/-!
# What comes to an end

A scan of a directory ends at a match or behind the last slot, a listing behind the last
slot or with a full buffer. `readFile` always ends. `writeFile` ends where the clusters are
there, and on a FAT12 or FAT16 volume also where they have to be appended: a free cluster
is found once only.

* `lookup_ends_iff`, `readDirLoop_ends_iff` — which scans end.
* `readFile_ends`, `writeFile_ends` — reading and writing.
-/

namespace Cheviot.Fatfs

open Cheviot.Bytes Cheviot.Segments

section Scans

variable {env : Env} {sb : FatSb} {flat : Nat → UInt8}

/-- `lookup` does not go on behind a slot that is not passed. -/
theorem lookup_returns_by (env : Env) (hfat : sb.fatCnt ≠ 0) {v : Vol} {dir slot fuel : Nat}
    {name : List UInt8} (hslot : ¬ Passes sb flat (v.nodes dir).isRoot
      (getFirstCluster sb (v.nodes dir).dirent) name slot) (hfuel : slot < fuel) :
    ∃ r, (lookup env sb fuel v dir name).run (flatOp sb.partitionStart) flat = .ok (flat, r) := by
  unfold lookup
  rcases lookupLoop_flat env hfat v (v.nodes dir) name fuel 0 with
    ⟨-, hall⟩ | ⟨_, -, -, -, ⟨-, hrun⟩ | ⟨_, -, -, hrun⟩⟩
  · exact absurd (hall slot (Nat.zero_le _) (by omega)) hslot
  · exact ⟨_, hrun⟩
  · exact ⟨_, hrun⟩

/-- `lookup` ends if some slot is not passed. -/
theorem lookup_ends_iff (env : Env) (hfat : sb.fatCnt ≠ 0) (v : Vol) (dir : Nat)
    (name : List UInt8) :
    (∃ fuel flat' r, (lookup env sb fuel v dir name).run (flatOp sb.partitionStart) flat =
      .ok (flat', r)) ↔ ∃ slot, ¬ Passes sb flat (v.nodes dir).isRoot
        (getFirstCluster sb (v.nodes dir).dirent) name slot := by
  constructor
  · intro ⟨fuel, flat', r, hrun⟩
    unfold lookup at hrun
    rcases lookupLoop_flat env hfat v (v.nodes dir) name fuel 0 with
      ⟨hhang, -⟩ | ⟨slot, -, -, -, ⟨hslot, -⟩ | ⟨loc, hslot, hnamed, -⟩⟩
    · rw [hhang] at hrun
      cases hrun
    · refine ⟨slot, fun hpass => ?_⟩
      obtain ⟨loc, hloc, -⟩ := hpass
      rw [hslot] at hloc
      cases hloc
    · exact ⟨slot, fun hpass => hpass.not_match hslot hnamed⟩
  · intro ⟨slot, hslot⟩
    obtain ⟨r, hrun⟩ := lookup_returns_by env hfat hslot (Nat.lt_succ_self slot)
    exact ⟨slot + 1, flat, r, hrun⟩

/-- The bytes a slot of a directory takes in the buffer of `fatReadDir`. -/
def recordSz (env : Env) (sb : FatSb) (flat : Nat → UInt8) (node : FatNode) (slot : Nat) : Nat :=
  match dirSlot sb flat node.isRoot (getFirstCluster sb node.dirent) slot with
  | none => 0
  | some loc => match direntRecord env (direntAt sb flat loc) slot with
    | none => 0
    | some record => record.dReclen

/-- `k` slots from a slot on, a directory ends or has filled what is left of the buffer. -/
def EndsIn (env : Env) (sb : FatSb) (flat : Nat → UInt8) (node : FatNode)
    (cookie direntBufSz k : Nat) : Prop :=
  dirSlot sb flat node.isRoot (getFirstCluster sb node.dirent) (cookie + k) = none ∨
    4096 - 64 ≤ direntBufSz + ∑ j ∈ Finset.range k, recordSz env sb flat node (cookie + j)

theorem endsIn_succ {node : FatNode} {cookie direntBufSz k : Nat} :
    EndsIn env sb flat node cookie direntBufSz (k + 1) ↔ EndsIn env sb flat node (cookie + 1)
      (direntBufSz + recordSz env sb flat node cookie) k := by
  have hsum : ∑ j ∈ Finset.range (k + 1), recordSz env sb flat node (cookie + j) =
      ∑ j ∈ Finset.range k, recordSz env sb flat node (cookie + 1 + j) +
        recordSz env sb flat node cookie := by
    rw [Finset.sum_range_succ', Nat.add_zero]
    refine congrArg (· + _) (Finset.sum_congr rfl fun j _ => ?_)
    rw [Nat.add_assoc, Nat.add_comm 1]
  unfold EndsIn
  rw [hsum, Nat.add_assoc cookie, Nat.add_comm 1, Nat.add_assoc direntBufSz,
    Nat.add_comm (recordSz env sb flat node cookie)]

/-- A round of `fatReadDir` on a slot that is there. -/
theorem readDirLoop_step (hfat : sb.fatCnt ≠ 0) {node : FatNode} {cookie direntBufSz : Nat}
    {loc : Nat × Fin 512} (hlt : direntBufSz < 4096 - 64)
    (hslot : dirSlot sb flat node.isRoot (getFirstCluster sb node.dirent) cookie = some loc)
    (fuel : Nat) :
    (∃ flat' r, (readDirLoop env sb node (fuel + 1) cookie direntBufSz).run
      (flatOp sb.partitionStart) flat = .ok (flat', r)) ↔
    ∃ flat' r, (readDirLoop env sb node fuel (cookie + 1)
      (direntBufSz + recordSz env sb flat node cookie)).run (flatOp sb.partitionStart) flat =
        .ok (flat', r) := by
  rw [readDirLoop, if_pos hlt, Prog.run_bind_ok _ (fatDirRead_flat hfat node cookie), recordSz,
    hslot]
  dsimp only [Option.map_some]
  cases direntRecord env (direntAt sb flat loc) cookie with
  | none => exact Iff.rfl
  | some record =>
    dsimp only
    constructor
    · intro ⟨flat', r, hrun⟩
      obtain ⟨flat₁, r₁, hrest, -⟩ := Prog.ok_of_run_bind _ hrun
      exact ⟨flat₁, r₁, hrest⟩
    · intro ⟨flat', r, hrun⟩
      exact ⟨flat', _, Prog.run_bind_ok _ hrun _⟩

/-- A round on a slot that is not there, or with a full buffer, is the last one. -/
theorem readDirLoop_last (hfat : sb.fatCnt ≠ 0) {node : FatNode} {cookie direntBufSz : Nat}
    (h : direntBufSz < 4096 - 64 →
      dirSlot sb flat node.isRoot (getFirstCluster sb node.dirent) cookie = none) (fuel : Nat) :
    (readDirLoop env sb node (fuel + 1) cookie direntBufSz).run (flatOp sb.partitionStart) flat =
      .ok (flat, [], direntBufSz, cookie) := by
  rw [readDirLoop]
  split
  next hlt =>
    rw [Prog.run_bind_ok _ (fatDirRead_flat hfat node cookie), h hlt]
    rfl
  · rfl

/-- The loop of `fatReadDir` ends if the directory does or the buffer is filled. -/
theorem readDirLoop_ends_iff (hfat : sb.fatCnt ≠ 0) (node : FatNode) (cookie direntBufSz : Nat) :
    (∃ fuel flat' r, (readDirLoop env sb node fuel cookie direntBufSz).run
      (flatOp sb.partitionStart) flat = .ok (flat', r)) ↔
      ∃ k, EndsIn env sb flat node cookie direntBufSz k := by
  constructor
  · intro ⟨fuel, hends⟩
    induction fuel generalizing cookie direntBufSz with
    | zero =>
      obtain ⟨_, _, hrun⟩ := hends
      cases hrun
    | succ fuel ih =>
      by_cases hlt : direntBufSz < 4096 - 64
      · cases hslot : dirSlot sb flat node.isRoot (getFirstCluster sb node.dirent) cookie with
        | none => exact ⟨0, .inl hslot⟩
        | some loc =>
          obtain ⟨k, hk⟩ := ih _ _ ((readDirLoop_step hfat hlt hslot fuel).mp hends)
          exact ⟨k + 1, endsIn_succ.mpr hk⟩
      · exact ⟨0, .inr (by omega)⟩
  · intro ⟨k, hk⟩
    induction k generalizing cookie direntBufSz with
    | zero =>
      refine ⟨1, _, _, readDirLoop_last hfat (fun hlt => ?_) 0⟩
      rcases hk with hnone | hfull
      · exact hnone
      · rw [Finset.sum_range_zero] at hfull
        omega
    | succ k ih =>
      by_cases hlt : direntBufSz < 4096 - 64
      · cases hslot : dirSlot sb flat node.isRoot (getFirstCluster sb node.dirent) cookie with
        | none => exact ⟨1, _, _, readDirLoop_last hfat (fun _ => hslot) 0⟩
        | some loc =>
          obtain ⟨fuel, hends⟩ := ih _ _ (endsIn_succ.mp hk)
          exact ⟨fuel + 1, (readDirLoop_step hfat hlt hslot fuel).mpr hends⟩
      · exact ⟨1, _, _, readDirLoop_last hfat (fun h => absurd h hlt) 0⟩

/-- The loop of `readFile` ends. -/
theorem readFileLoop_ends (hfat : sb.fatCnt ≠ 0) (node : FatNode) (fuel : Nat) :
    ∀ left offset, left < fuel → ∃ bytes, (readFileLoop sb node fuel left offset).run
      (flatOp sb.partitionStart) flat = .ok (flat, bytes) := by
  induction fuel with
  | zero => exact fun left offset hlt => absurd hlt (Nat.not_lt_zero _)
  | succ fuel ih =>
    intro left offset hlt
    rw [readFileLoop]
    by_cases hleft : 0 < left
    · obtain ⟨hpos, hle, -⟩ := transferNbytes_spec offset hleft
      rw [if_pos hleft, Prog.run_bind_ok _ (findCluster_flat hfat node offset)]
      cases chainNth sb flat (offset / sb.clusterSize)
        (if node.isRoot then sb.rootCluster else getFirstCluster sb node.dirent) with
      | none => exact ⟨[], rfl⟩
      | some cluster =>
        obtain ⟨rest, hrest⟩ := ih (left - transferNbytes left (offset % 512))
          (offset + transferNbytes left (offset % 512)) (by omega)
        have hread : (FatM.readSector (sectorInCluster sb cluster offset) (sectorOffset offset)
            (transferNbytes left (offset % 512))).run (flatOp sb.partitionStart) flat =
            .ok (flat, ringSlice flat (byteOf sb.partitionStart (sectorInCluster sb cluster offset)
              (sectorOffset offset)) (transferNbytes left (offset % 512))) := rfl
        dsimp only
        rw [Prog.run_bind_ok _ hread, Prog.run_bind_ok _ hrest]
        exact ⟨_, rfl⟩
    · rw [if_neg hleft]
      exact ⟨[], rfl⟩

/-- `readFile` ends. -/
theorem readFile_ends (hfat : sb.fatCnt ≠ 0) (node : FatNode) (count offset : Nat) :
    ∃ bytes, (readFile sb node count offset).run (flatOp sb.partitionStart) flat =
      .ok (flat, bytes) :=
  readFileLoop_ends hfat node _ _ _ (Nat.lt_succ_self _)

end Scans

/-! ## Writing -/

section Writing

variable {sb : FatSb} {fuel i : Nat} {flat flat' : Nat → UInt8} {v v' : Vol} {cs : List Nat}

/-- What `writeFile` clears is in a cluster of the file and in one sector. -/
def ClearFits (sb : FatSb) (node : FatNode) (cs : List Nat) (offset : Nat) : Prop :=
  node.dirent.size < offset → node.dirent.size < cs.length * sb.clusterSize →
    offset % 512 + (sb.clusterSize - node.dirent.size % sb.clusterSize) ≤ 512

/-- The part of the last cluster that is cleared. -/
theorem clearBehind_flat (hl : DataLayout sb) (h : FileState sb flat v i cs) {offset : Nat}
    (hfits : ClearFits sb (v.nodes i) cs offset) :
    ∃ flat', (clearBehind sb (v.nodes i) offset).run (flatOp sb.partitionStart) flat =
      .ok (flat', ()) ∧ Wrote sb i flat v cs flat' v cs := by
  have hsame : Wrote sb i flat v cs flat v cs := .of_bytes hl h fun _ _ => rfl
  unfold clearBehind
  by_cases hgap : (v.nodes i).dirent.size < offset
  · have hfind := @findCluster_flat sb flat (Nat.ne_of_gt hl.fat_cnt) (v.nodes i)
      (v.nodes i).dirent.size
    rw [← chainStart, h.chain.nth hl] at hfind
    rw [if_pos hgap, Prog.run_bind_ok _ hfind]
    cases hc : cs[(v.nodes i).dirent.size / sb.clusterSize]? with
    | none => exact ⟨flat, rfl, hsame⟩
    | some c =>
      have hmem : c ∈ cs := List.mem_of_getElem? hc
      have hdata := h.chain.inData c hmem
      have hleft : (v.nodes i).dirent.size < cs.length * sb.clusterSize := by
        obtain ⟨hlt, -⟩ := List.getElem?_eq_some_iff.mp hc
        exact Nat.lt_mul_of_div_lt hlt hl.clusterSize_pos
      have hsector := hfits hgap hleft
      have hpiece := piece_le hl hsector
      refine ⟨_, clearSector_cluster hl hdata hsector, .of_bytes hl h fun a ha => ?_⟩
      have hout := ha c hmem
      rw [patch, List.length_replicate, if_neg (by omega)]
  · rw [if_neg hgap]
    exact ⟨flat, rfl, hsame⟩

/-- The search for the cluster of an offset ends with it or with a full disk: every cluster
that is appended is one free cluster less. -/
theorem findOrAppend_ends (hl : DataLayout sb) (ht : sb.fatType ≠ .fat32)
    (hfuel : sb.clusterCnt ≤ fuel) (offset m : Nat) :
    ∀ flat v cs, (freeSet sb flat).card ≤ m → FileState sb flat v i cs →
      (v.nodes i).isRoot = false → cs ≠ [] → ∀ n, m + 2 ≤ n →
      ∃ flat' v' r cs', (findOrAppend sb fuel i offset n v).run (flatOp sb.partitionStart) flat =
          .ok (flat', v', r) ∧ Wrote sb i flat v cs flat' v' cs' ∧
        ∀ c, r = some c → cs'[offset / sb.clusterSize]? = some c := by
  induction m with
  | zero =>
    intro flat v cs hcard h hroot hne n hn
    obtain ⟨n, rfl⟩ : ∃ k, n = k + 1 := ⟨n - 1, by omega⟩
    have hfind := @findCluster_flat sb flat (Nat.ne_of_gt hl.fat_cnt) (v.nodes i) offset
    rw [← chainStart, h.chain.nth hl] at hfind
    rw [findOrAppend, Prog.run_bind_ok _ hfind]
    cases hc : cs[offset / sb.clusterSize]? with
    | some c =>
      refine ⟨flat, v, some c, cs, rfl, .of_bytes hl h fun _ _ => rfl, fun d hd => ?_⟩
      rw [hc, hd]
    | none =>
      -- nothing is free: there is no cluster to append
      have hlen := length_le_clusterCnt h.nodup h.chain.inData
      obtain ⟨v', hrun, hw⟩ := @appendCluster_none sb _ fuel hl ht _ _ _ h hroot hne
        (Finset.card_eq_zero.mp (Nat.le_zero.mp hcard)) (Nat.le_trans hlen hfuel)
      refine ⟨flat, v', none, cs, ?_, hw, fun d hd => by cases hd⟩
      dsimp only
      rw [Prog.run_bind_ok _ hrun]
      rfl
  | succ m ih =>
    intro flat v cs hcard h hroot hne n hn
    by_cases hless : (freeSet sb flat).card ≤ m
    · exact ih flat v cs hless h hroot hne n (by omega)
    obtain ⟨n, rfl⟩ : ∃ k, n = k + 1 := ⟨n - 1, by omega⟩
    have hfind := @findCluster_flat sb flat (Nat.ne_of_gt hl.fat_cnt) (v.nodes i) offset
    rw [← chainStart, h.chain.nth hl] at hfind
    rw [findOrAppend, Prog.run_bind_ok _ hfind]
    cases hc : cs[offset / sb.clusterSize]? with
    | some c =>
      refine ⟨flat, v, some c, cs, rfl, .of_bytes hl h fun _ _ => rfl, fun d hd => ?_⟩
      rw [hc, hd]
    | none =>
      have hlen := length_le_clusterCnt h.nodup h.chain.inData
      obtain ⟨c, flat₁, v₁, hrun, hw, -⟩ := @appendCluster_flat sb flat fuel hl ht _ _ _ h hroot hne
        (Finset.card_pos.mp (by omega)) (Nat.le_trans hlen hfuel)
      -- the cluster that has been appended is free no longer
      have hroom := hw.grown.room
      rw [List.length_append, List.length_singleton] at hroom
      obtain ⟨flat', v', r, cs', hrun', hw', hr⟩ := ih flat₁ v₁ (cs ++ [c]) (by omega) hw.state
        (hw.nodes.isRoot.trans hroot) (List.append_ne_nil_of_right_ne_nil _ (List.cons_ne_nil _ _))
        n (by omega)
      refine ⟨flat', v', r, cs', ?_, hw.trans hw', hr⟩
      dsimp only
      rw [Prog.run_bind_ok _ hrun]
      exact hrun'

/-- The loop of `writeFile` ends on a FAT12 or FAT16 volume. -/
theorem writeFileLoop_ends (hl : DataLayout sb) (ht : sb.fatType ≠ .fat32)
    (hfuel : sb.clusterCnt + 2 ≤ fuel) (rounds : Nat) :
    ∀ flat v cs src offset, src.length < rounds → FileState sb flat v i cs →
      (v.nodes i).isRoot = false → cs ≠ [] → ∃ flat' r,
        (writeFileLoop sb fuel i rounds v src offset).run (flatOp sb.partitionStart) flat =
          .ok (flat', r) := by
  induction rounds with
  | zero => exact fun _ _ _ _ _ hlt => absurd hlt (Nat.not_lt_zero _)
  | succ rounds ih =>
    intro flat v cs src offset hlt h hroot hne
    rw [writeFileLoop]
    by_cases hsrc : 0 < src.length
    · obtain ⟨hpos, hn, hsector⟩ := transferNbytes_spec offset hsrc
      -- there are no more rounds of the search than free clusters
      have hcard : (freeSet sb flat).card ≤ sb.clusterCnt := by
        have hle := Finset.card_filter_le (Finset.range sb.clusterCnt)
          fun c => 2 ≤ c ∧ fatLink sb flat c = clusterFree
        rwa [Finset.card_range] at hle
      obtain ⟨flat₁, v₁, r, cs₁, hrun₁, hw₁, hr⟩ := findOrAppend_ends hl ht
        (Nat.le_trans (Nat.le_add_right _ _) hfuel) offset sb.clusterCnt flat v cs hcard h hroot hne
        fuel hfuel
      rw [if_pos hsrc, Prog.run_bind_ok _ hrun₁]
      cases r with
      -- the disk is full
      | none => exact ⟨flat₁, _, rfl⟩
      | some c =>
        obtain ⟨flat₂, hrun₂, hw₂, -⟩ := writePiece_flat hl hw₁.state (hr c rfl)
          (show offset % 512 + (Chunk.take src (transferNbytes src.length (offset % 512))
            (transferNbytes_le ..)).bytes.length ≤ 512 from
              Nat.le_trans (Nat.add_le_add_left (List.length_take_le ..) _) hsector)
        -- a piece has been written, and less is left
        have hw := hw₁.trans hw₂
        obtain ⟨flat₃, r₃, hrun₃⟩ := ih flat₂ v₁ cs₁
          (src.drop (transferNbytes src.length (offset % 512)))
          (offset + transferNbytes src.length (offset % 512))
          (by rw [List.length_drop]; omega) hw.state (hw.nodes.isRoot.trans hroot) fun hnil => by
            have hlen := hw.grown.length_le
            rw [hnil, List.length_nil] at hlen
            exact hne (List.length_eq_zero_iff.mp (Nat.le_zero.mp hlen))
        dsimp only
        rw [Prog.run_bind_ok _ hrun₂, Prog.run_bind_ok _ hrun₃]
        exact ⟨flat₃, _, rfl⟩
    · rw [if_neg hsrc]
      exact ⟨flat, _, rfl⟩

/-- `writeFile` ends: with no data, within the clusters of the file, or on a FAT12 or FAT16
volume for a file that has a cluster. -/
theorem writeFile_ends (hl : DataLayout sb) (hfuel : sb.clusterCnt + 2 ≤ fuel)
    (h : FileState sb flat v i cs) {src : List UInt8} {offset : Nat}
    (hfits : ClearFits sb (v.nodes i) cs offset)
    (hroom : src = [] ∨ offset + src.length ≤ cs.length * sb.clusterSize ∨
      (sb.fatType ≠ .fat32 ∧ (v.nodes i).isRoot = false ∧ cs ≠ [])) :
    ∃ flat' r, (writeFile sb fuel v i src offset).run (flatOp sb.partitionStart) flat =
      .ok (flat', r) := by
  obtain ⟨flat₁, hclear, hw⟩ := clearBehind_flat hl h hfits
  obtain ⟨flat₂, r, hloop⟩ : ∃ flat₂ r, (writeFileLoop sb fuel i (src.length + 1) v src offset).run
      (flatOp sb.partitionStart) flat₁ = .ok (flat₂, r) := by
    rcases hroom with rfl | hin | ⟨ht, hroot, hne⟩
    · exact ⟨flat₁, _, rfl⟩
    · obtain ⟨flat₂, v₂, cs₂, hrun, -⟩ := writeFileLoop_flat hl hfuel (src.length + 1) flat₁ v cs src
        offset (Nat.lt_succ_self _) hw.state (by omega) (.inl hin)
      exact ⟨flat₂, _, hrun⟩
    · exact writeFileLoop_ends hl ht hfuel _ _ _ cs _ _ (Nat.lt_succ_self _) hw.state hroot hne
  obtain ⟨v₂, written, last⟩ := r
  unfold writeFile
  rw [Prog.run_bind_ok _ hclear, Prog.run_bind_ok _ hloop]
  cases last with
  | none => exact ⟨flat₂, _, rfl⟩
  | some last =>
    dsimp only
    split
    · exact ⟨flat₂, _, rfl⟩
    · exact ⟨flat₂, _, rfl⟩

end Writing

end Cheviot.Fatfs
