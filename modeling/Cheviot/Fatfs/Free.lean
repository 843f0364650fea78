import Cheviot.Fatfs.Search

/-!
# Entries that are written, and freeing a chain

`WriteFATEntry` as a change of the bytes of the volume, wherever the FATs are and whatever is
in them. `FreeClusters` marks a cluster free before it goes on to the next; on a FAT32 volume
the mark does not go to the entry of the cluster, and the walk ends where the chain does, if
no mark falls on a link it still needs.

* `writeLink` — the bytes of the volume after `WriteFATEntry`.
* `freeClusters_step` — a round of `FreeClusters`; more rounds do not change how it ends.
* `freeClusters_ends32` — the walk on a FAT32 volume.
-/

namespace Cheviot.Fatfs

open Cheviot.Bytes

/-! ## Writing an entry -/

section Link

variable (sb : FatSb)

/-- The bytes of the volume with a value in the entry of a cluster, in FAT number `f`. -/
def linkCopy (cluster value f : Nat) (flat : Nat → UInt8) : Nat → UInt8 :=
  let start (fatOffset : Nat) : Nat :=
    byteOf sb.partitionStart (fatSector sb f fatOffset) (sectorOffset fatOffset)
  match sb.fatType with
  | .fat12 =>
    let s := start ((cluster + cluster / 2) % 2 ^ 32)
    let word := leWord16 (ringSlice flat s 2)
    ringPatch flat s (leBytes16 (if cluster % 2 = 1 then value % 4096 * 16 + word % 16
      else value % 4096 + word / 4096 * 4096))
  | .fat16 => ringPatch flat (start (cluster * 2 % 2 ^ 32)) (leBytes16 (value % 2 ^ 16))
  | .fat32 => ringPatch flat (start cluster) (leBytes32 value)

/-- `n` FATs from number `f` on, each with the entry written. -/
def linkCopies (cluster value : Nat) : Nat → Nat → (Nat → UInt8) → Nat → UInt8
  | 0, _, flat => flat
  | n + 1, f, flat => linkCopies cluster value n (f + 1) (linkCopy sb cluster value f flat)

/-- The bytes of the volume after `WriteFATEntry`. -/
def writeLink (flat : Nat → UInt8) (cluster value : Nat) : Nat → UInt8 :=
  linkCopies sb cluster (sb.fatType.toFat value) sb.fatCnt 0 flat

variable {sb}

theorem writeFATCopy_linkCopy (cluster value f : Nat) (flat : Nat → UInt8) :
    (writeFATCopy sb cluster f value).run (flatOp sb.partitionStart) flat =
      .ok (linkCopy sb cluster value f flat, ()) := by
  unfold writeFATCopy linkCopy
  cases sb.fatType with
  | fat12 =>
    dsimp only
    generalize hs : byteOf sb.partitionStart (fatSector sb f ((cluster + cluster / 2) % 2 ^ 32))
      (sectorOffset ((cluster + cluster / 2) % 2 ^ 32)) = s
    have hread : (FatM.readSector (fatSector sb f ((cluster + cluster / 2) % 2 ^ 32))
        (sectorOffset ((cluster + cluster / 2) % 2 ^ 32)) 2).run (flatOp sb.partitionStart) flat =
        .ok (flat, ringSlice flat s 2) := by
      rw [← hs]
      rfl
    rw [Prog.run_bind_ok _ hread, word12_eq cluster value (leWord16_lt _), ← hs]
    rfl
  | fat16 => rfl
  | fat32 => rfl

theorem writeFATLoop_linkCopies (cluster n : Nat) : ∀ value f flat,
    (writeFATLoop sb cluster n f value).run (flatOp sb.partitionStart) flat =
      .ok (linkCopies sb cluster (sb.fatType.toFat value) n f flat, ()) := by
  induction n with
  | zero => exact fun value f flat => rfl
  | succ n ih =>
    intro value f flat
    rw [writeFATLoop, Prog.run_bind_ok _ (writeFATCopy_linkCopy cluster _ f flat), ih, toFat_toFat,
      linkCopies]

/-- `WriteFATEntry` does this to the array. -/
theorem writeFATEntry_writeLink (hfat : sb.fatCnt ≠ 0) (cluster value : Nat) (flat : Nat → UInt8) :
    (writeFATEntry sb cluster value).run (flatOp sb.partitionStart) flat =
      .ok (writeLink sb flat cluster value, some ()) := by
  rw [writeFATEntry, Prog.run_bind_ok _ (writeFATLoop_linkCopies cluster sb.fatCnt value 0 flat),
    if_neg hfat]
  rfl

end Link

/-! ## Words -/

section Words

variable {s : Nat}

/-- The word at a place. -/
theorem leWord16_ringSlice (flat : Nat → UInt8) (hs : s < 2 ^ 41) : leWord16 (ringSlice flat s 2) =
    (flat s).toNat + 256 * (flat ((s + 1) % 2 ^ 41)).toNat := by
  show (flat ((s + 0) % 2 ^ 41)).toNat + _ = _
  rw [Nat.add_zero, Nat.mod_eq_of_lt hs]
  rfl

/-- The bytes of a word that is written, and the others. -/
theorem ringPatch_word16 (flat : Nat → UInt8) (hs : s < 2 ^ 41) (x : Nat) :
    (ringPatch flat s (leBytes16 x) s).toNat = x % 256 ∧
    (ringPatch flat s (leBytes16 x) ((s + 1) % 2 ^ 41)).toNat = x / 256 % 256 ∧
    ∀ a, a ≠ s → a ≠ (s + 1) % 2 ^ 41 → ringPatch flat s (leBytes16 x) a = flat a := by
  have hlen : (leBytes16 x).length = 2 := rfl
  refine ⟨?_, ?_, fun a hne0 hne1 => ?_⟩
  · rw [ringPatch_start flat hs (by rw [hlen]; decide)]
    exact UInt8.toNat_ofNat' ..
  · have hd : ((s + 1) % 2 ^ 41 + 2 ^ 41 - s) % 2 ^ 41 = 1 := by omega
    rw [ringPatch, hd, if_pos ⟨Nat.mod_lt _ (by decide), by rw [hlen]; decide⟩]
    exact UInt8.toNat_ofNat' ..
  · rw [ringPatch, if_neg]
    rw [hlen]
    omega

end Words

/-! ## `FreeClusters` -/

section Free

variable {sb : FatSb} {flat flat' : Nat → UInt8}

theorem freeClusters_step (hfat : sb.fatCnt ≠ 0) {cluster : Nat} (h : Allocated cluster)
    (hwrite : (writeFATEntry sb cluster clusterFree).run (flatOp sb.partitionStart) flat =
      .ok (flat', some ())) (fuel : Nat) :
    (freeClusters sb (fuel + 1) cluster).run (flatOp sb.partitionStart) flat =
      (freeClusters sb fuel (fatLink sb flat cluster)).run (flatOp sb.partitionStart) flat' := by
  rw [freeClusters, if_pos h, Prog.run_bind_ok _ (readFATEntry_flat hfat cluster)]
  dsimp only
  rw [Prog.run_bind_ok _ hwrite]

/-- More rounds do not change how it ends. -/
theorem freeClusters_mono (hfat : sb.fatCnt ≠ 0) {fuel more : Nat} (hle : fuel ≤ more) :
    ∀ {flat flat' cluster}, (freeClusters sb fuel cluster).run (flatOp sb.partitionStart) flat =
        .ok (flat', ()) →
      (freeClusters sb more cluster).run (flatOp sb.partitionStart) flat = .ok (flat', ()) := by
  induction fuel generalizing more with
  | zero =>
    intro flat flat' cluster hrun
    cases hrun
  | succ fuel ih =>
    intro flat flat' cluster hrun
    obtain ⟨more, rfl⟩ : ∃ k, more = k + 1 := ⟨more - 1, by omega⟩
    by_cases h : Allocated cluster
    · rw [freeClusters, if_pos h, Prog.run_bind_ok _ (readFATEntry_flat hfat cluster)] at hrun ⊢
      obtain ⟨flat₁, r, hwrite, hrest⟩ := Prog.ok_of_run_bind _ hrun
      refine (Prog.run_bind_ok _ hwrite _).trans ?_
      cases r with
      | none => exact hrest
      | some u => exact ih (Nat.le_of_succ_le_succ hle) hrest
    · rw [freeClusters, if_neg h] at hrun ⊢
      exact hrun

/-- On a FAT32 volume `FreeClusters` ends where the marks miss the links that are still
needed. -/
theorem freeClusters_ends32 (hl : DataLayout sb) (ht : sb.fatType = .fat32) (cs : List Nat) :
    ∀ flat first, IsChain sb flat first cs → cs.Pairwise MarkMisses →
      ∃ flat', (freeClusters sb (cs.length + 1) first).run (flatOp sb.partitionStart) flat =
        .ok (flat', ()) := by
  induction cs with
  | nil =>
    intro flat first h _
    refine ⟨flat, ?_⟩
    rw [freeClusters, if_neg h]
    rfl
  | cons c cs ih =>
    intro flat first h hmiss
    obtain ⟨rfl, hdata, hrest⟩ := h
    obtain ⟨hfirst, hmiss⟩ := List.pairwise_cons.mp hmiss
    obtain ⟨flat₁, hwrite, hw⟩ := writeFATEntry_run hl.toFatLayout (hdata.inside hl)
      clusterFree flat
    have hlink : ∀ d ∈ cs, fatLink sb flat₁ d = fatLink sb flat d :=
      fun d hd => hw.link_of_misses hl ht (hrest.inData d hd) (hfirst d hd)
    obtain ⟨flat', hrun⟩ := ih flat₁ _ (hrest.congr hlink) hmiss
    refine ⟨flat', ?_⟩
    rw [List.length_cons, freeClusters_step (Nat.ne_of_gt hl.fat_cnt) (hdata.allocated hl) hwrite,
      hrun]

end Free

end Cheviot.Fatfs
