import Cheviot.Fatfs.Append

/-!
# Writing to a file

As long as it stays within the clusters of the file, or can append free ones, the loop of
`writeFile` puts the data where it belongs. What it clears in front of a write behind the
end begins at the offset of the write, and not at the end of the file; appended clusters
are not cleared.

The loop is followed round by round. `Wrote` is what a round does to volume and nodes,
`BytesWritten` what it does to the bytes of the file, and both compose. The clusters of the file
and the free ones are together as many as before when one is appended, so that it is known at
the start how far the loop comes.

* `written` — the content of a file after a write.
* `WriteOk` — `writeFile` writes all of the data, and to no other file.
* `writeFile_ok` — so it does where there is no gap and there is room.
-/

namespace Cheviot.Fatfs

open Cheviot.Bytes Cheviot.Segments

/-! ## What writing means -/

/-- The content of a file after a write at an offset, with zeros between its old end and the
offset. -/
def written (old src : List UInt8) (offset : Nat) : List UInt8 :=
  (old ++ List.replicate (offset - old.length) 0).take offset ++ src ++
    old.drop (offset + src.length)

/-- `readFile` reads these bytes of a file. -/
def ReadsFile (sb : FatSb) (c : Cache) (node : FatNode) (bytes : List UInt8) : Prop :=
  ∀ count offset, ∃ c', (readFile sb node count offset).run (cacheOp sb.partitionStart) c =
    .ok (c', (bytes.drop offset).take count)

/-- A volume with files, each of which has its own clusters. -/
structure FilesOk {ι : Type} (sb : FatSb) (flat : Nat → UInt8) (files : ι → FatNode)
    (chains : ι → List Nat) : Prop where
  file : ∀ k, FileAt sb flat (files k) (chains k)
  apart : ∀ k l, k ≠ l → List.Disjoint (chains k) (chains l)
  reserved : Reserved sb flat

/-- Only clusters of the list and free ones are changed, and their entries. -/
structure OnlyChanges (sb : FatSb) (flat flat' : Nat → UInt8) (cs : List Nat) : Prop where
  links : ∀ c, c < sb.clusterCnt + 2 → c ∉ cs → fatLink sb flat c ≠ clusterFree →
    fatLink sb flat' c = fatLink sb flat c
  bytes : ∀ a, ¬ InFats sb a → flat' a ≠ flat a → ∃ c, InData sb c ∧
    (c ∈ cs ∨ fatLink sb flat c = clusterFree) ∧ clusterStart sb c ≤ a ∧
      a < clusterStart sb c + sb.clusterSize

/-- `writeFile` writes all of the data to the file `k`, which then reads as it should;
nothing but clusters of its own and free ones changes, and no other file. -/
def WriteOk {ι : Type} (sb : FatSb) (fuel : Nat) (flat : Nat → UInt8) (c : Cache)
    (files : ι → FatNode) (chains : ι → List Nat) (k : ι) (v : Vol) (i : Nat) (src : List UInt8)
    (offset : Nat) : Prop :=
  ∃ c' v' flat', (writeFile sb fuel v i src offset).run (cacheOp sb.partitionStart) c =
      .ok (c', v', src.length) ∧ Stands c' flat' ∧ OnlyChanges sb flat flat' (chains k) ∧
    (∀ old, ReadsFile sb c (files k) old →
      ReadsFile sb c' (v'.nodes i) (written old src offset)) ∧
    ∀ l, l ≠ k → ∀ old, ReadsFile sb c (files l) old → ReadsFile sb c' (files l) old

/-- There is room up to an offset: in the clusters of the file, or in free ones which are
appended to them. -/
def Room (sb : FatSb) (flat : Nat → UInt8) (node : FatNode) (cs : List Nat) (upto : Nat) : Prop :=
  upto ≤ cs.length * sb.clusterSize ∨
  (sb.fatType ≠ .fat32 ∧ node.isRoot = false ∧ cs ≠ [] ∧
    upto ≤ (cs.length + (freeSet sb flat).card) * sb.clusterSize)

/-- The bytes of the clusters of a file, with those of the free ones. -/
def space (sb : FatSb) (flat : Nat → UInt8) (cs : List Nat) : Nat :=
  (cs.length + (freeSet sb flat).card) * sb.clusterSize

/-- A file that does not need another cluster up to an offset, or one to which they can be
appended. -/
def CanGrow (sb : FatSb) (node : FatNode) (cs : List Nat) (upto : Nat) : Prop :=
  upto ≤ cs.length * sb.clusterSize ∨ (sb.fatType ≠ .fat32 ∧ node.isRoot = false ∧ cs ≠ [])

/-- No cluster has been appended that begins behind an offset. -/
def Tight (sb : FatSb) (cs cs' : List Nat) (upto : Nat) : Prop :=
  cs' = cs ∨ cs'.length * sb.clusterSize < upto + sb.clusterSize

/-! ## The loop -/

section Loop

variable {sb : FatSb} {fuel i : Nat} {flat flat' : Nat → UInt8} {v v' : Vol} {cs cs' : List Nat}
  {node : FatNode}

theorem Room.canGrow {upto : Nat} (h : Room sb flat node cs upto) : CanGrow sb node cs upto := by
  rcases h with hin | ⟨ht, hroot, hne, -⟩
  · exact .inl hin
  · exact .inr ⟨ht, hroot, hne⟩

theorem Room.le_space {upto : Nat} (h : Room sb flat node cs upto) : upto ≤ space sb flat cs := by
  rcases h with hin | ⟨-, -, -, hfree⟩
  · exact Nat.le_trans hin (Nat.mul_le_mul_right _ (Nat.le_add_right ..))
  · exact hfree

theorem Grown.space (h : Grown sb flat cs flat' cs') : space sb flat' cs' = space sb flat cs := by
  rw [Fatfs.space, Fatfs.space, h.room]

theorem Grown.length_le (h : Grown sb flat cs flat' cs') : cs.length ≤ cs'.length := by
  obtain ⟨new, rfl, -⟩ := h.more
  rw [List.length_append]
  exact Nat.le_add_right ..

/-- A file to which clusters can be appended stays one. -/
theorem Wrote.canGrow (h : Wrote sb i flat v cs flat' v' cs') {upto : Nat}
    (hgrow : CanGrow sb (v.nodes i) cs upto) : CanGrow sb (v'.nodes i) cs' upto := by
  have hlen := h.grown.length_le
  rcases hgrow with hin | ⟨ht, hroot, hne⟩
  · exact .inl (Nat.le_trans hin (Nat.mul_le_mul_right _ hlen))
  · refine .inr ⟨ht, h.nodes.isRoot.trans hroot, fun hnil => hne ?_⟩
    rw [hnil, List.length_nil] at hlen
    exact List.length_eq_zero_iff.mp (Nat.le_zero.mp hlen)

/-- The bytes of the file stay where those of its clusters do. -/
theorem Grown.fileByte (hl : DataLayout sb) (h : Grown sb flat cs flat' cs')
    (hbytes : ∀ a, ¬ InFats sb a → flat' a = flat a) {x : Nat}
    (hx : x < cs.length * sb.clusterSize) : fileByte sb flat' cs' x = fileByte sb flat cs x := by
  obtain ⟨new, rfl, -⟩ := h.more
  unfold Fatfs.fileByte
  rw [laid_append hx]
  congr 1
  refine laid_congr hl.clusterSize_pos (fun c _ k _ => hbytes _ ?_) x
  exact not_inFats_of_cluster hl (Nat.le_add_right ..)

/-- `FindCluster` finds the cluster of an offset no further than the end of the clusters,
with one appended if there has to be, and only then. -/
theorem findOrAppend_flat (hl : DataLayout sb) (h : FileState sb flat v i cs) {offset : Nat}
    (hroom : Room sb flat (v.nodes i) cs (offset + 1)) (hle : offset ≤ cs.length * sb.clusterSize)
    (hfuel : sb.clusterCnt ≤ fuel) (n : Nat) :
    ∃ c flat' v' cs', (findOrAppend sb fuel i offset (n + 2) v).run (flatOp sb.partitionStart) flat =
        .ok (flat', v', some c) ∧ Wrote sb i flat v cs flat' v' cs' ∧
      cs'[offset / sb.clusterSize]? = some c ∧ (∀ a, ¬ InFats sb a → flat' a = flat a) ∧
      (cs' = cs ∨ cs'.length * sb.clusterSize ≤ offset + sb.clusterSize) := by
  have hfat := Nat.ne_of_gt hl.fat_cnt
  have hfind := @findCluster_flat sb flat hfat (v.nodes i) offset
  rw [← chainStart, h.chain.nth hl] at hfind
  rw [findOrAppend, Prog.run_bind_ok _ hfind]
  by_cases hlt : offset < cs.length * sb.clusterSize
  · obtain ⟨c, hc, -⟩ := exists_segment hlt
    refine ⟨c, flat, v, cs, ?_, .of_bytes hl h fun _ _ => rfl, hc, fun _ _ => rfl, .inl rfl⟩
    rw [hc]
    rfl
  · -- the offset is that of the next cluster
    have hdiv : offset / sb.clusterSize = cs.length := by
      rw [Nat.le_antisymm hle (Nat.le_of_not_lt hlt), Nat.mul_div_cancel _ hl.clusterSize_pos]
    rcases hroom with hin | ⟨ht, hroot, hne, hfree⟩
    · exact absurd hin (by omega)
    have hnonempty : (freeSet sb flat).Nonempty := by
      rw [← Finset.card_pos]
      by_contra hzero
      rw [show cs.length + (freeSet sb flat).card = cs.length by omega] at hfree
      omega
    have hlen := length_le_clusterCnt h.nodup h.chain.inData
    obtain ⟨c, flat', v', hrun, hw, hbytes⟩ := @appendCluster_flat sb flat fuel hl ht _ _ _ h hroot hne
      hnonempty (Nat.le_trans hlen hfuel)
    have hc : (cs ++ [c])[offset / sb.clusterSize]? = some c := by
      rw [hdiv, List.getElem?_concat_length]
    have hfind' := @findCluster_flat sb flat' hfat (v'.nodes i) offset
    rw [← chainStart, hw.state.chain.nth hl, hc] at hfind'
    have hend : (cs ++ [c]).length * sb.clusterSize ≤ offset + sb.clusterSize := by
      rw [List.length_append, List.length_singleton, Nat.succ_mul]
      exact Nat.add_le_add_right (Nat.le_of_not_lt hlt) _
    refine ⟨c, flat', v', cs ++ [c], ?_, hw, hc, hbytes, .inr hend⟩
    rw [hdiv, List.getElem?_eq_none (Nat.le_refl _)]
    dsimp only
    rw [Prog.run_bind_ok _ hrun]
    dsimp only
    rw [findOrAppend, Prog.run_bind_ok _ hfind']
    rfl

/-- What is in the file after a write. -/
structure BytesWritten (sb : FatSb) (flat : Nat → UInt8) (cs : List Nat) (flat' : Nat → UInt8)
    (cs' : List Nat) (src : List UInt8) (offset : Nat) : Prop where
  fits : offset + src.length ≤ cs'.length * sb.clusterSize
  new : ∀ j, j < src.length → fileByte sb flat' cs' (offset + j) = src.getD j 0
  old : ∀ x, x < offset ∨ offset + src.length ≤ x → x < cs.length * sb.clusterSize →
    fileByte sb flat' cs' x = fileByte sb flat cs x

/-- A round of the loop of `writeFile` writes a piece of a sector. -/
theorem writePiece_flat (hl : DataLayout sb) (h : FileState sb flat v i cs) {offset c : Nat}
    (hc : cs[offset / sb.clusterSize]? = some c) {data : Chunk}
    (hsector : offset % 512 + data.bytes.length ≤ 512) :
    ∃ flat', (FatM.writeSector data (sectorInCluster sb c offset) (sectorOffset offset)).run
        (flatOp sb.partitionStart) flat = .ok (flat', ()) ∧ Wrote sb i flat v cs flat' v cs ∧
      BytesWritten sb flat cs flat' cs data.bytes offset := by
  have hmem : c ∈ cs := List.mem_of_getElem? hc
  have hdata := h.chain.inData c hmem
  have hpiece := piece_le hl hsector
  obtain ⟨hlt, -⟩ := List.getElem?_eq_some_iff.mp hc
  have hother : ∀ a, a < clusterStart sb c + offset % sb.clusterSize ∨
      clusterStart sb c + offset % sb.clusterSize + data.bytes.length ≤ a →
      patch flat (clusterStart sb c + offset % sb.clusterSize) data.bytes a = flat a := by
    intro a ha
    rw [patch, if_neg (by omega)]
  refine ⟨_, writeSector_cluster hl hdata hsector, .of_bytes hl h fun a ha => hother a ?_, ?_, ?_, ?_⟩
  · have := ha c hmem
    omega
  · have hsplit := Nat.mod_add_div offset sb.clusterSize
    have hmul := Nat.mul_le_mul_right sb.clusterSize (Nat.succ_le_of_lt hlt)
    rw [Nat.succ_mul, Nat.mul_comm (offset / sb.clusterSize)] at hmul
    omega
  · intro j hj
    rw [fileByte_piece hc hpiece hj, patch, if_pos (by omega), Nat.add_sub_cancel_left]
  · intro x hx _
    unfold fileByte
    rw [laid_other hl.clusterSize_pos h.nodup (fun d hd hne => ?_) hc hpiece hother hx]
    exact clusterStart_apart hdata (h.chain.inData d hd) hne

theorem BytesWritten.trans {flat'' : Nat → UInt8} {cs'' : List Nat} {src : List UInt8}
    {offset n : Nat} (hn : n ≤ src.length)
    (h : BytesWritten sb flat cs flat' cs' (src.take n) offset)
    (h' : BytesWritten sb flat' cs' flat'' cs'' (src.drop n) (offset + n))
    (hlen : cs.length ≤ cs'.length) : BytesWritten sb flat cs flat'' cs'' src offset := by
  have htake : (src.take n).length = n := by rw [List.length_take, Nat.min_eq_left hn]
  have hdrop : (src.drop n).length = src.length - n := List.length_drop
  obtain ⟨hfits, hnew, hold⟩ := h
  obtain ⟨hfits', hnew', hold'⟩ := h'
  rw [htake] at hfits hnew hold
  rw [hdrop] at hfits' hnew' hold'
  have hmul := Nat.mul_le_mul_right sb.clusterSize hlen
  refine ⟨by omega, fun j hj => ?_, fun x hx hlt => ?_⟩
  · by_cases hjn : j < n
    · rw [hold' _ (.inl (by omega)) (by omega), hnew j hjn, List.getD_eq_getElem?_getD,
        List.getD_eq_getElem?_getD, List.getElem?_take_of_lt hjn]
    · have hlast := hnew' (j - n) (by omega)
      rw [show offset + n + (j - n) = offset + j by omega] at hlast
      rw [hlast, List.getD_eq_getElem?_getD, List.getD_eq_getElem?_getD, List.getElem?_drop,
        show n + (j - n) = j by omega]
  · rw [hold' x (by omega) (by omega), hold x (by omega) hlt]

/-- There are no bytes left for the data, or a cluster has some at an offset no further than the
end of the clusters. -/
theorem room_of_space (hl : DataLayout sb) {node : FatNode} {offset n : Nat} (hn : 0 < n)
    (hgrow : CanGrow sb node cs (offset + n)) (hle : offset ≤ cs.length * sb.clusterSize) :
    (offset = cs.length * sb.clusterSize ∧ freeSet sb flat = ∅ ∧ sb.fatType ≠ .fat32 ∧
      node.isRoot = false ∧ cs ≠ []) ∨ Room sb flat node cs (offset + 1) := by
  rcases hgrow with hin | ⟨ht, hroot, hne⟩
  · exact .inr (.inl (by omega))
  rcases Nat.lt_or_ge offset (cs.length * sb.clusterSize) with hlt | hge
  · exact .inr (.inl hlt)
  rcases Nat.eq_zero_or_pos (freeSet sb flat).card with hzero | hfree
  · exact .inl ⟨Nat.le_antisymm hle hge, Finset.card_eq_zero.mp hzero, ht, hroot, hne⟩
  · have hmul := Nat.mul_le_mul_right sb.clusterSize (Nat.add_le_add_left hfree cs.length)
    have hpos := hl.clusterSize_pos
    rw [Nat.succ_mul] at hmul
    exact .inr (.inr ⟨ht, hroot, hne, by omega⟩)

/-- The bytes of a piece, and as many of those behind it as have been written. -/
theorem BytesWritten.trans_take {flat'' : Nat → UInt8} {cs'' : List Nat} {src : List UInt8}
    {offset n k : Nat} (hn : n ≤ src.length)
    (h : BytesWritten sb flat cs flat' cs' (src.take n) offset)
    (h' : BytesWritten sb flat' cs' flat'' cs'' ((src.drop n).take k) (offset + n))
    (hlen : cs.length ≤ cs'.length) :
    BytesWritten sb flat cs flat'' cs'' (src.take (n + k)) offset := by
  rw [← Nat.min_eq_left (Nat.le_add_right n k), ← List.take_take] at h
  rw [← Nat.add_sub_cancel_left (n := n) (m := k), ← List.drop_take] at h'
  exact h.trans (by rw [List.length_take]; omega) h' hlen

/-- Rounds that append no cluster too many, one after the other. -/
theorem Tight.trans {cs'' : List Nat} {upto upto' : Nat} (h : Tight sb cs cs' upto)
    (h' : Tight sb cs' cs'' upto') (hle : upto ≤ upto') : Tight sb cs cs'' upto' := by
  rcases h' with rfl | hlt
  · rcases h with rfl | hlt
    · exact .inl rfl
    · exact .inr (by omega)
  · exact .inr hlt

/-- At the end of the clusters, when none is free, there is no cluster for the bytes. -/
theorem findOrAppend_full (hl : DataLayout sb) (ht : sb.fatType ≠ .fat32)
    (h : FileState sb flat v i cs) (hroot : (v.nodes i).isRoot = false) (hne : cs ≠ [])
    (hfull : freeSet sb flat = ∅) {offset : Nat} (hend : offset = cs.length * sb.clusterSize)
    (hfuel : sb.clusterCnt ≤ fuel) (rounds : Nat) :
    ∃ v', (findOrAppend sb fuel i offset (rounds + 1) v).run (flatOp sb.partitionStart) flat =
        .ok (flat, v', none) ∧ Wrote sb i flat v cs flat v' cs := by
  have hfind := @findCluster_flat sb flat (Nat.ne_of_gt hl.fat_cnt) (v.nodes i) offset
  rw [← chainStart, h.chain.nth hl, hend, Nat.mul_div_cancel _ hl.clusterSize_pos,
    List.getElem?_eq_none (Nat.le_refl _), ← hend] at hfind
  have hlen := length_le_clusterCnt h.nodup h.chain.inData
  obtain ⟨v', hrun, hw⟩ := @appendCluster_none sb flat fuel hl ht _ _ _ h hroot hne hfull
    (by omega)
  refine ⟨v', ?_, hw⟩
  rw [findOrAppend, Prog.run_bind_ok _ hfind]
  dsimp only
  rw [Prog.run_bind_ok _ hrun]
  rfl

/-- The loop of `writeFile` writes the data to the file as far as there are bytes for it, with
clusters appended as they are needed. -/
theorem writeFileLoop_run (hl : DataLayout sb) (hfuel : sb.clusterCnt + 2 ≤ fuel) (rounds : Nat) :
    ∀ flat v cs src offset, src.length < rounds → FileState sb flat v i cs →
      offset ≤ cs.length * sb.clusterSize → CanGrow sb (v.nodes i) cs (offset + src.length) →
      ∃ n flat' v' cs', n = min src.length (space sb flat cs - offset) ∧
        (writeFileLoop sb fuel i rounds v src offset).run (flatOp sb.partitionStart) flat =
          .ok (flat', v', n, if n = src.length then some (offset + n) else none) ∧
        Wrote sb i flat v cs flat' v' cs' ∧
        BytesWritten sb flat cs flat' cs' (src.take n) offset ∧ Tight sb cs cs' (offset + n) := by
  induction rounds with
  | zero => exact fun _ _ _ _ _ hlt => absurd hlt (Nat.not_lt_zero _)
  | succ rounds ih =>
    intro flat v cs src offset hlt h hle hgrow
    obtain ⟨m, rfl⟩ : ∃ m, fuel = m + 2 := ⟨fuel - 2, by omega⟩
    rw [writeFileLoop]
    by_cases hsrc : 0 < src.length
    · rw [if_pos hsrc]
      rcases @room_of_space sb flat cs hl _ _ _ hsrc hgrow hle with
        ⟨hend, hfull, ht, hroot, hne⟩ | hroom
      · -- no cluster can be appended
        have hspace : space sb flat cs = offset := by
          rw [space, hfull, Finset.card_empty, hend, Nat.add_zero]
        obtain ⟨v', hnone, hw⟩ := findOrAppend_full hl ht h hroot hne hfull hend
          (show sb.clusterCnt ≤ m + 2 by omega) (m + 1)
        refine ⟨0, flat, v', cs, ?_, ?_, hw, ⟨hle, fun j hj => absurd hj (Nat.not_lt_zero j),
          fun _ _ _ => rfl⟩, .inl rfl⟩
        · rw [hspace, Nat.sub_self, Nat.min_zero]
        · rw [Prog.run_bind_ok _ hnone, if_neg (Nat.ne_of_lt hsrc)]
          rfl
      · -- a piece is written, to a cluster that may have been appended for it
        obtain ⟨hpos, hn, hsector⟩ := transferNbytes_spec offset hsrc
        obtain ⟨c, flat₁, v₁, cs₁, hrun₁, hw₁, hc, hbytes₁, htight₁⟩ := findOrAppend_flat hl h hroom
          hle (show sb.clusterCnt ≤ m + 2 by omega) m
        obtain ⟨n, hndef⟩ : ∃ n, n = transferNbytes src.length (offset % 512) := ⟨_, rfl⟩
        rw [← hndef] at hpos hn hsector
        have hn512 : n ≤ 512 := by omega
        have htake : (src.take n).length = n := by rw [List.length_take, Nat.min_eq_left hn]
        obtain ⟨flat₂, hrun₂, hw₂, hb₂⟩ := writePiece_flat hl hw₁.state hc
          (show offset % 512 + (Chunk.take src n hn512).bytes.length ≤ 512 by
            rwa [show (Chunk.take src n hn512).bytes.length = n from htake])
        have hw := hw₁.trans hw₂
        have hfits : offset + n ≤ cs₁.length * sb.clusterSize := by
          have hfits := hb₂.fits
          rwa [show (Chunk.take src n hn512).bytes.length = n from htake] at hfits
        have hdrop : offset + n + (src.drop n).length = offset + src.length := by
          rw [List.length_drop]
          omega
        -- and the rest of the data behind it
        obtain ⟨k, flat₃, v₃, cs₃, hk, hrun₃, hw₃, hb₃, htight₃⟩ := ih flat₂ v₁ cs₁ (src.drop n)
          (offset + n) (by rw [List.length_drop]; omega) hw₂.state hfits
          (by rw [hdrop]; exact hw.canGrow hgrow)
        have hb₁ : BytesWritten sb flat cs flat₂ cs₁ (src.take n) offset :=
          ⟨hb₂.fits, hb₂.new, fun x hx hlt' => by
            have hmul := Nat.mul_le_mul_right sb.clusterSize hw₁.grown.length_le
            rw [hb₂.old x hx (by omega)]
            exact hw₁.grown.fileByte hl hbytes₁ hlt'⟩
        -- a cluster that is appended is a free one less: the space stays as it is
        have hspace : space sb flat₂ cs₁ = space sb flat cs := hw.grown.space
        have hspace₁ : offset + n ≤ space sb flat₂ cs₁ :=
          Nat.le_trans hfits (Nat.mul_le_mul_right _ (Nat.le_add_right ..))
        rw [List.length_drop, hspace] at hk
        rw [hspace] at hspace₁
        have htight₁ : Tight sb cs cs₁ (offset + 1) := htight₁.imp_right fun hle₁ => by omega
        have htight := htight₁.trans htight₃ (by omega)
        rw [Nat.add_assoc] at htight
        refine ⟨n + k, flat₃, v₃, cs₃, by omega, ?_, hw.trans hw₃,
          hb₁.trans_take hn hb₃ hw₁.grown.length_le, htight⟩
        rw [Prog.run_bind_ok _ hrun₁]
        dsimp only
        subst hndef
        rw [Prog.run_bind_ok _ hrun₂, Prog.run_bind_ok _ hrun₃]
        dsimp only
        rw [List.length_drop, Nat.add_assoc]
        by_cases hall : transferNbytes src.length (offset % 512) + k = src.length
        · rw [if_pos hall, if_pos (by omega)]
          rfl
        · rw [if_neg hall, if_neg (by omega)]
          rfl
    · -- nothing is left to write
      have hnil : src = [] := List.length_eq_zero_iff.mp (by omega)
      subst hnil
      refine ⟨0, flat, v, cs, ?_, ?_, .of_bytes hl h fun _ _ => rfl, ⟨hle,
        fun j hj => absurd hj (Nat.not_lt_zero j), fun _ _ _ => rfl⟩, .inl rfl⟩
      · rw [List.length_nil, Nat.zero_min]
      · rfl

/-- All of the data, where there is room. -/
theorem writeFileLoop_flat (hl : DataLayout sb) (hfuel : sb.clusterCnt + 2 ≤ fuel) (rounds : Nat)
    (flat : Nat → UInt8) (v : Vol) (cs : List Nat) (src : List UInt8) (offset : Nat)
    (hlt : src.length < rounds) (h : FileState sb flat v i cs)
    (hle : offset ≤ cs.length * sb.clusterSize)
    (hroom : Room sb flat (v.nodes i) cs (offset + src.length)) :
    ∃ flat' v' cs', (writeFileLoop sb fuel i rounds v src offset).run (flatOp sb.partitionStart)
        flat = .ok (flat', v', src.length, some (offset + src.length)) ∧
      Wrote sb i flat v cs flat' v' cs' ∧ BytesWritten sb flat cs flat' cs' src offset := by
  obtain ⟨n, flat', v', cs', hn, hrun, hw, hb, -⟩ := writeFileLoop_run hl hfuel rounds flat v cs src
    offset hlt h hle hroom.canGrow
  have hspace := hroom.le_space
  obtain rfl : n = src.length := by omega
  rw [if_pos rfl] at hrun
  rw [List.take_length] at hb
  exact ⟨flat', v', cs', hrun, hw, hb⟩

end Loop

/-! ## The content of the file -/

section Content

variable {sb : FatSb} {flat flat' : Nat → UInt8} {cs cs' : List Nat}

theorem slice_congr {f g : Nat → UInt8} {start n : Nat}
    (h : ∀ j, j < n → f (start + j) = g (start + j)) : slice f start n = slice g start n :=
  List.map_congr_left fun j hj => h j (List.mem_range.mp hj)

theorem content_length (cs : List Nat) (size : Nat) : (content sb flat cs size).length = size :=
  slice_length ..

/-- The bytes of a file that has been written are the content it should have. -/
theorem BytesWritten.content {src : List UInt8} {offset size : Nat}
    (h : BytesWritten sb flat cs flat' cs' src offset) (hin : offset ≤ size)
    (hsize : size ≤ cs.length * sb.clusterSize) :
    content sb flat' cs' (max size (offset + src.length)) =
      written (content sb flat cs size) src offset := by
  have hfront : slice (fileByte sb flat' cs') 0 offset =
      (Fatfs.content sb flat cs size).take offset := by
    have htake := take_drop_slice (fileByte sb flat cs) size 0 offset
    rw [List.drop_zero, Nat.sub_zero, Nat.min_eq_left hin] at htake
    rw [Fatfs.content, htake]
    refine slice_congr fun j hj => h.old _ (.inl (by omega)) (by omega)
  have hmid : slice (fileByte sb flat' cs') offset src.length = src := by
    apply List.ext_getElem
    · exact slice_length ..
    · intro j h1 h2
      rw [getElem_slice, h.new j h2, List.getD_eq_getElem _ _ h2]
  have hback : slice (fileByte sb flat' cs') (offset + src.length) (size - (offset + src.length)) =
      (Fatfs.content sb flat cs size).drop (offset + src.length) := by
    have hdrop := take_drop_slice (fileByte sb flat cs) size (offset + src.length) size
    rw [Nat.min_eq_right (Nat.sub_le ..), List.take_of_length_le (by
      rw [List.length_drop, slice_length]
      exact Nat.sub_le ..)] at hdrop
    rw [Fatfs.content, hdrop]
    refine slice_congr fun j hj => h.old _ (.inr (by omega)) (by omega)
  rw [written, content_length, Nat.sub_eq_zero_of_le hin, List.replicate_zero, List.append_nil,
    ← hfront, ← hback]
  have hjoin := slice_append (fileByte sb flat' cs') 0 offset src.length
  rw [Nat.zero_add, hmid] at hjoin
  have hall := slice_append (fileByte sb flat' cs') 0 (offset + src.length)
    (size - (offset + src.length))
  rw [Nat.zero_add] at hall
  rw [hjoin, hall, Fatfs.content]
  congr 1
  omega

/-- Bytes that are put into an entry are there. -/
theorem FatDirEntry.getBytes_setBytes {dirent : FatDirEntry} {o : Nat} {l : List UInt8}
    (h : o + l.length ≤ 32) : getBytes (dirent.setBytes o l).byte o l.length = l := by
  apply List.ext_getElem
  · exact getBytes_length ..
  · intro j h1 h2
    simp only [getBytes, List.getElem_map, List.getElem_range]
    rw [byte_setBytes (by omega), stBytes_apply (by omega) (by omega), Nat.add_sub_cancel_left,
      List.getD_eq_getElem _ _ h2]

theorem FatNode.size_withSize (node : FatNode) {size : Nat} (h : size < 2 ^ 32) :
    (node.withSize size).dirent.size = size := by
  have hbytes : getBytes (node.withSize size).dirent.byte 28 4 = leBytes32 size :=
    FatDirEntry.getBytes_setBytes (show 28 + 4 ≤ 32 by decide)
  rw [FatDirEntry.size, hbytes, leWord32_bytes h]

theorem FatNode.chainStart_withSize (node : FatNode) (size : Nat) :
    chainStart sb (node.withSize size) = chainStart sb node := by
  have hlen : (leBytes32 size).length = 4 := rfl
  have hword : ∀ o, o + 2 ≤ 28 → leWord16 (getBytes (node.withSize size).dirent.byte o 2) =
      leWord16 (getBytes node.dirent.byte o 2) :=
    fun o ho => FatDirEntry.word_setBytes_ne (by omega) (.inl ho)
  unfold chainStart getFirstCluster rawFirstCluster FatDirEntry.firstClusterLo
    FatDirEntry.firstClusterHi
  rw [hword 26 (by decide), hword 20 (by decide)]
  rfl

/-- What `writeFile` has done to a file, with `n` bytes of the data written: the file keeps its
size where these are not all. -/
structure Stored (sb : FatSb) (i : Nat) (flat : Nat → UInt8) (v : Vol) (cs : List Nat)
    (flat' : Nat → UInt8) (v' : Vol) (cs' : List Nat) (src : List UInt8) (offset n : Nat) :
    Prop where
  state : FileState sb flat' v' i cs'
  grown : Grown sb flat cs flat' cs'
  bytes : BytesWritten sb flat cs flat' cs' (src.take n) offset
  tight : Tight sb cs cs' (offset + n)
  size : (v'.nodes i).dirent.size = if n = src.length then max (v.nodes i).dirent.size (offset + n)
    else (v.nodes i).dirent.size
  others : ∀ j, j ≠ i → v'.nodes j = v.nodes j

/-- `writeFile` within a file or from its end on writes as much as there are bytes for. -/
theorem writeFile_run (hl : DataLayout sb) {fuel : Nat} (hfuel : sb.clusterCnt + 2 ≤ fuel)
    {v : Vol} {i : Nat} {src : List UInt8} {offset : Nat} (h : FileState sb flat v i cs)
    (hin : offset ≤ (v.nodes i).dirent.size)
    (hgrow : CanGrow sb (v.nodes i) cs (offset + src.length))
    (hbits : offset + src.length < 2 ^ 32) :
    ∃ n flat' v' cs', n = min src.length (space sb flat cs - offset) ∧
      (writeFile sb fuel v i src offset).run (flatOp sb.partitionStart) flat =
        .ok (flat', v', n) ∧ Stored sb i flat v cs flat' v' cs' src offset n := by
  have hclear : (clearBehind sb (v.nodes i) offset).run (flatOp sb.partitionStart) flat =
      .ok (flat, ()) := by
    rw [clearBehind, if_neg (Nat.not_lt.mpr hin)]
    rfl
  obtain ⟨n, flat', v', cs', hn, hrun, hw, hb, htight⟩ := writeFileLoop_run hl hfuel
    (src.length + 1) flat v cs src offset (Nat.lt_succ_self _) h (Nat.le_trans hin h.size) hgrow
  unfold writeFile
  rw [Prog.run_bind_ok _ hclear, Prog.run_bind_ok _ hrun]
  by_cases hall : n = src.length
  · subst hall
    rw [if_pos rfl]
    dsimp only
    by_cases hlonger : (v.nodes i).dirent.size < offset + src.length
    · -- the size is set in the node
      have hnode : (v'.setNode i ((v'.nodes i).withSize (offset + src.length))).nodes i =
          (v'.nodes i).withSize (offset + src.length) := by
        rw [Vol.setNode_apply, if_pos rfl]
      have hfits := hb.fits
      rw [List.take_length] at hfits
      refine ⟨src.length, flat', v'.setNode i ((v'.nodes i).withSize (offset + src.length)), cs',
        hn, ?_, ⟨⟨?_, hw.state.nodup, hw.state.used, ?_, ?_⟩, hw.state.start, hw.state.reserved⟩,
        hw.grown, hb, htight, ?_, fun j hj => ?_⟩
      · rw [hw.nodes.dirent, if_pos hlonger]
        rfl
      · rw [hnode, FatNode.chainStart_withSize]
        exact hw.state.chain
      · rw [hnode]
        exact hw.state.hint
      · rw [hnode, FatNode.size_withSize _ hbits]
        exact hfits
      · rw [hnode, FatNode.size_withSize _ hbits, if_pos rfl, Nat.max_eq_right (Nat.le_of_lt hlonger)]
      · rw [Vol.setNode_apply, if_neg hj]
        exact hw.nodes.others j hj
    · refine ⟨src.length, flat', v', cs', hn, ?_, hw.state, hw.grown, hb, htight, ?_,
        hw.nodes.others⟩
      · rw [hw.nodes.dirent, if_neg hlonger]
        rfl
      · rw [hw.nodes.dirent, if_pos rfl, Nat.max_eq_left (Nat.le_of_not_lt hlonger)]
  · -- the disk was full: `writeFile` leaves before it sets a size
    rw [if_neg hall]
    refine ⟨n, flat', v', cs', hn, rfl, hw.state, hw.grown, hb, htight, ?_, hw.nodes.others⟩
    rw [hw.nodes.dirent, if_neg hall]

/-- `writeFile` within a file or from its end on, where there is room. -/
theorem writeFile_flat (hl : DataLayout sb) {fuel : Nat} (hfuel : sb.clusterCnt + 2 ≤ fuel)
    {v : Vol} {i : Nat} {src : List UInt8} {offset : Nat} (h : FileState sb flat v i cs)
    (hin : offset ≤ (v.nodes i).dirent.size)
    (hroom : Room sb flat (v.nodes i) cs (offset + src.length))
    (hbits : offset + src.length < 2 ^ 32) :
    ∃ flat' v' cs', (writeFile sb fuel v i src offset).run (flatOp sb.partitionStart) flat =
        .ok (flat', v', src.length) ∧ FileState sb flat' v' i cs' ∧ Grown sb flat cs flat' cs' ∧
      content sb flat' cs' (v'.nodes i).dirent.size =
        written (content sb flat cs (v.nodes i).dirent.size) src offset ∧
      ∀ j, j ≠ i → v'.nodes j = v.nodes j := by
  obtain ⟨n, flat', v', cs', hn, hrun, hs⟩ := writeFile_run hl hfuel h hin hroom.canGrow hbits
  have hspace := hroom.le_space
  obtain rfl : n = src.length := by omega
  have hb := hs.bytes
  have hsize := hs.size
  rw [List.take_length] at hb
  rw [if_pos rfl] at hsize
  refine ⟨flat', v', cs', hrun, hs.state, hs.grown, ?_, hs.others⟩
  rw [hsize, hb.content hin h.size]

/-- Behind the end of a file with clusters left, `writeFile` ends with a null pointer unless
what it clears stays within the sector of the write. -/
theorem writeFile_gap_fault (hl : DataLayout sb) {fuel : Nat} {v : Vol} {i : Nat}
    {src : List UInt8} {offset : Nat} (h : FileAt sb flat (v.nodes i) cs)
    (hgap : (v.nodes i).dirent.size < offset)
    (hleft : (v.nodes i).dirent.size < cs.length * sb.clusterSize)
    (hpast : 512 < offset % 512 + (sb.clusterSize - (v.nodes i).dirent.size % sb.clusterSize)) :
    (writeFile sb fuel v i src offset).run (flatOp sb.partitionStart) flat =
      .error .wildPointer := by
  have hfind := @findCluster_flat sb flat (Nat.ne_of_gt hl.fat_cnt) (v.nodes i)
    (v.nodes i).dirent.size
  obtain ⟨c, hc, -⟩ := exists_segment hleft
  rw [← chainStart, h.chain.nth hl, hc] at hfind
  have hclear : (clearBehind sb (v.nodes i) offset).run (flatOp sb.partitionStart) flat =
      .error .wildPointer := by
    rw [clearBehind, if_pos hgap, Prog.run_bind_ok _ hfind]
    dsimp only
    rw [FatM.clearSector, Prog.run_op, flatOp, sectorOffset]
    exact if_neg (Nat.not_le.mpr hpast)
  rw [writeFile, Prog.run_bind_error _ hclear]

end Content

/-! ## On the block cache -/

section Files

variable {sb : FatSb} {fuel : Nat} {flat flat' : Nat → UInt8} {c : Cache}

/-- What a file reads as, from the bytes the cache stands for. -/
theorem ReadsFile.of_stands (hl : DataLayout sb) {node : FatNode} {cs : List Nat}
    (hc : Stands c flat) (h : FileAt sb flat node cs) :
    ReadsFile sb c node (content sb flat cs node.dirent.size) := by
  intro count offset
  have hsim := run_cache_flat sb.partitionStart (readFile sb node count offset) hc
  rw [readFile_flat hl h.chain h.size] at hsim
  obtain ⟨c', hrun, -⟩ := hsim
  exact ⟨c', hrun⟩

/-- A file reads as one content. -/
theorem ReadsFile.unique {node : FatNode} {bytes bytes' : List UInt8}
    (h : ReadsFile sb c node bytes) (h' : ReadsFile sb c node bytes') : bytes = bytes' := by
  obtain ⟨c₁, hrun⟩ := h (max bytes.length bytes'.length) 0
  obtain ⟨c₂, hrun'⟩ := h' (max bytes.length bytes'.length) 0
  rw [hrun, Except.ok.injEq, Prod.mk.injEq, List.drop_zero, List.drop_zero,
    List.take_of_length_le (Nat.le_max_left ..), List.take_of_length_le (Nat.le_max_right ..)]
    at hrun'
  exact hrun'.2

/-- A chain stays as it is, and its bytes, when clusters are appended to another one. -/
theorem Grown.chain {cs cs' ds : List Nat} {first : Nat} (hl : DataLayout sb)
    (h : Grown sb flat cs flat' cs') (hchain : IsChain sb flat first ds)
    (hused : ∀ c ∈ ds, fatLink sb flat c ≠ clusterFree) (hapart : List.Disjoint ds cs)
    (hcs : ∀ c ∈ cs, InData sb c) :
    IsChain sb flat' first ds ∧ (∀ c ∈ ds, fatLink sb flat' c ≠ clusterFree) ∧
      List.Disjoint ds cs' ∧ Fatfs.fileByte sb flat' ds = Fatfs.fileByte sb flat ds := by
  obtain ⟨new, rfl, hnew⟩ := h.more
  have hlink : ∀ c ∈ ds, fatLink sb flat' c = fatLink sb flat c := by
    intro c hc
    exact h.links c (hchain.inData c hc).2 (fun hmem => hapart hc hmem) (hused c hc)
  have hout : ∀ c ∈ ds, ∀ d ∈ cs ++ new, InData sb d ∧ d ≠ c := by
    intro c hc d hd
    rcases List.mem_append.mp hd with hd | hd
    · exact ⟨hcs d hd, fun heq => hapart hc (heq ▸ hd)⟩
    · exact ⟨inData_of_mem_freeSet (hnew d hd),
        fun heq => hused c hc (heq ▸ (mem_freeSet.mp (hnew d hd)).2.2)⟩
  refine ⟨hchain.congr hlink, fun c hc => ?_, fun c hc hd => (hout c hc c hd).2 rfl,
    funext fun x => ?_⟩
  · rw [hlink c hc]
    exact hused c hc
  · unfold Fatfs.fileByte
    rw [laid_congr hl.clusterSize_pos fun c hc k hk => ?_]
    refine h.outside _ (not_inFats_of_cluster hl (Nat.le_add_right ..)) fun d hd => ?_
    obtain ⟨hdata, hne⟩ := hout c hc d hd
    rcases clusterStart_apart (hchain.inData c hc) hdata hne with hlo | hhi
    · exact .inl (by omega)
    · exact .inr (by omega)

/-- A file stays as it is when clusters are appended to another one. -/
theorem Grown.other {cs cs' ds : List Nat} {node : FatNode} (hl : DataLayout sb)
    (h : Grown sb flat cs flat' cs') (hfile : FileAt sb flat node ds)
    (hapart : List.Disjoint ds cs) (hcs : ∀ c ∈ cs, InData sb c) :
    FileAt sb flat' node ds ∧
      content sb flat' ds node.dirent.size = content sb flat ds node.dirent.size := by
  obtain ⟨hchain, hused, -, hbytes⟩ := h.chain hl hfile.chain hfile.used hapart hcs
  refine ⟨⟨hchain, hfile.nodup, hused, hfile.hint, hfile.size⟩, ?_⟩
  rw [content, content, hbytes]

theorem Grown.onlyChanges {cs cs' : List Nat} (h : Grown sb flat cs flat' cs')
    (hcs : ∀ c ∈ cs, InData sb c) : OnlyChanges sb flat flat' cs := by
  obtain ⟨new, rfl, hnew⟩ := h.more
  refine ⟨h.links, fun a ha hne => ?_⟩
  by_contra hnone
  refine hne (h.outside a ha fun c hc => ?_)
  by_contra hin
  refine hnone ⟨c, ?_, ?_, by omega, by omega⟩
  · rcases List.mem_append.mp hc with hc | hc
    · exact hcs c hc
    · exact inData_of_mem_freeSet (hnew c hc)
  · rcases List.mem_append.mp hc with hc | hc
    · exact .inl hc
    · exact .inr (mem_freeSet.mp (hnew c hc)).2.2

end Files

/-! ## A volume with one file -/

/-- A device with a file of two bytes, in two clusters. -/
def oneFileDev : Nat → Buf := fun block i =>
  if block = 2 then [0xf8, 0xff, 0xff, 0xff, 3, 0, 0xff, 0xff].getD i 0
  else if block = 23 then [1, 2].getD i 0 else 0

/-- The bytes a cache of the device stands for. -/
def oneFileFlat (a : Nat) : UInt8 := oneFileDev (a / 512) (a % 512)

/-- The node of the file. -/
def oneFileNode : FatNode where
  inodeNr := 2
  isRoot := false
  direntSector := 21
  direntOffset := 0
  dirent := setFirstCluster sampleFat16 (FatDirEntry.zeroed.setBytes 28 (leBytes32 2)) 2
  hintCluster := 0
  hintOffset := 0
  referenceCnt := 1

/-- The nodes with this one. -/
def oneFileVol : Vol := initVol.addNode oneFileNode

theorem oneFile_ok : FilesOk sampleFat16 oneFileFlat (fun _ : Unit => oneFileNode)
    (fun _ => [2, 3]) where
  file := fun _ => ⟨⟨rfl, by decide, rfl, by decide, show ¬ Allocated _ by decide⟩, by decide,
    by decide, .inl rfl, by decide⟩
  apart := fun k l hne => absurd rfl hne
  reserved := by
    unfold Reserved
    decide

end Cheviot.Fatfs
