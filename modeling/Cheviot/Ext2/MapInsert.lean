import Cheviot.Ext2.Write

/-!
# Block maps that grow

What `enter_map_entry` and `new_block` leave behind in the map of the inode they
work for: which positions read another block, which indirect blocks there are,
and which blocks are free.

* `Indirect`, `Hollow` — the indirect blocks of an inode, and those that no data
  block hangs off.
* `Grown.indirect_iff`, `Grown.length_le` — the indirect blocks added on the way
  down are all that are new, at most one for each level.
* `enterMapEntry_enters` — after a success the position reads the block that was
  entered, and the positions of other blocks read what they did.
* `newBlock_full` — after a failure every position reads what it did, and a block
  that was free is free or hangs, hollow, in the map.
-/

namespace Cheviot.Ext2

open Cheviot.Forest

/-- Block `b` is an indirect block of inode `n`. -/
def Indirect (v : Volume) (s : Fs) (n b : Nat) : Prop :=
  b ≠ 0 ∧ ∃ k p, Place (mapShape v) (n, k) p ∧ p.length < levels k ∧ blockAt v s n k p = b

/-- Block `b` is an indirect block of inode `n` that no data block hangs off. -/
def Hollow (v : Volume) (s : Fs) (n b : Nat) : Prop :=
  b ≠ 0 ∧ ∃ k p, Place (mapShape v) (n, k) p ∧ p.length < levels k ∧ blockAt v s n k p = b ∧
    ∀ r, Leaf v n k (p ++ r) → blockAt v s n k (p ++ r) = 0

section Grow

variable {v : Volume} {live : Nat → Prop} {n i b : Nat} {s s' : Fs} {k₀ : Fin 15}
  {p₀ new : List Nat}

/-- What is above the end of the path is shorter than the end. -/
theorem Grown.length_lt (h : Grown v live n i s s' k₀ p₀ new) (hlen : p₀.length = levels k₀)
    (hb : b ∈ new) {p : List Nat} (hp : p <+: p₀) (hnull : blockAt v s n k₀ p = 0)
    (hat : blockAt v s' n k₀ p = b) : p.length < levels k₀ := by
  have hne : p ≠ p₀ := by
    intro he
    have hsame := h.end_same
    rw [← he, hat, hnull] at hsame
    exact (h.linked b hb).1.ne_noBlock hsame
  have hle := hp.length_le
  have hlt : p.length ≠ p₀.length := fun he => hne (hp.eq_of_length he)
  omega

/-- The new blocks are indirect blocks, the old ones still are, and there are no others. -/
theorem Grown.indirect_iff (h : Grown v live n i s s' k₀ p₀ new) (hn : live n)
    (hl : Leaf v n k₀ p₀) (c : Nat) : Indirect v s' n c ↔ Indirect v s n c ∨ c ∈ new := by
  constructor
  · intro ⟨hc, k, p, hp, hlen, hat⟩
    rcases h.place n hn k p hp with heq | ⟨-, -, hmem⟩
    · exact .inl ⟨hc, k, p, hp, hlen, heq.symm.trans hat⟩
    · exact .inr (hat ▸ hmem)
  · intro hc
    rcases hc with ⟨hc, k, p, hp, hlen, hat⟩ | hc
    · refine ⟨hc, k, p, hp, hlen, ?_⟩
      rcases h.place n hn k p hp with heq | ⟨-, hnull, -⟩
      · exact heq.trans hat
      · exact absurd (hat.symm.trans hnull) hc
    · obtain ⟨hdata, p, hp, hnull, hat⟩ := h.linked c hc
      exact ⟨hdata.ne_noBlock, k₀, p, hl.1.initial hp, h.length_lt hl.2 hc hp hnull hat, hat⟩

/-- There is at most one new block for each level. -/
theorem Grown.length_le (h : Grown v live n i s s' k₀ p₀ new) (hlen : p₀.length = levels k₀) :
    new.length ≤ p₀.length := by
  have hsub : new ⊆ (List.range p₀.length).map fun d => blockAt v s' n k₀ (p₀.take d) := by
    intro c hc
    obtain ⟨-, p, hp, hnull, hat⟩ := h.linked c hc
    have hlt := h.length_lt hlen hc hp hnull hat
    refine List.mem_map.mpr ⟨p.length, List.mem_range.mpr (hlen ▸ hlt), ?_⟩
    rw [← List.prefix_iff_eq_take.mp hp]
    exact hat
  have hle := (h.nodup.subperm hsub).length_le
  rwa [List.length_map, List.length_range] at hle

/-- No data block hangs off a new block. -/
theorem Grown.hollow (h : Grown v live n i s s' k₀ p₀ new) (hn : live n) (hl : Leaf v n k₀ p₀)
    (hb : b ∈ new) : Hollow v s' n b ∧ ∀ j, j < v.addrInBlock →
      readIndirectBlockEntry v.beCpu (s'.blk b) j ≠ 0 →
        readIndirectBlockEntry v.beCpu (s'.blk b) j ∈ new := by
  obtain ⟨hdata, p, hp, hnull, hat⟩ := h.linked b hb
  have hplace := hl.1.initial hp
  have hlt := h.length_lt hl.2 hb hp hnull hat
  -- nothing was found below `p`
  have hbelow : ∀ r, blockAt v s n k₀ (p ++ r) = 0 := by
    intro r
    have happ : blockAt v s n k₀ (p ++ r) =
        follow (readIndirectBlockEntry v.beCpu) s.blk (blockAt v s n k₀ p) r := ptr_append (n, k₀) p r
    rw [happ, hnull, follow_null]
  refine ⟨⟨hdata.ne_noBlock, k₀, p, hplace, hlt, hat, fun r hr => ?_⟩, fun j hj hne => ?_⟩
  · by_cases hend : p ++ r = p₀
    · rw [hend, h.end_same, ← hend, hbelow]
    · rw [h.toMapLinked.leaf hl.2 hn hr fun he => hend he.2.2, hbelow]
  · have hnext : readIndirectBlockEntry v.beCpu (s'.blk b) j = blockAt v s' n k₀ (p ++ [j]) := by
      rw [← hat]
      exact (ptr_concat_of_ne (by rw [show ptr _ _ _ _ p = b from hat]; exact hdata.ne_noBlock)
        j).symm
    rw [hnext] at hne ⊢
    rcases h.place n hn k₀ (p ++ [j]) (hplace.concat hlt hj) with heq | ⟨-, -, hmem⟩
    · exact absurd (heq.trans (hbelow [j])) hne
    · exact hmem

end Grow

/-! ## `enter_map_entry` -/

section Enter

variable {v : Volume} {live : Nat → Prop} {n i b : Nat} {s s' : Fs} {k₀ : Fin 15}
  {p₀ : List Nat}

/-- The block entered at a leaf is no indirect block. -/
theorem LeafEntered.indirect_iff (h : LeafEntered v live n i s s' k₀ p₀ b) (hn : live n)
    (hl : Leaf v n k₀ p₀) (c : Nat) : Indirect v s' n c ↔ Indirect v s n c := by
  have hsame : ∀ k p, Place (mapShape v) (n, k) p → p.length < levels k →
      blockAt v s' n k p = blockAt v s n k p := by
    intro k p hp hlen
    refine (h.replaced.place n hn k p hp).trans (setAt_of_not _ fun hin => ?_)
    obtain ⟨hr, hpre⟩ := hin
    rw [Prod.mk.injEq] at hr
    have hle := hpre.length_le
    rw [hl.2, ← hr.2] at hle
    omega
  constructor
  · intro ⟨hc, k, p, hp, hlen, hat⟩
    exact ⟨hc, k, p, hp, hlen, (hsame k p hp hlen).symm.trans hat⟩
  · intro ⟨hc, k, p, hp, hlen, hat⟩
    exact ⟨hc, k, p, hp, hlen, (hsame k p hp hlen).trans hat⟩

/-- A block entered at a position is what the position reads from then on. The positions
of other blocks read what they did, the map is a tree again, and its indirect blocks are
the old ones and some that were free, at most as many as there are levels. -/
theorem enterMapEntry_enters (hv : Layout v) (env : Env) (hs : FilesOk v s live) (hn : live n)
    (hf : Found s n i) (hb : Fresh v s live b) {p : Nat} (hp : p < 2 ^ 32)
    (h : enterMapEntry v env s i p b = .ok (s', .ok ())) :
    readMapEntry v s'.blk (s'.slot i).odi p = b ∧
    (∀ q, q < 2 ^ 32 → q / v.blockSize ≠ p / v.blockSize →
      readMapEntry v s'.blk (s'.slot i).odi q = readMapEntry v s.blk (s.slot i).odi q) ∧
    FilesOk v s' live ∧
    ∃ k path, ∃ new : List Nat, calcBlockIndirectionOffsets v p = some (k, path) ∧
      new.Nodup ∧ new.length ≤ path.length ∧ (∀ c ∈ new, BlockFree v s c) ∧
      ∀ c, Indirect v s' n c ↔ Indirect v s n c ∨ c ∈ new := by
  obtain ⟨k₀, p₀, hcalc, hl⟩ := calc_place hv.log_le hp
  obtain ⟨s₂, sc, hrun, hdone⟩ := enterMapEntry_spec hv env hs hn hf hcalc (hl n) hb
  rw [hrun] at h
  cases h
  obtain ⟨s₁, new, hgrown, hentered⟩ := hdone
  have hslot := hgrown.slot.trans hentered.replaced.slot
  have hread : ∀ q k path, calcBlockIndirectionOffsets v q = some (k, path) →
      readMapEntry v s'.blk (s'.slot i).odi q = blockAt v s' n k path := by
    intro q k path hq
    rw [← (hslot.found hf).nodeAt, readMapEntry_eq hq]
  refine ⟨?_, fun q hq hne => ?_, hentered.replaced.ok, k₀, p₀, new, hcalc, hgrown.nodup,
    hgrown.length_le (hl n).2, hgrown.taken.1, fun c => ?_⟩
  · rw [hread p k₀ p₀ hcalc]
    exact (hentered.replaced.place n hn k₀ p₀ (hl n).1).trans (setAt_self _)
  · obtain ⟨k, path, hcalc', hl'⟩ := calc_place hv.log_le hq
    have hother : ¬ (k = k₀ ∧ path = p₀) := by
      intro ⟨hk, hpath⟩
      subst hk hpath
      exact hne (calc_inj hv.log_le hq hp (hcalc'.trans hcalc.symm))
    rw [hread q k path hcalc', ← hf.nodeAt, readMapEntry_eq hcalc',
      ← hgrown.toMapLinked.leaf (hl n).2 hn (hl' n) fun he => hother he.2]
    refine (hentered.replaced.place n hn k path (hl' n).1).trans (setAt_of_not _ fun hin => ?_)
    obtain ⟨hr, hpre⟩ := hin
    have hk : k = k₀ := (Prod.mk.inj hr).2
    exact hother ⟨hk, (hpre.eq_of_length (by rw [(hl n).2, (hl' n).2, hk])).symm⟩
  · rw [hentered.indirect_iff hn (hl n), hgrown.indirect_iff hn (hl n)]

end Enter

/-- Block 10 is allocated for the new file on the small volume and entered at position
12288, below the first indirect block. -/
theorem enterMapEntry_enters_sample :
    ∃ s s', allocBlock sampleVolume sampleEnv sampleFileFs 12 noBlock = .ok (s, 10) ∧
      enterMapEntry sampleVolume sampleEnv s 0 12288 10 = .ok (s', .ok ()) ∧
      readMapEntry sampleVolume s'.blk (s'.slot 0).odi 12288 = 10 ∧
      ∃ k path, ∃ new : List Nat, calcBlockIndirectionOffsets sampleVolume 12288 = some (k, path) ∧
        new.Nodup ∧ new.length ≤ path.length ∧ (∀ c ∈ new, BlockFree sampleVolume s c) ∧
        ∀ c, Indirect sampleVolume s' 12 c ↔ Indirect sampleVolume s 12 c ∨ c ∈ new := by
  have hfound : Found sampleFileFs 12 0 := rfl
  have hreply : (allocBlock sampleVolume sampleEnv sampleFileFs 12 noBlock >>= fun p =>
      enterMapEntry sampleVolume sampleEnv p.1 0 12288 p.2 >>= fun r =>
        pure (p.2, r.2.toOption)).toOption = some (10, some ()) := by decide +kernel
  rcases allocBlock_allocated sampleVolume_layout sampleFileFs_filesOk.blocks sampleEnv 12 noBlock
    with ⟨hrun, hfull⟩ | ⟨s, b, hrun, hb⟩
  · exact absurd ⟨0, 9, by decide, by decide, rfl, by decide⟩ (hfull 10)
  · obtain ⟨hsame, hfresh⟩ := hb.same sampleVolume_layout sampleFileFs_filesOk hfound 0 []
    rw [bind_of_ok hrun] at hreply
    dsimp only at hreply
    generalize henter : enterMapEntry sampleVolume sampleEnv s 0 12288 b = r at hreply
    cases r with
    | error e => cases hreply
    | ok entered =>
      obtain ⟨s', sc⟩ := entered
      cases sc with
      | error e => cases hreply
      | ok u =>
        cases hreply
        obtain ⟨hread, -, -, hmap⟩ := enterMapEntry_enters sampleVolume_layout sampleEnv hsame.ok
          (.inr rfl) (hsame.slot.found hfound) hfresh (by decide) henter
        exact ⟨s, s', hrun, henter, hread, hmap⟩

/-! ## `new_block` on a full volume -/

section Full

variable {v : Volume} {live : Nat → Prop} {n i : Nat} {s s' : Fs}

/-- A position counts modulo `2 ^ 32`. -/
theorem calc_mod (v : Volume) (q : Nat) :
    calcBlockIndirectionOffsets v (q % 2 ^ 32) = calcBlockIndirectionOffsets v q := by
  rw [calcBlockIndirectionOffsets, Nat.mod_mod, calcBlockIndirectionOffsets]

/-- Where `new_block` fails, every position reads what it did and the bitmaps are in
order. A block that was free still is, or is an indirect block of the inode with no data
block below it and with entries for other such blocks only; what is in a file is not free. -/
theorem newBlock_full (hv : Layout v) (env : Env) (hs : FilesOk v s live) (hn : live n)
    (hf : Found s n i) {p : Nat} (hp : p < 2 ^ 32)
    (hhole : readMapEntry v s.blk (s.slot i).odi p = noBlock)
    (h : newBlock v env s i p = .ok (s', none)) :
    (∀ q, readMapEntry v s'.blk (s'.slot i).odi q = readMapEntry v s.blk (s.slot i).odi q) ∧
    BlockConsistent v s' ∧
    (∀ c, BlockFree v s c → BlockFree v s' c ∨
      Hollow v s' n c ∧ ∀ j, j < v.addrInBlock →
        readIndirectBlockEntry v.beCpu (s'.blk c) j ≠ 0 →
          BlockFree v s (readIndirectBlockEntry v.beCpu (s'.blk c) j) ∧
          Hollow v s' n (readIndirectBlockEntry v.beCpu (s'.blk c) j)) ∧
    ∀ m, live m → ∀ k path, Place (mapShape v) (m, k) path → blockAt v s' m k path ≠ 0 →
      ¬ BlockFree v s' (blockAt v s' m k path) := by
  obtain ⟨k₀, p₀, hcalc, hl⟩ := calc_place hv.log_le hp
  have hnull : blockAt v s n k₀ p₀ = 0 := by
    rw [← readMapEntry_eq hcalc, hf.nodeAt]
    exact hhole
  obtain ⟨s₁, r, hrun, hdone⟩ := newBlock_hole hv env hs hn hf hcalc (hl n) hnull
  rw [hrun] at h
  cases h
  obtain ⟨new, hgrown, -⟩ := hdone
  refine ⟨fun q => ?_, hgrown.ok.blocks, fun c hc => ?_, fun m hm k path hpath hne =>
    (hgrown.ok.used m hm k path hpath hne).not_free⟩
  · obtain ⟨k, path, hcalc', hl'⟩ := calc_place hv.log_le (Nat.mod_lt q (by decide : 0 < 2 ^ 32))
    rw [calc_mod] at hcalc'
    rw [← (hgrown.slot.found hf).nodeAt, readMapEntry_eq hcalc', ← hf.nodeAt,
      readMapEntry_eq hcalc']
    by_cases hend : k = k₀ ∧ path = p₀
    · rw [hend.1, hend.2]
      exact hgrown.end_same
    · exact hgrown.toMapLinked.leaf (hl n).2 hn (hl' n) fun he => hend he.2
  · by_cases hmem : c ∈ new
    · obtain ⟨hhollow, hentries⟩ := hgrown.hollow hn (hl n) hmem
      refine .inr ⟨hhollow, fun j hj hne => ?_⟩
      have hnext := hentries j hj hne
      exact ⟨hgrown.taken.1 _ hnext, (hgrown.hollow hn (hl n) hnext).1⟩
    · exact .inl ((hgrown.taken.2 c).mpr ⟨hc, hmem⟩)

end Full

/-- The small volume with the new file and one free block, number 10. -/
def sampleFullFs : Fs :=
  { sampleFileFs with
    blk := Function.update sampleFileFs.blk 3 fun i => if i = 1 then 0xFD else 0xFF
    gd := fun _ => ⟨1, 22, 1⟩
    freeBlocksCount := 1 }

theorem sampleFullFs_filesOk : FilesOk sampleVolume sampleFullFs fun n => n = 2 ∨ n = 12 := by
  have hconsistent : BlockConsistent sampleVolume sampleFullFs :=
    ⟨by decide, by decide, by decide, by decide⟩
  have hroot : ∀ r : Nat × Fin 15, r.1 = 2 ∨ r.1 = 12 →
      mapRoot (nodeAt sampleVolume sampleFullFs) r = mapRoot (nodeAt sampleVolume sampleFileFs) r := by
    intro ⟨n, k⟩ hn
    rcases hn with rfl | rfl
    · revert k
      decide
    · revert k
      decide
  refine (sampleFileFs_filesOk.frame hroot hconsistent ?_ ?_).1
  · intro m hm k p hp hne
    have hdata := sampleFileFs_filesOk.map.data m hm k p hp hne
    exact Function.update_of_ne (hdata.ne_blockBitmap (g := 0) (by decide)).symm _ _
  · intro m hm k p hp hne
    rw [sampleFileFs_oneBlock.place hm hp] at hne ⊢
    by_cases h : m = 2 ∧ k.val = 0
    · rw [if_pos h]
      exact ⟨0, 8, by decide, by decide, by decide, by decide⟩
    · rw [if_neg h] at hne
      exact absurd rfl hne

/-- The one free block is not enough for position 12288, which needs an indirect block too. -/
theorem newBlock_full_sample :
    ∃ s', newBlock sampleVolume sampleEnv sampleFullFs 0 12288 = .ok (s', none) ∧
      (∀ q, readMapEntry sampleVolume s'.blk (s'.slot 0).odi q =
        readMapEntry sampleVolume sampleFullFs.blk (sampleFullFs.slot 0).odi q) ∧
      BlockConsistent sampleVolume s' := by
  have hreply : (newBlock sampleVolume sampleEnv sampleFullFs 0 12288).toOption.map Prod.snd =
      some none := by decide +kernel
  obtain ⟨s', hrun⟩ : ∃ s', newBlock sampleVolume sampleEnv sampleFullFs 0 12288 =
      .ok (s', none) := by
    generalize newBlock sampleVolume sampleEnv sampleFullFs 0 12288 = r at hreply
    match r, hreply with
    | .ok (s', none), _ => exact ⟨s', rfl⟩
  obtain ⟨hread, hblocks, -⟩ := newBlock_full sampleVolume_layout sampleEnv sampleFullFs_filesOk
    (.inr rfl) rfl (by decide) (by decide) hrun
  exact ⟨s', hrun, hread, hblocks⟩

end Cheviot.Ext2
