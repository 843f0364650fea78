import Cheviot.Ext2.BlockMap

/-!
# Adding a block to a file

What `enter_map_entry` and `new_block` do to the files. Both work on the inode
of one cache slot, and may stop half way when the volume is full; what they have
added by then is an empty indirect block, which no position reads anything from.

The descent is an induction on the indices that are left. A block that it adds on its way has no
entries, so that the places below stay empty until the last step, and what it has added when it
fails shows nowhere.

* `MapAdds`, `MapLinked`, `Taken` — empty places on one path have received blocks, which were
  free before.
* `enterMapEntry_spec` — `enter_map_entry` adds the missing indirect blocks and puts
  the block into the leaf of its position, or fails and no leaf has changed.
* `ContentStep` — the same on the bytes of the files: one file has new content,
  the others are as before.
* `newBlock_hole`, `newBlock_spec` — a block that `new_block` returns is mapped at the position
  and all zeros; without one, no content has changed.
-/

namespace Cheviot.Ext2

open Cheviot.Bytes Cheviot.Bits Cheviot.Forest

section Steps

variable {v : Volume} {live : Nat → Prop} {n i b : Nat} {s s' s'' : Fs}

/-! ## Changes outside the bitmaps -/

/-- The block bitmaps and their counters are as before. -/
structure BlocksKept (v : Volume) (s s' : Fs) : Prop where
  gd : s'.gd = s.gd
  free : s'.freeBlocksCount = s.freeBlocksCount
  bitmap : ∀ g, g < v.groupsCount → s'.blk (v.blockBitmap g) = s.blk (v.blockBitmap g)

theorem BlocksKept.trans (h : BlocksKept v s s') (h' : BlocksKept v s' s'') :
    BlocksKept v s s'' :=
  ⟨h'.gd.trans h.gd, h'.free.trans h.free, fun g hg => (h'.bitmap g hg).trans (h.bitmap g hg)⟩

theorem BlocksKept.consistent (h : BlocksKept v s s') (hs : BlockConsistent v s) :
    BlockConsistent v s' :=
  hs.congr (fun g => by rw [h.gd]) h.free h.bitmap

theorem BlocksKept.used (h : BlocksKept v s s') (hb : BlockUsed v s b) : BlockUsed v s' b := by
  obtain ⟨g, j, hg, hj, rfl, hset⟩ := hb
  exact ⟨g, j, hg, hj, rfl, by rw [bbit, h.bitmap g hg]; exact hset⟩

theorem BlocksKept.setBlk (s : Fs) (hb : DataBlock v b) (buf : Buf) :
    BlocksKept v s (s.setBlk b buf) :=
  ⟨rfl, rfl, fun _ hg => Function.update_of_ne (hb.ne_blockBitmap hg) _ _⟩

theorem BlocksKept.of_slot (hblk : s'.blk = s.blk) (hgd : s'.gd = s.gd)
    (hfree : s'.freeBlocksCount = s.freeBlocksCount) : BlocksKept v s s' :=
  ⟨hgd, hfree, fun _ _ => by rw [hblk]⟩

theorem SlotStep.setBlk (s : Fs) (hb : DataBlock v b) (buf : Buf) :
    SlotStep v i s (s.setBlk b buf) := by
  refine ⟨rfl, rfl, fun _ _ => rfl, rfl, rfl, ⟨_, _, rfl⟩, fun b' hb' _ => ?_,
    rfl, rfl, fun _ => ⟨rfl, rfl⟩⟩
  have hne : b' ≠ b := fun he => hb.2.2 (he ▸ hb')
  exact Function.update_of_ne hne _ _

theorem BlocksKept.writeBlk (s : Fs) (hb : DataBlock v b) (buf : Buf) :
    BlocksKept v s (s.writeBlk b buf) :=
  ⟨rfl, rfl, (BlocksKept.setBlk s hb buf).bitmap⟩

theorem SlotStep.writeBlk (s : Fs) (hb : DataBlock v b) (buf : Buf) :
    SlotStep v i s (s.writeBlk b buf) :=
  ⟨rfl, rfl, fun _ _ => rfl, rfl, rfl, ⟨_, _, rfl⟩, (SlotStep.setBlk (i := i) s hb buf).system,
    rfl, rfl, fun _ => ⟨rfl, rfl⟩⟩

theorem SlotStep.addSectors (s : Fs) : SlotStep v i s (addSectors v s i) := by
  refine ⟨rfl, rfl, fun j hj => Function.update_of_ne hj _ _, ?_, ?_, ?_, fun _ _ _ => rfl,
    rfl, rfl, fun _ => ⟨rfl, rfl⟩⟩
  · simp [Ext2.addSectors, Fs.modOdi, Fs.setSlot]
  · simp [Ext2.addSectors, Fs.modOdi, Fs.setSlot]
  · exact ⟨(s.slot i).odi.block, (s.slot i).odi.blocks + UInt32.ofNat v.sectorsInBlock, by
      simp [Ext2.addSectors, Fs.modOdi, Fs.setSlot]⟩

theorem SlotStep.setBlockEntry (s : Fs) (k : Fin 15) (block : Nat) :
    SlotStep v i s (setBlockEntry s i k block) := by
  refine ⟨rfl, rfl, fun j hj => Function.update_of_ne hj _ _, ?_, ?_, ?_, fun _ _ _ => rfl,
    rfl, rfl, fun _ => ⟨rfl, rfl⟩⟩
  · simp [Ext2.setBlockEntry, Fs.modOdi, Fs.setSlot]
  · simp [Ext2.setBlockEntry, Fs.modOdi, Fs.setSlot]
  · exact ⟨Function.update (s.slot i).odi.block k (UInt32.ofNat block), (s.slot i).odi.blocks, by
      simp [Ext2.setBlockEntry, Fs.modOdi, Fs.setSlot]⟩

theorem SlotStep.markdirty (s : Fs) : SlotStep v i s (inodeMarkdirty s i) := by
  refine ⟨rfl, rfl, fun j hj => Function.update_of_ne hj _ _, ?_, ?_, ?_, fun _ _ _ => rfl,
    rfl, rfl, fun _ => ⟨rfl, rfl⟩⟩
  · simp [inodeMarkdirty, Fs.setSlot]
  · simp [inodeMarkdirty, Fs.setSlot]
  · exact ⟨(s.slot i).odi.block, (s.slot i).odi.blocks, by simp [inodeMarkdirty, Fs.setSlot]⟩

/-- A step that writes to no block of a file changes no place. -/
theorem FilesOk.frame (hs : FilesOk v s live)
    (hroot : ∀ r : Nat × Fin 15, live r.1 → mapRoot (nodeAt v s') r = mapRoot (nodeAt v s) r)
    (hblocks : BlockConsistent v s')
    (hblk : ∀ m, live m → ∀ k p, Place (mapShape v) (m, k) p → blockAt v s m k p ≠ 0 →
      s'.blk (blockAt v s m k p) = s.blk (blockAt v s m k p))
    (hused : ∀ m, live m → ∀ k p, Place (mapShape v) (m, k) p → blockAt v s m k p ≠ 0 →
      BlockUsed v s' (blockAt v s m k p)) :
    FilesOk v s' live ∧ ∀ m, live m → ∀ k p, Place (mapShape v) (m, k) p →
      blockAt v s' m k p = blockAt v s m k p := by
  have hat : ∀ m, live m → ∀ k p, Place (mapShape v) (m, k) p →
      blockAt v s' m k p = blockAt v s m k p := by
    intro m hm k p hp
    refine ptr_congr (hroot (m, k) hm) ?_ hp
    intro q hq _ hne j _
    exact congrArg (fun b => readIndirectBlockEntry v.beCpu b j) (hblk m hm k q hq hne)
  refine ⟨⟨hs.on_volume, hblocks, ⟨?_, ?_⟩, ?_⟩, hat⟩
  · exact unshared_congr hs.map.unshared fun r p hr hp => hat r.1 hr r.2 p hp
  · intro m hm k p hp hne
    rw [show mapAt v (nodeAt v s') s'.blk m k p = blockAt v s m k p from hat m hm k p hp] at hne ⊢
    exact hs.map.data m hm k p hp hne
  · intro m hm k p hp hne
    rw [hat m hm k p hp] at hne ⊢
    exact hused m hm k p hp hne

/-! ## One leaf filled -/

/-- Every leaf holds the block it held, with the data it had, but for leaf `p₀` below
entry `k₀` of inode `n`, which holds block `b₀` now. -/
structure LeafPut (v : Volume) (live : Nat → Prop) (n i : Nat) (s s' : Fs) (k₀ : Fin 15)
    (p₀ : List Nat) (b₀ : Nat) : Prop where
  slot : SlotStep v i s s'
  ok : FilesOk v s' live
  leaf : ∀ m, live m → ∀ k p, Leaf v m k p →
    blockAt v s' m k p = if m = n ∧ k = k₀ ∧ p = p₀ then b₀ else blockAt v s m k p
  data : ∀ m, live m → ∀ k p, Leaf v m k p → ¬(m = n ∧ k = k₀ ∧ p = p₀) →
    blockAt v s m k p ≠ 0 → s'.blk (blockAt v s m k p) = s.blk (blockAt v s m k p)

/-! ## Blocks added to a map -/

/-- From the map of `s` to that of `s'`, empty places on the path `p₀` below entry `k₀` of
inode `n` have received the blocks of `new`, one each. -/
structure MapAdds (v : Volume) (live : Nat → Prop) (n : Nat) (s s' : Fs) (k₀ : Fin 15)
    (p₀ new : List Nat) : Prop where
  place : ∀ m, live m → ∀ k p, Place (mapShape v) (m, k) p →
    blockAt v s' m k p = blockAt v s m k p ∨
      (m = n ∧ k = k₀ ∧ p <+: p₀) ∧ blockAt v s m k p = 0 ∧ blockAt v s' m k p ∈ new
  linked : ∀ b ∈ new, DataBlock v b ∧
    ∃ p, p <+: p₀ ∧ blockAt v s n k₀ p = 0 ∧ blockAt v s' n k₀ p = b
  nodup : new.Nodup

/-- A step on behalf of inode `n` that does so, with `i_blocks` following. -/
structure MapLinked (v : Volume) (live : Nat → Prop) (n i : Nat) (s s' : Fs) (k₀ : Fin 15)
    (p₀ new : List Nat) : Prop extends MapAdds v live n s s' k₀ p₀ new where
  slot : SlotStep v i s s'
  ok : FilesOk v s' live
  data : ∀ m, live m → ∀ k p, Leaf v m k p → blockAt v s m k p ≠ 0 →
    s'.blk (blockAt v s m k p) = s.blk (blockAt v s m k p)
  sectors : (s'.slot i).odi.blocks =
    (s.slot i).odi.blocks + UInt32.ofNat (v.sectorsInBlock * new.length)

section MapLinked

variable {k₀ : Fin 15} {p₀ new new' : List Nat}

/-- Where no place changes, no block is added. -/
theorem MapAdds.of_places (hat : ∀ m, live m → ∀ k p, Place (mapShape v) (m, k) p →
    blockAt v s' m k p = blockAt v s m k p) : MapAdds v live n s s' k₀ p₀ [] := by
  refine ⟨fun m hm k p hp => .inl (hat m hm k p hp), fun b hb => ?_, .nil⟩
  cases hb

/-- What holds a block keeps it. -/
theorem MapAdds.stays (h : MapAdds v live n s s' k₀ p₀ new) {m : Nat} (hm : live m) {k : Fin 15}
    {p : List Nat} (hp : Place (mapShape v) (m, k) p) (hne : blockAt v s m k p ≠ 0) :
    blockAt v s' m k p = blockAt v s m k p := by
  rcases h.place m hm k p hp with heq | ⟨-, hnull, -⟩
  · exact heq
  · exact absurd hnull hne

/-- What is empty was empty. -/
theorem MapAdds.null (h : MapAdds v live n s s' k₀ p₀ new) {m : Nat} (hm : live m) {k : Fin 15}
    {p : List Nat} (hp : Place (mapShape v) (m, k) p) (hnull : blockAt v s' m k p = 0) :
    blockAt v s m k p = 0 := by
  by_contra hne
  exact hne ((h.stays hm hp hne).symm.trans hnull)

theorem MapAdds.trans (h : MapAdds v live n s s' k₀ p₀ new)
    (h' : MapAdds v live n s' s'' k₀ p₀ new') (hok : FilesOk v s'' live) (hn : live n)
    (hp₀ : Place (mapShape v) (n, k₀) p₀) : MapAdds v live n s s'' k₀ p₀ (new ++ new') := by
  refine ⟨fun m hm k p hp => ?_, fun b hb => ?_, ?_⟩
  · rcases h'.place m hm k p hp with heq' | ⟨hin, hnull, hmem⟩
    · rw [heq']
      rcases h.place m hm k p hp with heq | ⟨hin, hnull, hmem⟩
      · exact .inl heq
      · exact .inr ⟨hin, hnull, List.mem_append_left _ hmem⟩
    · exact .inr ⟨hin, h.null hm hp hnull, List.mem_append_right _ hmem⟩
  · rcases List.mem_append.mp hb with hb | hb
    · obtain ⟨hdata, p, hp, hnull, hat⟩ := h.linked b hb
      have hne : blockAt v s' n k₀ p ≠ 0 := by
        rw [hat]
        exact hdata.ne_noBlock
      exact ⟨hdata, p, hp, hnull, (h'.stays hn (hp₀.initial hp) hne).trans hat⟩
    · obtain ⟨hdata, p, hp, hnull, hat⟩ := h'.linked b hb
      exact ⟨hdata, p, hp, h.null hn (hp₀.initial hp) hnull, hat⟩
  · rw [List.nodup_append]
    refine ⟨h.nodup, h'.nodup, fun b hb c hc heq => ?_⟩
    subst heq
    -- a block linked twice would be at two places
    obtain ⟨hdata, p, hp, -, hat⟩ := h.linked b hb
    obtain ⟨-, q, hq, hnull, hat'⟩ := h'.linked b hc
    have hne : blockAt v s' n k₀ p ≠ 0 := by
      rw [hat]
      exact hdata.ne_noBlock
    have hat'' := (h'.stays hn (hp₀.initial hp) hne).trans hat
    obtain ⟨-, rfl⟩ := hok.map.unshared (n, k₀) p (n, k₀) q hn hn (hp₀.initial hp)
      (hp₀.initial hq) (hat''.trans hat'.symm)
      (by rw [show ptr _ _ _ _ p = b from hat'']; exact hdata.ne_noBlock)
    exact hne hnull

/-- A step that changes no place adds no block. -/
theorem MapLinked.of_places (hslot : SlotStep v i s s') (hok : FilesOk v s' live)
    (hat : ∀ m, live m → ∀ k p, Place (mapShape v) (m, k) p →
      blockAt v s' m k p = blockAt v s m k p)
    (hdata : ∀ m, live m → ∀ k p, Leaf v m k p → blockAt v s m k p ≠ 0 →
      s'.blk (blockAt v s m k p) = s.blk (blockAt v s m k p))
    (hsectors : (s'.slot i).odi.blocks = (s.slot i).odi.blocks) :
    MapLinked v live n i s s' k₀ p₀ [] := by
  refine ⟨.of_places hat, hslot, hok, hdata, ?_⟩
  rw [hsectors, List.length_nil, Nat.mul_zero]
  exact (UInt32.add_zero _).symm

theorem MapLinked.refl (hs : FilesOk v s live) : MapLinked v live n i s s k₀ p₀ [] :=
  .of_places (.refl v i s) hs (fun _ _ _ _ _ => rfl) (fun _ _ _ _ _ _ => rfl) rfl

/-- A block put into one empty place on the path. -/
theorem Replaced.linked {q : List Nat} {b : Nat} (h : Replaced v live n i s s' k₀ q b)
    (hempty : blockAt v s n k₀ q = 0) (hn : live n) (hp₀ : Place (mapShape v) (n, k₀) p₀)
    (hq : q <+: p₀) (hb : DataBlock v b)
    (hsectors : (s'.slot i).odi.blocks =
      (s.slot i).odi.blocks + UInt32.ofNat v.sectorsInBlock) :
    MapLinked v live n i s s' k₀ p₀ [b] := by
  refine ⟨⟨fun m hm k p hp => ?_, fun c hc => ?_, List.nodup_singleton b⟩, h.slot, h.ok, h.data, ?_⟩
  · rw [h.of_null hempty hm hp]
    split
    next heq =>
      obtain ⟨rfl, rfl, rfl⟩ := heq
      exact .inr ⟨⟨rfl, rfl, hq⟩, hempty, List.mem_singleton_self b⟩
    next => exact .inl rfl
  · rw [List.mem_singleton.mp hc]
    refine ⟨hb, q, hq, hempty, ?_⟩
    rw [h.of_null hempty hn (hp₀.initial hq), if_pos ⟨rfl, rfl, rfl⟩]
  · rw [hsectors, List.length_singleton, Nat.mul_one]

theorem MapLinked.trans (h : MapLinked v live n i s s' k₀ p₀ new)
    (h' : MapLinked v live n i s' s'' k₀ p₀ new') (hn : live n)
    (hp₀ : Place (mapShape v) (n, k₀) p₀) : MapLinked v live n i s s'' k₀ p₀ (new ++ new') := by
  refine ⟨h.toMapAdds.trans h'.toMapAdds h'.ok hn hp₀, h.slot.trans h'.slot, h'.ok,
    fun m hm k p hp hne => ?_, ?_⟩
  · have hp' := h.stays hm hp.1 hne
    have hdata := h'.data m hm k p hp (by rwa [hp'])
    rw [hp'] at hdata
    rw [hdata, h.data m hm k p hp hne]
  · rw [h'.sectors, h.sectors, UInt32.add_assoc, ← UInt32.ofNat_add, List.length_append,
      Nat.mul_add]

/-- Every leaf but the one at the end of the path is as before. -/
theorem MapLinked.leaf (h : MapLinked v live n i s s' k₀ p₀ new) (hlen : p₀.length = levels k₀)
    {m : Nat} (hm : live m) {k : Fin 15} {p : List Nat} (hp : Leaf v m k p)
    (hnot : ¬ (m = n ∧ k = k₀ ∧ p = p₀)) : blockAt v s' m k p = blockAt v s m k p := by
  rcases h.place m hm k p hp.1 with heq | ⟨⟨hmn, hk, hpre⟩, -, -⟩
  · exact heq
  · have hfull : p = p₀ := hpre.eq_of_length (by rw [hp.2, hk, hlen])
    exact absurd ⟨hmn, hk, hfull⟩ hnot

/-- A block that is held back is still, if it is still marked and was not one of the new. -/
theorem MapLinked.fresh (h : MapLinked v live n i s s' k₀ p₀ new) {b : Nat} (hb : Fresh v s live b)
    (hused : BlockUsed v s' b) (hnew : b ∉ new) : Fresh v s' live b := by
  refine ⟨hb.data, hused, fun m hm k p hp he => ?_⟩
  rcases h.place m hm k p hp with heq | ⟨-, -, hmem⟩
  · exact hb.not_mapped m hm k p hp (heq.symm.trans he)
  · exact hnew (he ▸ hmem)

theorem MapLinked.markdirty (hv : Layout v) (hs : FilesOk v s live) (hf : Found s n i) :
    MapLinked v live n i s (inodeMarkdirty s i) k₀ p₀ [] := by
  have hkept : BlocksKept v s (inodeMarkdirty s i) := .of_slot rfl rfl rfl
  obtain ⟨hok, hat⟩ := hs.frame (fun r hr => (SlotStep.markdirty s).mapRoot_eq hv hf
      (by simp [inodeMarkdirty, Fs.setSlot]) (hs.on_volume r.1 hr))
    (hkept.consistent hs.blocks) (fun _ _ _ _ _ _ => rfl) hs.used
  exact .of_places (.markdirty s) hok hat (fun _ _ _ _ _ _ => rfl)
    (by simp [inodeMarkdirty, Fs.setSlot])

end MapLinked

/-! ## Allocating a block -/

/-- The blocks of `new` were free and are not any more; no other bit has changed. -/
def Taken (v : Volume) (s s' : Fs) (new : List Nat) : Prop :=
  (∀ b ∈ new, BlockFree v s b) ∧ ∀ b, BlockFree v s' b ↔ BlockFree v s b ∧ b ∉ new

theorem Taken.refl (v : Volume) (s : Fs) : Taken v s s [] := by
  refine ⟨fun b hb => ?_, fun b => ?_⟩
  · cases hb
  · rw [and_iff_left List.not_mem_nil]

theorem Taken.trans {new new' : List Nat} (h : Taken v s s' new) (h' : Taken v s' s'' new') :
    Taken v s s'' (new ++ new') := by
  refine ⟨fun b hb => ?_, fun b => ?_⟩
  · rcases List.mem_append.mp hb with hb | hb
    · exact h.1 b hb
    · exact ((h.2 b).mp (h'.1 b hb)).1
  · rw [h'.2 b, h.2 b, and_assoc, List.mem_append, not_or]

theorem BlocksKept.free_iff (h : BlocksKept v s s') (c : Nat) :
    BlockFree v s' c ↔ BlockFree v s c := by
  have hbit : ∀ g j, g < v.groupsCount → bbit v s' g j = bbit v s g j := by
    intro g j hg
    rw [bbit, bbit, h.bitmap g hg]
  constructor
  · intro hfree
    obtain ⟨g, j, hg, hj, hc, hclear⟩ := hfree
    exact ⟨g, j, hg, hj, hc, (hbit g j hg).symm.trans hclear⟩
  · intro hfree
    obtain ⟨g, j, hg, hj, hc, hclear⟩ := hfree
    exact ⟨g, j, hg, hj, hc, (hbit g j hg).trans hclear⟩

/-- What stays out of the bitmaps takes no block. -/
theorem BlocksKept.taken (h : BlocksKept v s s') : Taken v s s' [] := by
  refine ⟨fun b hb => ?_, fun b => ?_⟩
  · cases hb
  · rw [h.free_iff, and_iff_left List.not_mem_nil]

/-- Block `b` was free and is marked now. -/
structure Allocated (v : Volume) (s s' : Fs) (b : Nat) : Prop where
  slots : s'.slot = s.slot
  slot : ∀ i, SlotStep v i s s'
  blk : ∀ b', DataBlock v b' → s'.blk b' = s.blk b'
  blocks : BlockConsistent v s'
  used : ∀ b', BlockUsed v s b' → BlockUsed v s' b'
  data : DataBlock v b
  free : BlockFree v s b
  marked : BlockUsed v s' b
  only : OnlyBlockBit v s s' b true

theorem allocBlock_allocated (hv : Layout v) (hs : BlockConsistent v s) (env : Env)
    (ino goal : Nat) :
    (allocBlock v env s ino goal = .ok (s, noBlock) ∧ ∀ c, ¬ BlockFree v s c) ∨
      ∃ s' b, allocBlock v env s ino goal = .ok (s', b) ∧ Allocated v s s' b := by
  rcases allocBlock_spec hv.toBlockGeom hs env ino goal with
    ⟨hrun, hfull⟩ | ⟨g, j, hg, hj, hclear, hdata, hrun⟩
  · refine .inl ⟨hrun, fun c hc => ?_⟩
    obtain ⟨h, k, hh, hk, -, hclear⟩ := hc
    rw [hfull h k hh hk] at hclear
    cases hclear
  have hbit : ∀ h k, h < v.groupsCount → bbit v (markBlock v s g j) h k =
      if g = h ∧ j = k then true else bbit v s h k :=
    fun h k hh => bbit_markBlock hv.toBlockGeom hg hh
  refine .inr ⟨_, _, hrun, rfl, fun i => ?_, fun b' hb' => ?_,
    markBlock_consistent hv.toBlockGeom hs hg hj hclear, fun b' hb' => ?_, hdata,
    ⟨g, j, hg, hj, rfl, hclear⟩, ⟨g, j, hg, hj, rfl, ?_⟩, onlyBlockBit_of_bit hj hbit⟩
  · refine ⟨rfl, rfl, fun _ _ => rfl, rfl, rfl, ⟨_, _, rfl⟩, fun b _ hne => ?_,
      rfl, rfl, fun h => ?_⟩
    · exact Function.update_of_ne (hne g hg).symm _ _
    · by_cases hh : h = g
      · subst hh
        simp [markBlock]
      · simp [markBlock, Function.update_of_ne hh]
  · exact Function.update_of_ne (hb'.ne_blockBitmap hg).symm _ _
  · obtain ⟨h, k, hh, hk, rfl, hset⟩ := hb'
    refine ⟨h, k, hh, hk, rfl, ?_⟩
    rw [hbit h k hh, hset]
    simp
  · rw [hbit g j hg]
    simp

theorem Allocated.not_mapped (h : Allocated v s s' b) (hs : FilesOk v s live) (m : Nat)
    (hm : live m) (k : Fin 15) (p : List Nat) (hp : Place (mapShape v) (m, k) p) :
    blockAt v s m k p ≠ b := by
  intro he
  exact (hs.used m hm k p hp (by rw [he]; exact h.data.ne_noBlock)).not_free (he ▸ h.free)

theorem Allocated.taken (h : Allocated v s s' b) : Taken v s s' [b] := by
  refine ⟨fun c hc => ?_, fun c => ?_⟩
  · rw [List.mem_singleton.mp hc]
    exact h.free
  · rw [h.only.free_of_set, List.mem_singleton]

/-- No file has noticed, and the block is there to be put into one. -/
theorem Allocated.same (h : Allocated v s s' b) (hv : Layout v) (hs : FilesOk v s live)
    (hf : Found s n i) (k₀ : Fin 15) (p₀ : List Nat) :
    MapLinked v live n i s s' k₀ p₀ [] ∧ Fresh v s' live b := by
  obtain ⟨hok, hat⟩ := hs.frame
    (fun r hr => (h.slot i).mapRoot_eq hv hf (by rw [h.slots]) (hs.on_volume r.1 hr)) h.blocks
    (fun m hm k p hp hne => h.blk _ (hs.map.data m hm k p hp hne))
    (fun m hm k p hp hne => h.used _ (hs.used m hm k p hp hne))
  refine ⟨.of_places (h.slot i) hok hat (fun m hm k p hp hne => ?_) (by rw [h.slots]), h.data,
    h.marked, fun m hm k p hp => ?_⟩
  · exact h.blk _ (hs.map.data m hm k p hp.1 hne)
  · rw [hat m hm k p hp]
    exact h.not_mapped hs m hm k p hp

/-- A block allocated in a step is one to put into a file. -/
theorem Allocated.replacing (h : Allocated v s s' b) (hs : FilesOk v s live) (hn : live n)
    (hf : Found s n i) (hslot : SlotStep v i s' s'') (hkept : BlocksKept v s' s'') :
    Replacing v live n i s s'' b where
  files := hs
  live_n := hn
  found := hf
  slot := (h.slot i).trans hslot
  blocks := hkept.consistent h.blocks
  used := fun b' hb' => hkept.used (h.used b' hb')
  data₀ := fun _ => h.data
  used₀ := fun _ => hkept.used h.marked
  not_mapped := fun _ => h.not_mapped hs

/-- A fresh block that has been at hand for some steps is ready to be put into an entry. -/
theorem Fresh.replacing (h : Fresh v s live b) (hs : FilesOk v s live) (hn : live n)
    (hf : Found s n i) (hslot : SlotStep v i s s') (hkept : BlocksKept v s s') :
    Replacing v live n i s s' b where
  files := hs
  live_n := hn
  found := hf
  slot := hslot
  blocks := hkept.consistent hs.blocks
  used := fun _ hb' => hkept.used hb'
  data₀ := fun _ => h.data
  used₀ := fun _ => hkept.used h.used
  not_mapped := fun _ => h.not_mapped

/-! ## `enter_map_entry` -/

/-- The blocks of `new`, free before, are indirect blocks on the path `p₀` now. -/
structure Grown (v : Volume) (live : Nat → Prop) (n i : Nat) (s s' : Fs) (k₀ : Fin 15)
    (p₀ new : List Nat) : Prop extends MapLinked v live n i s s' k₀ p₀ new where
  end_same : blockAt v s' n k₀ p₀ = blockAt v s n k₀ p₀
  taken : Taken v s s' new

/-- The block at the end of the path `p₀` is `b₀` now. -/
structure LeafEntered (v : Volume) (live : Nat → Prop) (n i : Nat) (s s' : Fs) (k₀ : Fin 15)
    (p₀ : List Nat) (b₀ : Nat) : Prop where
  replaced : Replaced v live n i s s' k₀ p₀ b₀
  taken : Taken v s s' []
  sectors : (s'.slot i).odi.blocks = (s.slot i).odi.blocks + UInt32.ofNat v.sectorsInBlock

/-- How `enter_map_entry` can end: indirect blocks have been added, and the leaf has its
block or the volume is full. -/
def EnterEnds (v : Volume) (live : Nat → Prop) (n i : Nat) (s s' : Fs) (k₀ : Fin 15)
    (p₀ : List Nat) (b₀ : Nat) : Except Errno Unit → Prop
  | .ok _ => ∃ s₁ new, Grown v live n i s s₁ k₀ p₀ new ∧ LeafEntered v live n i s₁ s' k₀ p₀ b₀
  | .error e => e = .enospc ∧ (∀ c, ¬ BlockFree v s' c) ∧ ∃ new, Grown v live n i s s' k₀ p₀ new

section Enter

variable {k₀ : Fin 15} {p₀ new new' : List Nat} {b₀ : Nat}

theorem Grown.refl (hs : FilesOk v s live) : Grown v live n i s s k₀ p₀ [] :=
  ⟨.refl hs, rfl, .refl v s⟩

theorem Grown.trans (h : Grown v live n i s s' k₀ p₀ new)
    (h' : Grown v live n i s' s'' k₀ p₀ new') (hn : live n)
    (hp₀ : Place (mapShape v) (n, k₀) p₀) : Grown v live n i s s'' k₀ p₀ (new ++ new') :=
  ⟨h.toMapLinked.trans h'.toMapLinked hn hp₀, h'.end_same.trans h.end_same, h.taken.trans h'.taken⟩

/-- A block that is held back is none of those that were free. -/
theorem Grown.fresh (h : Grown v live n i s s' k₀ p₀ new) (hv : Layout v)
    (hb : Fresh v s live b₀) : Fresh v s' live b₀ := by
  have hnot := hb.used.not_free
  refine h.toMapLinked.fresh hb ?_ fun hmem => hnot (h.taken.1 b₀ hmem)
  exact (hb.data.used_or_free hv.toBlockGeom s').resolve_right fun hc => hnot ((h.taken.2 b₀).mp hc).1

theorem EnterEnds.after {sc : Except Errno Unit} (h : Grown v live n i s s' k₀ p₀ new)
    (hn : live n) (hp₀ : Place (mapShape v) (n, k₀) p₀)
    (h' : EnterEnds v live n i s' s'' k₀ p₀ b₀ sc) : EnterEnds v live n i s s'' k₀ p₀ b₀ sc := by
  cases sc with
  | ok _ =>
    obtain ⟨s₁, new', hgrown, hentered⟩ := h'
    exact ⟨s₁, _, h.trans hgrown hn hp₀, hentered⟩
  | error e =>
    obtain ⟨he, hfull, new', hgrown⟩ := h'
    exact ⟨he, hfull, _, h.trans hgrown hn hp₀⟩

/-- An allocated block put into an empty place above the end of the path. -/
theorem Allocated.grown (h : Allocated v s s' b) {q : List Nat} (hn : live n)
    (hp₀ : Place (mapShape v) (n, k₀) p₀) (hlen : p₀.length = levels k₀) (hq : q <+: p₀)
    (hlt : q.length < levels k₀) (hempty : blockAt v s n k₀ q = 0)
    (hput : Replaced v live n i s s'' k₀ q b) (hkept : BlocksKept v s' s'')
    (hsectors : (s''.slot i).odi.blocks =
      (s.slot i).odi.blocks + UInt32.ofNat v.sectorsInBlock) :
    Grown v live n i s s'' k₀ p₀ [b] := by
  refine ⟨hput.linked hempty hn hp₀ hq h.data hsectors, ?_, ?_⟩
  · rw [hput.of_null hempty hn hp₀, if_neg]
    intro ⟨_, _, hp⟩
    rw [← hp, hlen] at hlt
    exact Nat.lt_irrefl _ hlt
  · exact h.taken.trans hkept.taken

theorem enterIndirect_cons (v : Volume) (env : Env) (i newBlock : Nat) (s : Fs)
    (block index a : Nat) (path : List Nat) :
    enterIndirect v env i newBlock s block (index :: a :: path) = (do
      let next := readIndirectBlockEntry v.beCpu (s.blk block) index
      if next = noBlock then
        let (s, next) ← allocBlock v env s (s.slot i).ino noBlock
        if next = noBlock then return (s, .error .enospc)
        let s := s.writeBlk next zeroed
        let s := s.writeBlk block (writeIndirectBlockEntry v.beCpu (s.blk block) index next)
        enterIndirect v env i newBlock (addSectors v s i) next (a :: path)
      else enterIndirect v env i newBlock s next (a :: path)) := rfl

/-- From an indirect block at `q` down, the leaf at `q ++ path` gets its block. -/
theorem enterIndirect_spec (hv : Layout v) (env : Env) (hn : live n)
    (path : List Nat) : ∀ (s : Fs) (q : List Nat), path ≠ [] → FilesOk v s live → Found s n i →
      Place (mapShape v) (n, k₀) (q ++ path) → (q ++ path).length = levels k₀ →
      blockAt v s n k₀ q ≠ 0 → Fresh v s live b₀ →
      ∃ s' sc, enterIndirect v env i b₀ s (blockAt v s n k₀ q) path = .ok (s', sc) ∧
        EnterEnds v live n i s s' k₀ (q ++ path) b₀ sc := by
  induction path with
  | nil => exact fun _ _ h => absurd rfl h
  | cons index path ih =>
    intro s q _ hs hf hplace hlen hparent hfresh
    have hq : Place (mapShape v) (n, k₀) q := hplace.left
    have hpdata : DataBlock v (blockAt v s n k₀ q) := hs.map.data n hn k₀ q hq hparent
    cases path with
    | nil =>
      -- the last indirect block: the new entry goes here
      have hslot : SlotStep v i s (addSectors v (s.writeBlk (blockAt v s n k₀ q)
          (writeIndirectBlockEntry v.beCpu (s.blk (blockAt v s n k₀ q)) index b₀)) i) :=
        (SlotStep.writeBlk s hpdata _).trans (.addSectors _)
      have hkept : BlocksKept v s (addSectors v (s.writeBlk (blockAt v s n k₀ q)
          (writeIndirectBlockEntry v.beCpu (s.blk (blockAt v s n k₀ q)) index b₀)) i) :=
        (BlocksKept.writeBlk s hpdata _).trans (.of_slot rfl rfl rfl)
      refine ⟨_, _, rfl, s, [], .refl hs, ⟨Replacing.interior hv
        (hfresh.replacing hs hn hf hslot hkept) hplace hparent ?_ ?_ (fun _ hlt => ?_)
        fun b _ hne _ => ?_, hkept.taken, ?_⟩⟩
      · simp [addSectors, Fs.modOdi, Fs.setSlot, Fs.writeBlk, Fs.setBlk]
      · exact Function.update_self ..
      · rw [List.length_append, List.length_singleton] at hlen
        omega
      · exact Function.update_of_ne hne _ _
      · simp [addSectors, Fs.modOdi, Fs.setSlot, Fs.writeBlk, Fs.setBlk]
    | cons a path =>
      rw [enterIndirect_cons]
      have hsplit : q ++ index :: a :: path = (q ++ [index]) ++ a :: path := by simp
      rw [hsplit] at hplace hlen ⊢
      have hnext : readIndirectBlockEntry v.beCpu (s.blk (blockAt v s n k₀ q)) index =
          blockAt v s n k₀ (q ++ [index]) := (ptr_concat_of_ne hparent index).symm
      simp only [hnext]
      by_cases hnull : blockAt v s n k₀ (q ++ [index]) = noBlock
      · rw [if_pos hnull]
        rcases allocBlock_allocated hv hs.blocks env (s.slot i).ino noBlock with
          ⟨hrun, hfull⟩ | ⟨s₁, b, hrun, hb⟩
        · exact ⟨s, _, (bind_of_ok hrun _).trans (if_pos rfl), rfl, hfull, [], .refl hs⟩
        · rw [bind_of_ok hrun]
          simp only [if_neg hb.data.ne_noBlock]
          have hne : blockAt v s n k₀ q ≠ b := hb.not_mapped hs n hn k₀ q hq
          -- the new indirect block is cleared and linked below `q`
          have hkept : BlocksKept v s₁ (addSectors v ((s₁.writeBlk b zeroed).writeBlk
              (blockAt v s n k₀ q) (writeIndirectBlockEntry v.beCpu
                ((s₁.writeBlk b zeroed).blk (blockAt v s n k₀ q)) index b)) i) :=
            ((BlocksKept.writeBlk s₁ hb.data zeroed).trans (.writeBlk _ hpdata _)).trans
              (.of_slot rfl rfl rfl)
          have hslot : SlotStep v i s₁ (addSectors v ((s₁.writeBlk b zeroed).writeBlk
              (blockAt v s n k₀ q) (writeIndirectBlockEntry v.beCpu
                ((s₁.writeBlk b zeroed).blk (blockAt v s n k₀ q)) index b)) i) :=
            ((SlotStep.writeBlk s₁ hb.data zeroed).trans (.writeBlk _ hpdata _)).trans
              (.addSectors _)
          have hput : Replaced v live n i s _ k₀ (q ++ [index]) b :=
            Replacing.interior hv (hb.replacing hs hn hf hslot hkept) hplace.left hparent ?_ ?_
              (fun _ _ => ?_) fun b' hb' hp hnew => ?_
          · have hgrown := hb.grown hn hplace hlen (List.prefix_append _ _) (by
              rw [List.length_append, List.length_cons] at hlen
              omega) hnull hput hkept
              (by simp [addSectors, Fs.modOdi, Fs.setSlot, Fs.writeBlk, Fs.setBlk, hb.slots])
            have hat := hput.of_null hnull hn hplace.left
            rw [if_pos ⟨rfl, rfl, rfl⟩] at hat
            obtain ⟨s', sc, hrun', hdone⟩ := ih _ (q ++ [index]) (by simp) hput.ok
              (hput.slot.found hf) hplace hlen (by rw [hat]; exact hb.data.ne_noBlock)
              (hgrown.fresh hv hfresh)
            rw [hat] at hrun'
            exact ⟨s', sc, hrun', hdone.after hgrown hn hplace⟩
          · simp [addSectors, Fs.modOdi, Fs.setSlot, Fs.writeBlk, Fs.setBlk, hb.slots]
          · refine (Function.update_self ..).trans ?_
            show writeIndirectBlockEntry v.beCpu (Function.update s₁.blk b zeroed _) index b = _
            rw [Function.update_of_ne hne, hb.blk _ hpdata]
          · refine (Function.update_of_ne hne.symm _ _).trans ?_
            exact Function.update_self ..
          · refine (Function.update_of_ne hp _ _).trans ?_
            exact (Function.update_of_ne hnew _ _).trans (hb.blk b' hb')
      · rw [if_neg hnull]
        exact ih s (q ++ [index]) (by simp) hs hf hplace hlen hnull hfresh

/-- `enter_map_entry` puts the block into the leaf of its position. -/
theorem enterMapEntry_spec (hv : Layout v) (env : Env) (hs : FilesOk v s live) (hn : live n)
    (hf : Found s n i) {pos : Nat} (hcalc : calcBlockIndirectionOffsets v pos = some (k₀, p₀))
    (hleaf : Leaf v n k₀ p₀) (hfresh : Fresh v s live b₀) :
    ∃ s' sc, enterMapEntry v env s i pos b₀ = .ok (s', sc) ∧
      EnterEnds v live n i s s' k₀ p₀ b₀ sc := by
  obtain ⟨hplace, hlen⟩ := hleaf
  unfold enterMapEntry
  rw [hcalc]
  simp only
  -- the inode is marked dirty first, which changes no map
  have hmark : Grown v live n i s (inodeMarkdirty s i) k₀ p₀ [] := by
    have hlinked : MapLinked v live n i s (inodeMarkdirty s i) k₀ p₀ [] := .markdirty hv hs hf
    have hkept : BlocksKept v s (inodeMarkdirty s i) := .of_slot rfl rfl rfl
    refine ⟨hlinked, ?_, hkept.taken⟩
    rcases hlinked.place n hn k₀ p₀ hplace with heq | ⟨-, -, hmem⟩
    · exact heq
    · cases hmem
  replace hfresh := hmark.fresh hv hfresh
  replace hf := hmark.slot.found hf
  replace hs := hmark.ok
  generalize inodeMarkdirty s i = s₁ at hmark hfresh hf hs ⊢
  suffices h : ∃ s' sc, (if p₀ = [] then
        .ok (addSectors v (setBlockEntry s₁ i k₀ b₀) i, .ok ())
      else if ((s₁.slot i).odi.block k₀).toNat = noBlock then do
        let (s, block) ← allocBlock v env s₁ (s₁.slot i).ino noBlock
        if block = noBlock then return (s, .error .enospc)
        let s := s.writeBlk block zeroed
        enterIndirect v env i b₀ (addSectors v (setBlockEntry s i k₀ block) i) block p₀
      else enterIndirect v env i b₀ s₁ ((s₁.slot i).odi.block k₀).toNat p₀) = .ok (s', sc) ∧
        EnterEnds v live n i s₁ s' k₀ p₀ b₀ sc by
    obtain ⟨s', sc, hrun, hdone⟩ := h
    exact ⟨s', sc, hrun, hdone.after hmark hn hplace⟩
  by_cases hp : p₀ = []
  · subst hp
    rw [if_pos rfl]
    -- a direct block goes into `i_block` itself
    have hkept : BlocksKept v s₁ (addSectors v (setBlockEntry s₁ i k₀ b₀) i) :=
      .of_slot rfl rfl rfl
    refine ⟨_, _, rfl, s₁, [], .refl hs, ⟨Replacing.top hv (hfresh.replacing hs hn hf
      ((SlotStep.setBlockEntry s₁ k₀ b₀).trans (.addSectors _)) hkept) ?_ (fun _ hlt => ?_)
      fun _ _ _ => rfl, hkept.taken, ?_⟩⟩
    · simp [addSectors, setBlockEntry, Fs.modOdi, Fs.setSlot]
    · rw [List.length_nil] at hlen
      omega
    · simp [addSectors, setBlockEntry, Fs.modOdi, Fs.setSlot]
  · rw [if_neg hp]
    have htop : ((s₁.slot i).odi.block k₀).toNat = blockAt v s₁ n k₀ [] := by
      show _ = mapRoot (nodeAt v s₁) (n, k₀)
      rw [mapRoot, hf.nodeAt]
    have hpos : 0 < levels k₀ := by
      rw [← hlen]
      exact List.length_pos_iff.mpr hp
    rw [htop]
    by_cases hnull : blockAt v s₁ n k₀ [] = noBlock
    · rw [if_pos hnull]
      rcases allocBlock_allocated hv hs.blocks env (s₁.slot i).ino noBlock with
        ⟨hrun, hfull⟩ | ⟨s₂, b, hrun, hb⟩
      · exact ⟨s₁, _, (bind_of_ok hrun _).trans (if_pos rfl), rfl, hfull, [], .refl hs⟩
      · rw [bind_of_ok hrun]
        simp only [if_neg hb.data.ne_noBlock]
        have hkept : BlocksKept v s₂
            (addSectors v (setBlockEntry (s₂.writeBlk b zeroed) i k₀ b) i) :=
          (BlocksKept.writeBlk s₂ hb.data zeroed).trans (.of_slot rfl rfl rfl)
        have hslot : SlotStep v i s₂
            (addSectors v (setBlockEntry (s₂.writeBlk b zeroed) i k₀ b) i) :=
          ((SlotStep.writeBlk s₂ hb.data zeroed).trans (.setBlockEntry _ k₀ b)).trans
            (.addSectors _)
        -- the top indirect block is missing: an empty one is put in, and the walk goes on below
        -- it
        have hput : Replaced v live n i s₁ _ k₀ [] b :=
          Replacing.top hv (hb.replacing hs hn hf hslot hkept) ?_ (fun _ _ => ?_)
            fun b' hb' hne => ?_
        · have hgrown := hb.grown hn hplace hlen List.nil_prefix hpos hnull hput hkept
            (by simp [addSectors, setBlockEntry, Fs.modOdi, Fs.setSlot, Fs.writeBlk, Fs.setBlk,
              hb.slots])
          have htop' : Place (mapShape v) (n, k₀) [] := ⟨Nat.zero_le _, by simp⟩
          have hat := hput.of_null hnull hn htop'
          rw [if_pos ⟨rfl, rfl, rfl⟩] at hat
          obtain ⟨s', sc, hrun', hdone⟩ := enterIndirect_spec hv env hn p₀ _ [] hp hput.ok
            (hput.slot.found hf) hplace hlen (by rw [hat]; exact hb.data.ne_noBlock)
            (hgrown.fresh hv hfresh)
          rw [hat] at hrun'
          exact ⟨s', sc, hrun', hdone.after hgrown hn hplace⟩
        · simp [addSectors, setBlockEntry, Fs.modOdi, Fs.setSlot, Fs.writeBlk, Fs.setBlk, hb.slots]
        · exact Function.update_self ..
        · exact (Function.update_of_ne hne _ _).trans (hb.blk b' hb')
    · rw [if_neg hnull]
      exact enterIndirect_spec hv env hn p₀ s₁ [] hp hs hf hplace hlen hnull hfresh

end Enter

/-! ## The bytes of the files -/

/-- The byte at a position of a file: what its block holds there, 0 in a hole. -/
def byteAt (v : Volume) (blk : Nat → Buf) (odi : OndiskInode) (pos : Nat) : UInt8 :=
  let b := readMapEntry v blk odi pos
  if b = noBlock then 0 else blk b (pos % v.blockSize)

/-- `byteAt` of inode `n` in a state of the handler. -/
def contentAt (v : Volume) (s : Fs) (n pos : Nat) : UInt8 := byteAt v s.blk (nodeAt v s n) pos

theorem readMapEntry_eq {pos : Nat} {k : Fin 15} {p : List Nat}
    (hcalc : calcBlockIndirectionOffsets v pos = some (k, p)) (m : Nat) :
    readMapEntry v s.blk (nodeAt v s m) pos = blockAt v s m k p := by
  unfold readMapEntry
  rw [hcalc]
  rfl

theorem contentAt_eq {pos : Nat} {k : Fin 15} {p : List Nat}
    (hcalc : calcBlockIndirectionOffsets v pos = some (k, p)) (m : Nat) :
    contentAt v s m pos =
      if blockAt v s m k p = 0 then 0 else s.blk (blockAt v s m k p) (pos % v.blockSize) := by
  unfold contentAt byteAt
  rw [readMapEntry_eq hcalc]

/-- The bytes `buf` put in the place of the block of `old` that `pos` lies in. -/
def withBlock (v : Volume) (old : Nat → UInt8) (pos : Nat) (buf : Buf) (q : Nat) : UInt8 :=
  if q / v.blockSize = pos / v.blockSize then buf (q % v.blockSize) else old q

/-- A step on behalf of inode `n` after which its bytes are those of `new`; those
of the other inodes are as before. -/
structure ContentStep (v : Volume) (live : Nat → Prop) (n i : Nat) (s s' : Fs)
    (new : Nat → UInt8) : Prop where
  slot : SlotStep v i s s'
  ok : FilesOk v s' live
  content : ∀ m, live m → ∀ q, q < 2 ^ 32 →
    contentAt v s' m q = if m = n then new q else contentAt v s m q

theorem ContentStep.trans {new new' : Nat → UInt8} (h : ContentStep v live n i s s' new)
    (h' : ContentStep v live n i s' s'' new') : ContentStep v live n i s s'' new' := by
  refine ⟨h.slot.trans h'.slot, h'.ok, fun m hm q hq => ?_⟩
  rw [h'.content m hm q hq]
  by_cases hmn : m = n
  · rw [if_pos hmn, if_pos hmn]
  · rw [if_neg hmn, if_neg hmn, h.content m hm q hq, if_neg hmn]

theorem ContentStep.congr {new new' : Nat → UInt8} (h : ContentStep v live n i s s' new)
    (heq : ∀ q, q < 2 ^ 32 → new' q = new q) : ContentStep v live n i s s' new' := by
  refine ⟨h.slot, h.ok, fun m hm q hq => ?_⟩
  rw [h.content m hm q hq, heq q hq]

/-- The position of every byte is that of a leaf, in every file. -/
theorem calc_place (hlog : v.logBlockSize ≤ 5) {pos : Nat} (hpos : pos < 2 ^ 32) :
    ∃ k p, calcBlockIndirectionOffsets v pos = some (k, p) ∧ ∀ m, Leaf v m k p := by
  obtain ⟨k, p, hcalc, hlen, hplace, -⟩ := calc_spec hlog hpos
  exact ⟨k, p, hcalc, fun m => ⟨hplace m, hlen⟩⟩

/-- Leaves with the same blocks and data have the same content. -/
theorem ContentStep.of_leaves (hv : Layout v) (hslot : SlotStep v i s s')
    (hok : FilesOk v s' live)
    (hleaf : ∀ m, live m → ∀ k p, Leaf v m k p → blockAt v s' m k p = blockAt v s m k p)
    (hdata : ∀ m, live m → ∀ k p, Leaf v m k p → blockAt v s m k p ≠ 0 →
      s'.blk (blockAt v s m k p) = s.blk (blockAt v s m k p)) :
    ContentStep v live n i s s' (contentAt v s n) := by
  refine ⟨hslot, hok, fun m hm q hq => ?_⟩
  obtain ⟨k, p, hcalc, hl⟩ := calc_place hv.log_le hq
  have heq : contentAt v s' m q = contentAt v s m q := by
    rw [contentAt_eq hcalc, contentAt_eq hcalc, hleaf m hm k p (hl m)]
    by_cases hnull : blockAt v s m k p = 0
    · rw [if_pos hnull, if_pos hnull]
    · rw [if_neg hnull, if_neg hnull, hdata m hm k p (hl m) hnull]
  rw [heq]
  split
  next he => rw [he]
  next => rfl

theorem ContentStep.refl (hv : Layout v) (hs : FilesOk v s live) :
    ContentStep v live n i s s (contentAt v s n) :=
  .of_leaves hv (.refl v i s) hs (fun _ _ _ _ _ => rfl) fun _ _ _ _ _ _ => rfl

/-- Indirect blocks added are no change of content. -/
theorem MapLinked.content {k₀ : Fin 15} {p₀ new : List Nat} (hv : Layout v)
    (h : MapLinked v live n i s s' k₀ p₀ new) (hlen : p₀.length = levels k₀)
    (hsame : blockAt v s' n k₀ p₀ = blockAt v s n k₀ p₀) :
    ContentStep v live n i s s' (contentAt v s n) := by
  refine .of_leaves hv h.slot h.ok (fun m hm k p hp => ?_) h.data
  by_cases heq : m = n ∧ k = k₀ ∧ p = p₀
  · rw [heq.1, heq.2.1, heq.2.2]
    exact hsame
  · exact h.leaf hlen hm hp heq

/-- A leaf that has received a block shows that block's bytes. -/
theorem LeafPut.content (hv : Layout v) {pos : Nat} (hpos : pos < 2 ^ 32) {k₀ : Fin 15}
    {p₀ : List Nat} (hcalc₀ : calcBlockIndirectionOffsets v pos = some (k₀, p₀)) {b₀ : Nat}
    (h : LeafPut v live n i s s' k₀ p₀ b₀) (hb₀ : b₀ ≠ 0) :
    ContentStep v live n i s s' (withBlock v (contentAt v s n) pos (s'.blk b₀)) := by
  refine ⟨h.slot, h.ok, fun m hm q hq => ?_⟩
  obtain ⟨k, p, hcalc, hl⟩ := calc_place hv.log_le hq
  have hleaf := h.leaf m hm k p (hl m)
  -- the leaf of `q` is the new one when `q` is in the block of `pos`
  have hsame : (k = k₀ ∧ p = p₀) ↔ q / v.blockSize = pos / v.blockSize := by
    constructor
    · rintro ⟨rfl, rfl⟩
      exact calc_inj hv.log_le hq hpos (hcalc.trans hcalc₀.symm)
    · intro hdiv
      have := (hcalc.symm.trans (calc_congr hq hpos hdiv)).trans hcalc₀
      simpa using this
  rw [contentAt_eq hcalc, hleaf]
  by_cases hthis : m = n ∧ k = k₀ ∧ p = p₀
  · rw [if_pos hthis, if_neg hb₀, if_pos hthis.1, withBlock, if_pos (hsame.mp hthis.2)]
  · have hold : (if blockAt v s m k p = 0 then 0
        else s'.blk (blockAt v s m k p) (q % v.blockSize)) = contentAt v s m q := by
      rw [contentAt_eq hcalc]
      split
      · rfl
      next hne => rw [h.data m hm k p (hl m) hthis hne]
    rw [if_neg hthis, hold]
    by_cases hmn : m = n
    · rw [if_pos hmn, withBlock, if_neg fun hq₀ => hthis ⟨hmn, hsame.mpr hq₀⟩, hmn]
    · rw [if_neg hmn]

/-- No place is read from the block of a leaf. -/
theorem FilesOk.setBlk_leaf (hv : Layout v) (hs : FilesOk v s live) (hn : live n)
    (hf : Found s n i) {k₀ : Fin 15} {p₀ : List Nat} (hl : Leaf v n k₀ p₀)
    (hmap : blockAt v s n k₀ p₀ ≠ 0) (buf : Buf) :
    FilesOk v (s.setBlk (blockAt v s n k₀ p₀) buf) live ∧
      ∀ m, live m → ∀ k p, Place (mapShape v) (m, k) p →
        blockAt v (s.setBlk (blockAt v s n k₀ p₀) buf) m k p = blockAt v s m k p := by
  have hdata := hs.map.data n hn k₀ p₀ hl.1 hmap
  have hslot : SlotStep v i s (s.setBlk (blockAt v s n k₀ p₀) buf) := .setBlk s hdata buf
  have hplaces : ∀ m, live m → ∀ k p, Place (mapShape v) (m, k) p →
      blockAt v (s.setBlk (blockAt v s n k₀ p₀) buf) m k p = blockAt v s m k p := by
    intro m hm k p hp
    refine ptr_congr (hslot.mapRoot_eq hv hf rfl (hs.on_volume m hm)) ?_ hp
    intro q hq hlen hne j _
    refine congrArg (fun b => readIndirectBlockEntry v.beCpu b j) (Function.update_of_ne ?_ _ _)
    intro he
    obtain ⟨hr, rfl⟩ := hs.map.unshared (m, k) q (n, k₀) p₀ hm hn hq hl.1 he hne
    rw [Prod.mk.injEq] at hr
    have hlen' : q.length < levels k := hlen
    rw [hl.2, hr.2] at hlen'
    exact Nat.lt_irrefl _ hlen'
  have hkept := BlocksKept.setBlk s hdata buf
  refine ⟨⟨hs.on_volume, hkept.consistent hs.blocks, ⟨?_, ?_⟩, ?_⟩, hplaces⟩
  · exact unshared_congr hs.map.unshared fun r p hr hp => hplaces r.1 hr r.2 p hp
  · intro m hm k p hp hne
    have hat := hplaces m hm k p hp
    rw [show mapAt v _ _ m k p = blockAt v s m k p from hat] at hne ⊢
    exact hs.map.data m hm k p hp hne
  · intro m hm k p hp hne
    rw [hplaces m hm k p hp] at hne ⊢
    exact hkept.used (hs.used m hm k p hp hne)

/-- Writing to the block mapped at a position changes the bytes of that block. -/
theorem contentStep_setBlk (hv : Layout v) (hs : FilesOk v s live) (hn : live n)
    (hf : Found s n i) {pos : Nat} (hpos : pos < 2 ^ 32)
    (hmap : readMapEntry v s.blk (s.slot i).odi pos ≠ noBlock) (buf : Buf) :
    ContentStep v live n i s (s.setBlk (readMapEntry v s.blk (s.slot i).odi pos) buf)
      (withBlock v (contentAt v s n) pos buf) ∧
    readMapEntry v (s.setBlk (readMapEntry v s.blk (s.slot i).odi pos) buf).blk (s.slot i).odi pos =
      readMapEntry v s.blk (s.slot i).odi pos := by
  obtain ⟨k₀, p₀, hcalc, hl⟩ := calc_place hv.log_le hpos
  rw [← hf.nodeAt, readMapEntry_eq hcalc] at hmap ⊢
  have hdata := hs.map.data n hn k₀ p₀ (hl n).1 hmap
  have hslot : SlotStep v i s (s.setBlk (blockAt v s n k₀ p₀) buf) := .setBlk s hdata buf
  have hf' := hslot.found hf
  obtain ⟨hok, hplaces⟩ := hs.setBlk_leaf hv hn hf (hl n) hmap buf
  have hput : LeafPut v live n i s (s.setBlk (blockAt v s n k₀ p₀) buf) k₀ p₀
      (blockAt v s n k₀ p₀) := by
    refine ⟨hslot, hok, fun m hm k p hp => ?_, fun m hm k p hp hnot hne => ?_⟩
    · rw [hplaces m hm k p hp.1]
      split
      next he => rw [he.1, he.2.1, he.2.2]
      next => rfl
    · refine Function.update_of_ne (fun he => hnot ?_) _ _
      obtain ⟨hr, rfl⟩ := hs.map.unshared (m, k) p (n, k₀) p₀ hm hn hp.1 (hl n).1 he hne
      rw [Prod.mk.injEq] at hr
      exact ⟨hr.1, hr.2, rfl⟩
  constructor
  · have hcontent := hput.content hv hpos hcalc hmap
    rwa [show (s.setBlk (blockAt v s n k₀ p₀) buf).blk (blockAt v s n k₀ p₀) = buf from
      Function.update_self ..] at hcontent
  · have hread := readMapEntry_eq (s := s.setBlk (blockAt v s n k₀ p₀) buf) hcalc n
    rw [hf'.nodeAt, hplaces n hn k₀ p₀ (hl n).1] at hread
    rw [hf.nodeAt]
    exact hread

/-- The mark of a buffer is nothing to the files. -/
theorem ContentStep.writeBlk {new : Nat → UInt8} {b : Nat} {buf : Buf}
    (h : ContentStep v live n i s (s'.setBlk b buf) new) :
    ContentStep v live n i s (s'.writeBlk b buf) new :=
  ⟨⟨h.slot.hash, h.slot.unused, h.slot.slot, h.slot.ino, h.slot.count, h.slot.kept, h.slot.system,
      h.slot.inodes⟩,
    ⟨h.ok.on_volume, ⟨h.ok.blocks.free_count, h.ok.blocks.free_sum, h.ok.blocks.system,
      h.ok.blocks.past⟩, ⟨h.ok.map.unshared, h.ok.map.data⟩, h.ok.used⟩, h.content⟩

/-! ## `new_block` -/

/-- Giving back a block that is in no file. -/
theorem freeBlock_fresh (hv : Layout v) (hs : FilesOk v s live) (hf : Found s n i)
    (hb : Fresh v s live b) (env : Env) (k₀ : Fin 15) (p₀ : List Nat) :
    ∃ s', freeBlock v env s b = .ok s' ∧ MapLinked v live n i s s' k₀ p₀ [] ∧
      ∀ c, BlockFree v s' c ↔ BlockFree v s c ∨ c = b := by
  have hused := hb.used
  obtain ⟨hdata, ⟨g, j, hg, hj, rfl, hset⟩, hnot⟩ := hb
  have hbit : ∀ h k, h < v.groupsCount → bbit v (unmarkBlock v env s g j) h k =
      if g = h ∧ j = k then false else bbit v s h k :=
    fun h k hh => bbit_unmarkBlock hv.toBlockGeom hg hdata.2.2 hh
  have hslot : SlotStep v i s (unmarkBlock v env s g j) := by
    refine ⟨rfl, rfl, fun _ _ => rfl, rfl, rfl, ⟨_, _, rfl⟩, fun b' hb' hne => ?_,
      rfl, rfl, fun h => ?_⟩
    · have hne' : b' ≠ blockOf v g j := fun he => hdata.2.2 (he ▸ hb')
      exact (Function.update_of_ne hne' _ _).trans (Function.update_of_ne (hne g hg).symm _ _)
    · by_cases hh : h = g
      · subst hh
        simp [unmarkBlock]
      · simp [unmarkBlock, Function.update_of_ne hh]
  have hblk : ∀ m, live m → ∀ k p, Place (mapShape v) (m, k) p → blockAt v s m k p ≠ 0 →
      (unmarkBlock v env s g j).blk (blockAt v s m k p) = s.blk (blockAt v s m k p) := by
    intro m hm k p hp hne
    have hd := hs.map.data m hm k p hp hne
    exact (Function.update_of_ne (hnot m hm k p hp) _ _).trans
      (Function.update_of_ne (hd.ne_blockBitmap hg).symm _ _)
  obtain ⟨hok, hat⟩ := hs.frame
    (fun r hr => hslot.mapRoot_eq hv hf rfl (hs.on_volume r.1 hr))
    (unmarkBlock_consistent hv.toBlockGeom hs.blocks hg hj hset hdata)
    hblk fun m hm k p hp hne => by
      obtain ⟨h, l, hh, hl, heq, hset'⟩ := hs.used m hm k p hp hne
      refine ⟨h, l, hh, hl, heq, ?_⟩
      rw [hbit h l hh, if_neg, hset']
      rintro ⟨rfl, rfl⟩
      exact hnot m hm k p hp heq
  exact ⟨_, freeBlock_spec hv.toBlockGeom hg hj hset hdata, .of_places hslot hok hat
    (fun m hm k p hp => hblk m hm k p hp.1) rfl, (onlyBlockBit_of_bit hj hbit).free_of_clear hused⟩

/-- How `new_block` can end on a hole: indirect blocks have been added, and the block that
was to hang off them is free again, or the position has a cleared block too. -/
def NewBlockEnds (v : Volume) (live : Nat → Prop) (n i : Nat) (s s' : Fs) (k₀ : Fin 15)
    (p₀ : List Nat) : Option Nat → Prop
  | none => ∃ new, Grown v live n i s s' k₀ p₀ new ∧ (new ≠ [] → ∃ c, BlockFree v s' c)
  | some b => blockAt v s' n k₀ p₀ = b ∧ s'.blk b = zeroed ∧ ∃ new,
      MapLinked v live n i s s' k₀ p₀ (new ++ [b]) ∧ Taken v s s' (new ++ [b])

/-- `new_block` adds the missing indirect blocks and the block itself, or as many of the
indirect blocks as there is room for. -/
theorem newBlock_hole (hv : Layout v) (env : Env) (hs : FilesOk v s live) (hn : live n)
    (hf : Found s n i) {pos : Nat} {k₀ : Fin 15} {p₀ : List Nat}
    (hcalc : calcBlockIndirectionOffsets v pos = some (k₀, p₀)) (hl : Leaf v n k₀ p₀)
    (hhole : blockAt v s n k₀ p₀ = 0) :
    ∃ s' r, newBlock v env s i pos = .ok (s', r) ∧ NewBlockEnds v live n i s s' k₀ p₀ r := by
  have hread : readMapEntry v s.blk (s.slot i).odi pos = noBlock := by
    rw [← hf.nodeAt, readMapEntry_eq hcalc]
    exact hhole
  unfold newBlock
  simp only [hread, if_true]
  rcases allocBlock_allocated hv hs.blocks env (s.slot i).ino noBlock with
    ⟨hrun, -⟩ | ⟨s₁, b, hrun, hb⟩
  · exact ⟨s, none, (bind_of_ok hrun _).trans (if_pos rfl), [], .refl hs, fun h => absurd rfl h⟩
  -- the block is taken, and in no file yet
  obtain ⟨hsame, hfresh⟩ := hb.same hv hs hf k₀ p₀
  have hhole₁ : blockAt v s₁ n k₀ p₀ = 0 := by
    rcases hsame.place n hn k₀ p₀ hl.1 with heq | ⟨-, -, hmem⟩
    · rw [heq, hhole]
    · cases hmem
  obtain ⟨s₂, sc, hrun₂, hdone⟩ := enterMapEntry_spec hv env hsame.ok hn (hsame.slot.found hf)
    hcalc hl hfresh
  rw [bind_of_ok hrun]
  simp only [if_neg hb.data.ne_noBlock]
  rw [bind_of_ok hrun₂]
  cases sc with
  | error e =>
    -- the block is given back; the indirect blocks stay
    obtain ⟨-, -, new, hgrown⟩ := hdone
    obtain ⟨s₃, hrun₃, hlast, hfree⟩ := freeBlock_fresh hv hgrown.ok
      (hgrown.slot.found (hsame.slot.found hf)) (hgrown.fresh hv hfresh) env k₀ p₀
    have hlinked := (hsame.trans hgrown.toMapLinked hn hl.1).trans hlast hn hl.1
    rw [List.nil_append, List.append_nil] at hlinked
    refine ⟨s₃, none, bind_of_ok hrun₃ _, new, ⟨hlinked, ?_, ?_⟩,
      fun _ => ⟨b, (hfree b).mpr (.inr rfl)⟩⟩
    · rcases hlast.place n hn k₀ p₀ hl.1 with heq | ⟨-, -, hmem⟩
      · rw [heq, hgrown.end_same, hhole₁, hhole]
      · cases hmem
    · have htaken := hb.taken.trans hgrown.taken
      refine ⟨fun c hc => htaken.1 c (List.mem_append_right _ hc), fun c => ?_⟩
      rw [hfree c, htaken.2 c, List.mem_append, List.mem_singleton]
      by_cases hcb : c = b
      · rw [hcb]
        refine iff_of_true (.inr rfl) ⟨hb.free, fun hmem => ?_⟩
        exact ((hb.taken.2 b).mp (hgrown.taken.1 b hmem)).2 (List.mem_singleton_self b)
      · rw [or_iff_left hcb, or_iff_right hcb]
  | ok u =>
    obtain ⟨s₃, new, hgrown, hentered⟩ := hdone
    have hhole₃ := hgrown.end_same.trans hhole₁
    have hlast : MapLinked v live n i s₃ s₂ k₀ p₀ [b] :=
      hentered.replaced.linked hhole₃ hn hl.1 List.prefix_rfl hb.data hentered.sectors
    have hlinked := (hsame.trans hgrown.toMapLinked hn hl.1).trans hlast hn hl.1
    rw [List.nil_append] at hlinked
    have htaken := (hb.taken.trans hgrown.taken).trans hentered.taken
    have hat : blockAt v s₂ n k₀ p₀ = b := by
      rw [hentered.replaced.of_null hhole₃ hn hl.1, if_pos ⟨rfl, rfl, rfl⟩]
    have hne : blockAt v s₂ n k₀ p₀ ≠ 0 := by
      rw [hat]
      exact hb.data.ne_noBlock
    -- the block is in the map now; clearing it changes no other file
    obtain ⟨hok, hplaces⟩ := hlinked.ok.setBlk_leaf hv hn (hlinked.slot.found hf) hl hne zeroed
    have hkept := BlocksKept.setBlk s₂ hb.data zeroed
    rw [hat] at hok hplaces
    refine ⟨_, some b, rfl, (hplaces n hn k₀ p₀ hl.1).trans hat, Function.update_self .., new,
      ⟨⟨fun m hm k p hp => ?_, fun c hc => ?_, hlinked.nodup⟩,
        hlinked.slot.trans (.setBlk s₂ hb.data zeroed), hok, fun m hm k p hp hnull => ?_,
        hlinked.sectors⟩, ?_, ?_⟩
    · rw [hplaces m hm k p hp]
      exact hlinked.place m hm k p hp
    · obtain ⟨hdata, p, hp, hnull, hc⟩ := hlinked.linked c hc
      exact ⟨hdata, p, hp, hnull, (hplaces n hn k₀ p (hl.1.initial hp)).trans hc⟩
    · -- a leaf that held a block is not the one that is cleared
      refine (Function.update_of_ne (fun he => ?_) _ _).trans (hlinked.data m hm k p hp hnull)
      have hsame' := hlinked.stays hm hp.1 hnull
      obtain ⟨hr, rfl⟩ := hlinked.ok.map.unshared (m, k) p (n, k₀) p₀ hm hn hp.1 hl.1
        (hsame'.trans (he.trans hat.symm))
        (by rw [show ptr _ _ _ _ p = blockAt v s m k p from hsame']; exact hnull)
      rw [Prod.mk.injEq] at hr
      rw [hr.1, hr.2] at hnull
      exact hnull hhole
    · intro c hc
      refine htaken.1 c ?_
      simpa [or_comm] using hc
    · intro c
      rw [hkept.free_iff, htaken.2 c]
      simp [or_comm]

/-- `new_block` returns a cleared block mapped at the position, or no content has changed. -/
theorem newBlock_spec (hv : Layout v) (env : Env) (hs : FilesOk v s live) (hn : live n)
    (hf : Found s n i) {pos : Nat} (hpos : pos < 2 ^ 32) :
    ∃ s' r, newBlock v env s i pos = .ok (s', r) ∧ match r with
      | none => ContentStep v live n i s s' (contentAt v s n)
      | some b => ContentStep v live n i s s' (withBlock v (contentAt v s n) pos zeroed) ∧
          b ≠ noBlock ∧ readMapEntry v s'.blk (s'.slot i).odi pos = b ∧ s'.blk b = zeroed := by
  obtain ⟨k₀, p₀, hcalc, hl⟩ := calc_place hv.log_le hpos
  have hread : readMapEntry v s.blk (s.slot i).odi pos = blockAt v s n k₀ p₀ := by
    rw [← hf.nodeAt, readMapEntry_eq hcalc]
  by_cases hnull : blockAt v s n k₀ p₀ = 0
  · obtain ⟨s', r, hrun, hdone⟩ := newBlock_hole hv env hs hn hf hcalc (hl n) hnull
    refine ⟨s', r, hrun, ?_⟩
    cases r with
    | none =>
      obtain ⟨new, hgrown, -⟩ := hdone
      exact hgrown.toMapLinked.content hv (hl n).2 hgrown.end_same
    | some b =>
      obtain ⟨hat, hzero, new, hlinked, -⟩ := hdone
      have hb : b ≠ 0 := (hlinked.linked b (by simp)).1.ne_noBlock
      have hput : LeafPut v live n i s s' k₀ p₀ b := by
        refine ⟨hlinked.slot, hlinked.ok, fun m hm k p hp => ?_,
          fun m hm k p hp _ => hlinked.data m hm k p hp⟩
        split
        next heq => rw [heq.1, heq.2.1, heq.2.2, hat]
        next hnot => exact hlinked.leaf (hl n).2 hm hp hnot
      have hfill := hput.content hv hpos hcalc hb
      rw [hzero] at hfill
      refine ⟨hfill, hb, ?_, hzero⟩
      rw [← (hlinked.slot.found hf).nodeAt, readMapEntry_eq hcalc, hat]
  · -- clearing the block that is mapped is all there is to do
    unfold newBlock
    simp only [hread]
    rw [if_neg hnull]
    have hmap : readMapEntry v s.blk (s.slot i).odi pos ≠ noBlock := by
      rw [hread]
      exact hnull
    obtain ⟨hstep, hmap'⟩ := contentStep_setBlk hv hs hn hf hpos hmap zeroed
    rw [hread] at hstep hmap'
    exact ⟨_, some _, rfl, hstep, hnull, hmap', Function.update_self ..⟩

end Steps

end Cheviot.Ext2
