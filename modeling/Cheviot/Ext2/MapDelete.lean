import Cheviot.Ext2.Hosts
import Cheviot.Ext2.MapInsert

/-!
# Deleting from a block map

`delete_map_entry` goes down the indirect blocks of a position, clears the entry of
the position if it gets there, and comes up again: an indirect block that has no
entries left is unlinked from the one above it and freed.

Both ways are loops over the levels, each with an invariant about the path: the blocks gone over
so far (`Chain`), and what has been unlinked below (`PrunedFrom`). A block on the way up is kept
exactly when something remains in it (`Remains`), and what remains is known from the rounds
below.

* `deleteMapEntry` — with the indices used on its two arrays of four elements,
  `offs` and `indirect_blocks`, one after the other.
* `MapCut`, `Freed` — places on one path have lost their blocks, and which blocks
  have become free.
* `pruneUp_spec` — the way up unlinks and frees the empty blocks of the chain and
  no others.
* `deleteMapEntry_spec` — what the call does to the map, at every position.
* `deleteMapEntry_inside_iff` — the arrays are used inside their bounds for direct
  blocks only: `get_indirect_blocks` stores its dummy value at index 9.

Mirroring notes:
- The arrays are functions of the index. A store outside the four elements goes to an
  index of its own, which no element is read from; what it overwrites on the stack of
  the source is not modelled.
- `indirect_blocks` is not initialised in the source. The elements read have been
  written before.
- `get_indirect_blocks` returns no negative value, and the buffers are never null.
-/

namespace Cheviot.Ext2

open Cheviot.Bytes Cheviot.Bits Cheviot.Forest

/-! ## The functions -/

/-- `get_toplevel_indirect_block_entry` and `set_toplevel_indirect_block_entry`: the
element of `i_block` for a depth. -/
def toplevelEntry (depth : Nat) : Option (Fin 15) :=
  if depth = 1 then some indBlock
  else if depth = 2 then some dindBlock
  else if depth = 3 then some tindBlock
  else none

/-- `is_empty_indirect_block`. -/
def isEmptyIndirectBlock (v : Volume) (b : Buf) : Bool :=
  (List.range v.addrInBlock).all fun i => ld32 v.beCpu b (4 * i) == 0

/-- `inode->odi.i_blocks -= sb_sectors_in_block`. -/
def subSectors (v : Volume) (s : Fs) (i : Nat) : Fs :=
  s.modOdi i fun odi => { odi with blocks := odi.blocks - UInt32.ofNat v.sectorsInBlock }

/-- The array `offs` as `calc_block_indirection_offsets` leaves it. -/
def offsArray (k : Fin 15) (path : List Nat) (index : Nat) : Nat :=
  if index = 0 then k else path.getD (index - 1) 0

/-- The loop of `get_indirect_blocks`, with `left` rounds to go: the value of `actual` in
the end, the array `block` and the indices used. -/
def getIndirectBlocksLoop (v : Volume) (s : Fs) (top : Nat) (offs : Nat → Nat) :
    Nat → Nat → (Nat → Nat) → List Nat → Nat × (Nat → Nat) × List Nat
  | 0, actual, block, used => (actual, block, used)
  | left + 1, actual, block, used =>
    let next := if actual = 0 then top
      else readIndirectBlockEntry v.beCpu (s.blk (block actual)) (offs actual)
    let used := used ++ (if actual = 0 then [1] else [actual, actual, actual + 1]) ++ [actual + 1]
    let block := Function.update block (actual + 1) next
    if next = noBlock then (actual, block, used)
    else getIndirectBlocksLoop v s top offs left (actual + 1) block used

/-- `get_indirect_blocks`. -/
def getIndirectBlocks (v : Volume) (s : Fs) (top depth : Nat) (offs block : Nat → Nat)
    (used : List Nat) : Nat × (Nat → Nat) × List Nat :=
  -- "dummy value to align offs[x] and block[x]"
  getIndirectBlocksLoop v s top offs depth 0 (Function.update block 9 0) (used ++ [9])

/-- The loop of `delete_map_entry` that goes up the indirect blocks, from index `t` on. -/
def pruneUp (v : Volume) (env : Env) (i : Nat) (offs block : Nat → Nat) :
    Nat → Fs → Bool → List Nat → Except Fault (Fs × Bool × List Nat)
  | 0, s, lastEmpty, used => .ok (s, lastEmpty, used)
  | t + 1, s, lastEmpty, used => do
    if lastEmpty then
      let s := s.writeBlk (block (t + 1))
        (writeIndirectBlockEntry v.beCpu (s.blk (block (t + 1))) (offs (t + 1)) noBlock)
      let s ← freeBlock v env s (block (t + 2))
      let s := subSectors v s i
      pruneUp v env i offs block t s (isEmptyIndirectBlock v (s.blk (block (t + 1))))
        (used ++ [t + 1, t + 1, t + 2])
    else
      pruneUp v env i offs block t s (isEmptyIndirectBlock v (s.blk (block (t + 1))))
        (used ++ [t + 1])

/-- The end of `delete_map_entry`: the topmost indirect block goes if it is empty too. -/
def pruneTop (v : Volume) (env : Env) (i : Nat) (k : Fin 15) (block : Nat → Nat) :
    Fs × Bool × List Nat → Except Fault (Fs × Except Errno Unit × List Nat)
  | (s, false, used) => .ok (s, .ok (), used)
  | (s, true, used) => do
    let s ← freeBlock v env (setBlockEntry s i k noBlock) (block 1)
    return (subSectors v s i, .ok (), used ++ [1])

/-- `delete_map_entry`, on cache slot `i`, with the indices used on the two arrays. -/
def deleteMapEntry (v : Volume) (env : Env) (s : Fs) (i position : Nat) :
    Except Fault (Fs × Except Errno Unit × List Nat) :=
  match calcBlockIndirectionOffsets v position with
  | none => .ok (s, .error .einval, [])
  | some (k, path) => do
    let depth := path.length
    let used := List.range (depth + 1)
    let s := inodeMarkdirty s i
    if depth = 0 then
      return (subSectors v (setBlockEntry s i k noBlock) i, .ok (), used ++ [0])
    match toplevelEntry depth with
    | none => .error (.panic "extfs: invalid indirect block depth")
    | some k =>
      let offs := offsArray k path
      let (actual, block, used) :=
        getIndirectBlocks v s ((s.slot i).odi.block k).toNat depth offs (fun _ => 0) used
      if actual = 0 then return (s, .ok (), used)
      let (s, used) := if actual = depth then
          (subSectors v (s.writeBlk (block depth)
            (writeIndirectBlockEntry v.beCpu (s.blk (block depth)) (offs depth) noBlock)) i,
            used ++ [depth, depth])
        else (s, used)
      let r ← pruneUp v env i offs block actual s false used
      pruneTop v env i k block r

/-! ## Blocks taken out of a map -/

/-- A step on behalf of inode `n` after which the blocks of `gone` are missing from
places on the path `p₀` below entry `k₀` of its map. -/
structure MapCut (v : Volume) (live : Nat → Prop) (n i : Nat) (s s' : Fs) (k₀ : Fin 15)
    (p₀ gone : List Nat) : Prop where
  slot : SlotStep v i s s'
  ok : FilesOk v s' live
  back : MapAdds v live n s' s k₀ p₀ gone
  data : ∀ m, live m → ∀ k p, Leaf v m k p → blockAt v s' m k p ≠ 0 →
    s'.blk (blockAt v s' m k p) = s.blk (blockAt v s' m k p)

/-- The blocks of `gone` were marked and are free now; no other bit has changed. -/
def Freed (v : Volume) (s s' : Fs) (gone : List Nat) : Prop :=
  (∀ b ∈ gone, BlockUsed v s b) ∧ ∀ b, BlockFree v s' b ↔ BlockFree v s b ∨ b ∈ gone

/-- The entries of block `b` are all null. -/
def Empty (v : Volume) (s : Fs) (b : Nat) : Prop :=
  ∀ j, j < v.addrInBlock → readIndirectBlockEntry v.beCpu (s.blk b) j = 0

theorem isEmptyIndirectBlock_iff (v : Volume) (s : Fs) (b : Nat) :
    isEmptyIndirectBlock v (s.blk b) = true ↔ Empty v s b := by
  have hentry : ∀ j, readIndirectBlockEntry v.beCpu (s.blk b) j = 0 ↔
      ld32 v.beCpu (s.blk b) (4 * j) = 0 := by
    intro j
    unfold readIndirectBlockEntry
    rw [bswap4_ld32, ld32_eq_zero v.beCpu, ← UInt32.toNat_inj]
    rfl
  unfold isEmptyIndirectBlock Empty
  rw [List.all_eq_true]
  constructor
  · intro h j hj
    exact (hentry j).mpr (beq_iff_eq.mp (h j (List.mem_range.mpr hj)))
  · intro h j hj
    exact beq_iff_eq.mpr ((hentry j).mp (h j (List.mem_range.mp hj)))

section Cut

variable {v : Volume} {live : Nat → Prop} {n i b : Nat} {s s' s'' : Fs} {k₀ : Fin 15}
  {p₀ q gone gone' : List Nat}

theorem BlocksKept.freed (h : BlocksKept v s s') : Freed v s s' [] := by
  refine ⟨fun b hb => ?_, fun b => ?_⟩
  · cases hb
  · rw [h.free_iff, or_iff_left List.not_mem_nil]

theorem Freed.trans (h : Freed v s s' gone) (h' : Freed v s' s'' gone')
    (hused : ∀ b ∈ gone', BlockUsed v s b) : Freed v s s'' (gone' ++ gone) := by
  refine ⟨fun b hb => ?_, fun b => ?_⟩
  · rcases List.mem_append.mp hb with hb | hb
    · exact hused b hb
    · exact h.1 b hb
  · rw [h'.2 b, h.2 b, List.mem_append, or_assoc, or_comm (a := b ∈ gone)]

/-- A step that changes no place takes no block out. -/
theorem MapLinked.cut (h : MapLinked v live n i s s' k₀ p₀ []) :
    MapCut v live n i s s' k₀ p₀ [] := by
  have hsame : ∀ m, live m → ∀ k p, Place (mapShape v) (m, k) p →
      blockAt v s' m k p = blockAt v s m k p := by
    intro m hm k p hp
    rcases h.place m hm k p hp with heq | ⟨-, -, hmem⟩
    · exact heq
    · cases hmem
  refine ⟨h.slot, h.ok, .of_places fun m hm k p hp => (hsame m hm k p hp).symm,
    fun m hm k p hp hne => ?_⟩
  rw [hsame m hm k p hp.1] at hne ⊢
  exact h.data m hm k p hp hne

theorem MapCut.trans (h : MapCut v live n i s s' k₀ p₀ gone)
    (h' : MapCut v live n i s' s'' k₀ p₀ gone') (hs : FilesOk v s live) (hn : live n)
    (hp₀ : Place (mapShape v) (n, k₀) p₀) : MapCut v live n i s s'' k₀ p₀ (gone' ++ gone) := by
  refine ⟨h.slot.trans h'.slot, h'.ok, h'.back.trans h.back hs hn hp₀, fun m hm k p hp hne => ?_⟩
  have hsame := h'.back.stays hm hp.1 hne
  rw [h'.data m hm k p hp hne, ← hsame]
  exact h.data m hm k p hp (by rwa [hsame])

/-- Nothing is found below an empty block. -/
theorem Empty.below (h : Empty v s (blockAt v s n k₀ q)) {p : List Nat} (hp : q <+: p)
    (hne : p ≠ q) (hplace : Place (mapShape v) (n, k₀) p) : blockAt v s n k₀ p = 0 := by
  obtain ⟨t, rfl⟩ := hp
  cases t with
  | nil => exact absurd (List.append_nil q) hne
  | cons j t =>
    have hj : j < v.addrInBlock := hplace.2 j (by simp)
    have hnext : blockAt v s n k₀ (q ++ [j]) = 0 := by
      by_cases hnull : blockAt v s n k₀ q = 0
      · exact ptr_concat_of_null hnull j
      · exact (ptr_concat_of_ne hnull j).trans (h j hj)
    have happ : blockAt v s n k₀ ((q ++ [j]) ++ t) =
        follow (readIndirectBlockEntry v.beCpu) s.blk (blockAt v s n k₀ (q ++ [j])) t :=
      ptr_append (n, k₀) (q ++ [j]) t
    rw [show q ++ j :: t = (q ++ [j]) ++ t by simp, happ, hnext, follow_null]

/-- An entry set to null takes out the block that was there, if nothing was below it. -/
theorem Replaced.cut (h : Replaced v live n i s s' k₀ q 0) (hs : FilesOk v s live) (hn : live n)
    (hp₀ : Place (mapShape v) (n, k₀) p₀) (hq : q <+: p₀)
    (hbelow : ∀ p, q <+: p → p ≠ q → Place (mapShape v) (n, k₀) p → blockAt v s n k₀ p = 0) :
    MapCut v live n i s s' k₀ p₀
      (if blockAt v s n k₀ q = 0 then [] else [blockAt v s n k₀ q]) := by
  have hplace := hp₀.initial hq
  have hgone : blockAt v s' n k₀ q = 0 :=
    (h.place n hn k₀ q hplace).trans (setAt_self _)
  -- only the place of the entry gets another block
  have hcases : ∀ m, live m → ∀ k p, Place (mapShape v) (m, k) p →
      blockAt v s m k p = blockAt v s' m k p ∨ m = n ∧ k = k₀ ∧ p = q := by
    intro m hm k p hp
    have hat := h.place m hm k p hp
    by_cases hin : (m, k) = (n, k₀) ∧ q <+: p
    · obtain ⟨hr, hpre⟩ := hin
      obtain ⟨rfl, rfl⟩ := Prod.mk.inj hr
      by_cases hpq : p = q
      · exact .inr ⟨rfl, rfl, hpq⟩
      · refine .inl ?_
        rw [hbelow p hpre hpq hp, hat, setAt_below _ hpre hpq]
    · refine .inl ?_
      rw [hat, setAt_of_not _ hin]
  refine ⟨h.slot, h.ok, ⟨fun m hm k p hp => ?_, fun c hc => ?_, ?_⟩, fun m hm k p hp hne => ?_⟩
  · rcases hcases m hm k p hp with heq | ⟨rfl, rfl, rfl⟩
    · exact .inl heq
    · by_cases hnull : blockAt v s m k p = 0
      · rw [hnull, hgone]
        exact .inl rfl
      · rw [if_neg hnull]
        exact .inr ⟨⟨rfl, rfl, hq⟩, hgone, List.mem_singleton_self _⟩
  · by_cases hnull : blockAt v s n k₀ q = 0
    · rw [if_pos hnull] at hc
      cases hc
    · rw [if_neg hnull, List.mem_singleton] at hc
      rw [hc]
      exact ⟨hs.map.data n hn k₀ q hplace hnull, q, hq, hgone, rfl⟩
  · split
    · exact .nil
    · exact List.nodup_singleton _
  · rcases hcases m hm k p hp.1 with heq | ⟨rfl, rfl, rfl⟩
    · rw [← heq] at hne ⊢
      exact h.data m hm k p hp hne
    · exact absurd hgone hne

/-- A block taken out of the map is in no file. -/
theorem MapCut.fresh (h : MapCut v live n i s s' k₀ p₀ gone) (hs : FilesOk v s live) (hn : live n)
    (hp₀ : Place (mapShape v) (n, k₀) p₀) (hb : b ∈ gone) (hused : BlockUsed v s' b) :
    Fresh v s' live b := by
  obtain ⟨hdata, q, hq, hnull, hat⟩ := h.back.linked b hb
  refine ⟨hdata, hused, fun m hm k p hp he => ?_⟩
  have hne : blockAt v s' m k p ≠ 0 := by
    rw [he]
    exact hdata.ne_noBlock
  have hback := (h.back.stays hm hp hne).trans he
  obtain ⟨hr, rfl⟩ := hs.map.unshared (m, k) p (n, k₀) q hm hn hp (hp₀.initial hq)
    (hback.trans hat.symm) (by rw [show ptr _ _ _ _ p = b from hback]; exact hdata.ne_noBlock)
  obtain ⟨rfl, rfl⟩ := Prod.mk.inj hr
  exact hne hnull

theorem SlotStep.subSectors (s : Fs) : SlotStep v i s (subSectors v s i) := by
  refine ⟨rfl, rfl, fun j hj => Function.update_of_ne hj _ _, ?_, ?_, ?_, fun _ _ _ => rfl,
    rfl, rfl, fun _ => ⟨rfl, rfl⟩⟩
  · simp [Ext2.subSectors, Fs.modOdi, Fs.setSlot]
  · simp [Ext2.subSectors, Fs.modOdi, Fs.setSlot]
  · exact ⟨(s.slot i).odi.block, (s.slot i).odi.blocks - UInt32.ofNat v.sectorsInBlock, by
      simp [Ext2.subSectors, Fs.modOdi, Fs.setSlot]⟩

theorem subSectors_blocks (s : Fs) : ((subSectors v s i).slot i).odi.blocks =
    (s.slot i).odi.blocks - UInt32.ofNat v.sectorsInBlock := by
  simp [subSectors, Fs.modOdi, Fs.setSlot]

theorem MapCut.subSectors (hv : Layout v) (hs : FilesOk v s live) (hf : Found s n i)
    (k₀ : Fin 15) (p₀ : List Nat) : MapCut v live n i s (subSectors v s i) k₀ p₀ [] := by
  have hkept : BlocksKept v s (Ext2.subSectors v s i) := .of_slot rfl rfl rfl
  obtain ⟨hok, hat⟩ := hs.frame (fun r hr => (SlotStep.subSectors s).mapRoot_eq hv hf
      (by simp [Ext2.subSectors, Fs.modOdi, Fs.setSlot]) (hs.on_volume r.1 hr))
    (hkept.consistent hs.blocks) (fun _ _ _ _ _ _ => rfl) hs.used
  exact ⟨.subSectors s, hok, .of_places fun m hm k p hp => (hat m hm k p hp).symm,
    fun _ _ _ _ _ _ => rfl⟩

/-- No block is put in. -/
theorem Replacing.null (hs : FilesOk v s live) (hn : live n) (hf : Found s n i)
    (hslot : SlotStep v i s s') (hkept : BlocksKept v s s') : Replacing v live n i s s' 0 where
  files := hs
  live_n := hn
  found := hf
  slot := hslot
  blocks := hkept.consistent hs.blocks
  used := fun _ hb => hkept.used hb
  data₀ := fun h => absurd rfl h
  used₀ := fun h => absurd rfl h
  not_mapped := fun h => absurd rfl h

/-- `NO_BLOCK` written into entry `j` of indirect block `b`. -/
def clearEntry (v : Volume) (s : Fs) (b j : Nat) : Fs :=
  s.writeBlk b (writeIndirectBlockEntry v.beCpu (s.blk b) j noBlock)

theorem clearEntry_replaced (hv : Layout v) (hs : FilesOk v s live) (hn : live n)
    (hf : Found s n i) {j : Nat} (hplace : Place (mapShape v) (n, k₀) (q ++ [j]))
    (hne : blockAt v s n k₀ q ≠ 0) :
    Replaced v live n i s (clearEntry v s (blockAt v s n k₀ q) j) k₀ (q ++ [j]) 0 ∧
      BlocksKept v s (clearEntry v s (blockAt v s n k₀ q) j) := by
  have hdata := hs.map.data n hn k₀ q hplace.left hne
  have hkept := BlocksKept.writeBlk s hdata
    (writeIndirectBlockEntry v.beCpu (s.blk (blockAt v s n k₀ q)) j noBlock)
  have hslot := SlotStep.writeBlk (i := i) s hdata
    (writeIndirectBlockEntry v.beCpu (s.blk (blockAt v s n k₀ q)) j noBlock)
  refine ⟨?_, hkept⟩
  apply Replacing.interior hv (.null hs hn hf hslot hkept) hplace hne rfl
  · exact Function.update_self ..
  · intro h
    exact absurd rfl h
  · intro b _ hb _
    exact Function.update_of_ne hb _ _

/-- An empty block on the path is unlinked and freed. -/
theorem unlink_empty (hv : Layout v) (env : Env) (hs : FilesOk v s live) (hn : live n)
    (hf : Found s n i) (hp₀ : Place (mapShape v) (n, k₀) p₀) (hq : q <+: p₀)
    (hempty : Empty v s (blockAt v s n k₀ q)) (hne : blockAt v s n k₀ q ≠ 0)
    (hcut : Replaced v live n i s s' k₀ q 0) (hkept : BlocksKept v s s')
    (hsame : (s'.slot i).odi.blocks = (s.slot i).odi.blocks) :
    ∃ s'', freeBlock v env s' (blockAt v s n k₀ q) = .ok s'' ∧
      MapCut v live n i s (subSectors v s'' i) k₀ p₀ [blockAt v s n k₀ q] ∧
      Freed v s (subSectors v s'' i) [blockAt v s n k₀ q] ∧
      ((subSectors v s'' i).slot i).odi.blocks =
        (s.slot i).odi.blocks - UInt32.ofNat v.sectorsInBlock := by
  have hplace := hp₀.initial hq
  have hout := hcut.cut hs hn hp₀ hq fun p hp hpq hplace => hempty.below hp hpq hplace
  rw [if_neg hne] at hout
  have hused := hs.used n hn k₀ q hplace hne
  have hfresh := hout.fresh hs hn hp₀ (List.mem_singleton_self _) (hkept.used hused)
  have hf' := hcut.slot.found hf
  obtain ⟨s'', hrun, hlinked, hfree⟩ := freeBlock_fresh hv hcut.ok hf' hfresh env k₀ p₀
  have hsub := MapCut.subSectors hv hlinked.ok (hlinked.slot.found hf') k₀ p₀
  have hkept' : BlocksKept v s'' (Ext2.subSectors v s'' i) := .of_slot rfl rfl rfl
  refine ⟨s'', hrun, (hout.trans hlinked.cut hs hn hp₀).trans hsub hs hn hp₀, ⟨fun b hb => ?_,
    fun b => ?_⟩, ?_⟩
  · rw [List.mem_singleton.mp hb]
    exact hused
  · rw [hkept'.free_iff, hfree, hkept.free_iff, List.mem_singleton]
  · rw [subSectors_blocks, hlinked.sectors, hsame, List.length_nil, Nat.mul_zero]
    exact congrArg (· - _) (UInt32.add_zero _)

theorem MapCut.same (h : MapCut v live n i s s' k₀ p₀ gone) {m : Nat} (hm : live m) {k : Fin 15}
    {p : List Nat} (hp : Place (mapShape v) (m, k) p) (hnot : blockAt v s m k p ∉ gone) :
    blockAt v s' m k p = blockAt v s m k p := by
  rcases h.back.place m hm k p hp with heq | ⟨-, -, hmem⟩
  · exact heq.symm
  · exact absurd hmem hnot

/-- Different places of a map do not hold the same block. -/
theorem FilesOk.ne_block (hs : FilesOk v s live) (hn : live n) {p : List Nat}
    (hp : Place (mapShape v) (n, k₀) p) (hq : Place (mapShape v) (n, k₀) q)
    (hne : blockAt v s n k₀ p ≠ 0) (hpq : p ≠ q) : blockAt v s n k₀ p ≠ blockAt v s n k₀ q :=
  fun he => hpq (hs.map.unshared (n, k₀) p (n, k₀) q hn hn hp hq he hne).2

end Cut

/-! ## The way up -/

theorem uint32_sub_sub (a x y : UInt32) : a - x - y = a - (y + x) := by
  rw [UInt32.sub_eq_iff_eq_add, UInt32.sub_eq_iff_eq_add, UInt32.add_assoc,
    UInt32.sub_add_cancel]

/-- What is left in the block at `q`: an entry off the path as it was, or the entry on the
path as it is now. -/
def Remains (v : Volume) (s s' : Fs) (n : Nat) (k₀ : Fin 15) (p₀ q : List Nat) : Prop :=
  ∃ j, j < v.addrInBlock ∧
    (if q ++ [j] <+: p₀ then blockAt v s' n k₀ (q ++ [j]) else blockAt v s n k₀ (q ++ [j])) ≠ 0

/-- From the prefix of length `t` of the path up, the blocks with nothing left in them
have been unlinked and freed; `e` says whether the one at `t` is still to be looked at. -/
structure PrunedFrom (v : Volume) (live : Nat → Prop) (n i : Nat) (s s' : Fs) (k₀ : Fin 15)
    (p₀ : List Nat) (t : Nat) (e : Bool) (gone : List Nat) : Prop where
  cut : MapCut v live n i s s' k₀ p₀ gone
  freed : Freed v s s' gone
  sectors : (s'.slot i).odi.blocks =
    (s.slot i).odi.blocks - UInt32.ofNat (v.sectorsInBlock * gone.length)
  above : ∀ q, q <+: p₀ → (t < q.length ∨ q.length = t ∧ e = false) →
    blockAt v s' n k₀ q = blockAt v s n k₀ q
  keeps : ∀ q, q <+: p₀ → (q.length < t ∨ q.length = t ∧ e = true) →
    (blockAt v s' n k₀ q = blockAt v s n k₀ q ↔ Remains v s s' n k₀ p₀ q)

section Up

variable {v : Volume} {live : Nat → Prop} {n i : Nat} {s s' s'' : Fs} {k₀ : Fin 15}
  {p₀ q gone gone' : List Nat}

theorem take_add_one {t : Nat} (ht : t < p₀.length) :
    p₀.take (t + 1) = p₀.take t ++ [p₀.getD t 0] := by
  rw [List.take_add_one, List.getElem?_eq_getElem ht, List.getD_eq_getElem p₀ 0 ht]
  rfl

theorem eq_take_of_initial {t : Nat} (hq : q <+: p₀) (hlen : q.length = t) : q = p₀.take t := by
  rw [← hlen]
  exact List.prefix_iff_eq_take.mp hq

/-- A block on the path that stays, with something left in it. -/
theorem remains_of_not_empty (hq : Place (mapShape v) (n, k₀) q)
    (hlen : q.length < levels k₀) (hsame : ∀ p, Place (mapShape v) (n, k₀) p → q <+: p →
      p <+: p₀ → p ≠ q → blockAt v s' n k₀ p = blockAt v s n k₀ p)
    (hempty : ¬ Empty v s (blockAt v s n k₀ q)) (hne : blockAt v s n k₀ q ≠ 0) :
    Remains v s s' n k₀ p₀ q := by
  unfold Empty at hempty
  push Not at hempty
  obtain ⟨j, hj, hentry⟩ := hempty
  have hnext : blockAt v s n k₀ (q ++ [j]) ≠ 0 := by
    rw [show blockAt v s n k₀ (q ++ [j]) = _ from ptr_concat_of_ne hne j]
    exact hentry
  refine ⟨j, hj, ?_⟩
  split
  next hpre =>
    rw [hsame _ (hq.concat hlen hj) (List.prefix_append q [j]) hpre (by simp)]
    exact hnext
  next => exact hnext

theorem Remains.congr {s₁ : Fs} (hsame : ∀ j, j < v.addrInBlock → ¬ q ++ [j] <+: p₀ →
    blockAt v s₁ n k₀ (q ++ [j]) = blockAt v s n k₀ (q ++ [j])) :
    Remains v s₁ s' n k₀ p₀ q ↔ Remains v s s' n k₀ p₀ q := by
  refine exists_congr fun j => and_congr_right fun hj => ?_
  by_cases hpre : q ++ [j] <+: p₀
  · rw [if_pos hpre, if_pos hpre]
  · rw [if_neg hpre, if_neg hpre, hsame j hj hpre]

/-- The end of the way up, with the topmost block not empty. -/
theorem PrunedFrom.refl (hs : FilesOk v s live) : PrunedFrom v live n i s s k₀ p₀ 0 false [] := by
  refine ⟨MapLinked.cut (.refl hs), (BlocksKept.of_slot rfl rfl rfl).freed, ?_, fun _ _ _ => rfl,
    fun q _ hq => ?_⟩
  · rw [List.length_nil, Nat.mul_zero]
    exact (UInt32.sub_zero _).symm
  · rcases hq with hq | ⟨-, hq⟩
    · exact absurd hq (Nat.not_lt_zero _)
    · cases hq

variable {t : Nat} {e : Bool} {s₁ : Fs}

/-- Every block below the first `t` levels, the one at `t` among them, is dealt with. -/
theorem PrunedFrom.keeps_le (hl : Leaf v n k₀ p₀) (ht : t < p₀.length)
    (hne : blockAt v s n k₀ (p₀.take t) ≠ 0)
    (he : e = true ↔ Empty v s (blockAt v s n k₀ (p₀.take t)))
    (h : PrunedFrom v live n i s s' k₀ p₀ t e gone) {q : List Nat} (hq : q <+: p₀)
    (hle : q.length ≤ t) :
    blockAt v s' n k₀ q = blockAt v s n k₀ q ↔ Remains v s s' n k₀ p₀ q := by
  rcases Nat.lt_or_eq_of_le hle with hlt | heq
  · exact h.keeps q hq (.inl hlt)
  cases e with
  | true => exact h.keeps q hq (.inr ⟨heq, rfl⟩)
  | false =>
    -- the block at `t` has an entry, which is still there
    refine iff_of_true (h.above q hq (.inr ⟨heq, rfl⟩)) ?_
    have hnot : ¬ Empty v s (blockAt v s n k₀ (p₀.take t)) := fun hc => nomatch he.mpr hc
    rw [← eq_take_of_initial hq heq] at hnot hne
    refine remains_of_not_empty (hl.1.initial hq) (by rw [← hl.2]; omega)
      (fun p _ hqp hp hpq => h.above p hp (.inl ?_)) hnot hne
    have hlt : q.length ≠ p.length := fun hc => hpq (hqp.eq_of_length hc).symm
    have := hqp.length_le
    omega

/-- One round on the way up after a block that stays. -/
theorem PrunedFrom.skip (hl : Leaf v n k₀ p₀) (ht : t < p₀.length)
    (hne : blockAt v s n k₀ (p₀.take t) ≠ 0)
    (he : e = true ↔ Empty v s (blockAt v s n k₀ (p₀.take t)))
    (h : PrunedFrom v live n i s s' k₀ p₀ t e gone) :
    PrunedFrom v live n i s s' k₀ p₀ (t + 1) false gone := by
  refine ⟨h.cut, h.freed, h.sectors, fun q hq hlen => h.above q hq (.inl ?_), fun q hq hlen => ?_⟩
  · rcases hlen with hlen | ⟨hlen, -⟩ <;> omega
  · refine h.keeps_le hl ht hne he hq ?_
    rcases hlen with hlen | ⟨-, hlen⟩
    · omega
    · cases hlen

/-- The place of the one block taken out is empty. -/
theorem MapCut.single_null (h : MapCut v live n i s s₁ k₀ p₀ [blockAt v s n k₀ q])
    (hs : FilesOk v s live) (hn : live n) (hp₀ : Place (mapShape v) (n, k₀) p₀) (hq : q <+: p₀)
    (hne : blockAt v s n k₀ q ≠ 0) : blockAt v s₁ n k₀ q = 0 := by
  obtain ⟨-, p, hp, hnull, hat⟩ := h.back.linked _ (List.mem_singleton_self _)
  by_cases hpq : p = q
  · rw [← hpq]
    exact hnull
  · refine absurd hat (hs.ne_block hn (hp₀.initial hp) (hp₀.initial hq) ?_ hpq)
    rw [hat]
    exact hne

/-- The other places are as before. -/
theorem MapCut.single_same (h : MapCut v live n i s s₁ k₀ p₀ [blockAt v s n k₀ q])
    (hs : FilesOk v s live) (hn : live n) (hp₀ : Place (mapShape v) (n, k₀) p₀) (hq : q <+: p₀)
    (hne : blockAt v s n k₀ q ≠ 0) {p : List Nat} (hp : Place (mapShape v) (n, k₀) p)
    (hpq : p ≠ q) : blockAt v s₁ n k₀ p = blockAt v s n k₀ p := by
  refine h.same hn hp fun hmem => ?_
  rw [List.mem_singleton] at hmem
  refine hs.ne_block hn hp (hp₀.initial hq) ?_ hpq hmem
  rw [hmem]
  exact hne

/-- Nothing is left in a block that was empty and is gone. -/
theorem not_remains_of_empty (hl : Leaf v n k₀ p₀) (hq : q <+: p₀) (hlt : q.length < p₀.length)
    (hempty : Empty v s (blockAt v s n k₀ q))
    (hsame : ∀ p, p <+: p₀ → q.length < p.length → blockAt v s' n k₀ p = blockAt v s n k₀ p) :
    ¬ Remains v s s' n k₀ p₀ q := by
  intro ⟨j, hj, hnot⟩
  have hplace : Place (mapShape v) (n, k₀) (q ++ [j]) :=
    (hl.1.initial hq).concat (show q.length < levels k₀ by rw [← hl.2]; exact hlt) hj
  have hnull : blockAt v s n k₀ (q ++ [j]) = 0 :=
    hempty.below (List.prefix_append q [j]) (by simp) hplace
  split at hnot
  next hpre =>
    rw [hsame _ hpre (by simp), hnull] at hnot
    exact hnot rfl
  next => exact hnot hnull

/-- One round on the way up after a block that was empty and is gone. -/
theorem PrunedFrom.unlink (hs : FilesOk v s live) (hn : live n) (hl : Leaf v n k₀ p₀)
    (ht : t + 1 < p₀.length) (hne : blockAt v s n k₀ (p₀.take (t + 1)) ≠ 0)
    (hempty : Empty v s (blockAt v s n k₀ (p₀.take (t + 1))))
    (hcut : MapCut v live n i s s₁ k₀ p₀ [blockAt v s n k₀ (p₀.take (t + 1))])
    (hfreed : Freed v s s₁ [blockAt v s n k₀ (p₀.take (t + 1))])
    (hsectors : (s₁.slot i).odi.blocks =
      (s.slot i).odi.blocks - UInt32.ofNat v.sectorsInBlock)
    (hup : blockAt v s₁ n k₀ (p₀.take t) ≠ 0)
    (he : e = true ↔ Empty v s₁ (blockAt v s₁ n k₀ (p₀.take t)))
    (h : PrunedFrom v live n i s₁ s' k₀ p₀ t e gone) :
    PrunedFrom v live n i s s' k₀ p₀ (t + 1) true
      (gone ++ [blockAt v s n k₀ (p₀.take (t + 1))]) := by
  have hpre : p₀.take (t + 1) <+: p₀ := List.take_prefix (t + 1) p₀
  have hlen : (p₀.take (t + 1)).length = t + 1 := by
    rw [List.length_take]
    omega
  have hnull := hcut.single_null hs hn hl.1 hpre hne
  have hsame : ∀ p, Place (mapShape v) (n, k₀) p → p ≠ p₀.take (t + 1) →
      blockAt v s₁ n k₀ p = blockAt v s n k₀ p :=
    fun p hp hpq => hcut.single_same hs hn hl.1 hpre hne hp hpq
  have hshort : ∀ p, p.length ≠ t + 1 → p ≠ p₀.take (t + 1) := by
    intro p hp heq
    rw [heq, hlen] at hp
    exact hp rfl
  -- what lies off the path is not what is unlinked
  have hremains : ∀ q, q.length ≤ t → Place (mapShape v) (n, k₀) q →
      (Remains v s₁ s' n k₀ p₀ q ↔ Remains v s s' n k₀ p₀ q) := by
    intro q hq hplace
    refine Remains.congr fun j hj hoff => hsame _ (hplace.concat ?_ hj) ?_
    · show q.length < levels k₀
      rw [← hl.2]
      omega
    · intro heq
      exact hoff (heq ▸ hpre)
  refine ⟨hcut.trans h.cut hs hn hl.1, hfreed.trans h.freed ?_, ?_, fun q hq hlen' => ?_,
    fun q hq hlen' => ?_⟩
  · -- what is freed further up was in use before this round
    intro b hb
    obtain ⟨hdata, p, hp, -, hat⟩ := h.cut.back.linked b hb
    have hplace := hl.1.initial hp
    have hstay := hcut.back.stays hn hplace (by rw [hat]; exact hdata.ne_noBlock)
    have hused := hs.used n hn k₀ p hplace (by rw [hstay, hat]; exact hdata.ne_noBlock)
    rwa [hstay, hat] at hused
  · rw [h.sectors, hsectors, List.length_append, List.length_singleton, Nat.mul_add, Nat.mul_one,
      UInt32.ofNat_add, uint32_sub_sub]
  · -- below the block that is unlinked
    have hgt : t + 1 < q.length := by
      rcases hlen' with hlt | ⟨-, hc⟩
      · exact hlt
      · cases hc
    rw [h.above q hq (.inl (by omega)), hsame q (hl.1.initial hq) (hshort q (by omega))]
  · rcases Nat.lt_or_ge q.length (t + 1) with hlt | hge
    · have hsame' := hsame q (hl.1.initial hq) (hshort q (by omega))
      rw [← hremains q (by omega) (hl.1.initial hq), ← hsame']
      exact h.keeps_le hl (by omega) hup he hq (by omega)
    · -- the block itself, in which nothing remains
      have heq : q.length = t + 1 := by
        rcases hlen' with hlt | ⟨hc, -⟩ <;> omega
      have hq' := eq_take_of_initial hq heq
      subst hq'
      refine iff_of_false ?_ (not_remains_of_empty hl hpre (by omega) hempty fun p hp hlt => ?_)
      · rw [h.above _ hpre (.inl (by omega)), hnull]
        exact hne.symm
      · rw [h.above p hp (.inl (by omega)), hsame p (hl.1.initial hp) (hshort p (by omega))]

/-- The end of the way up, with the topmost block empty and gone. -/
theorem PrunedFrom.top (hs : FilesOk v s live) (hn : live n) (hl : Leaf v n k₀ p₀)
    (hlen : 0 < p₀.length) (hne : blockAt v s n k₀ [] ≠ 0)
    (hempty : Empty v s (blockAt v s n k₀ []))
    (hcut : MapCut v live n i s s' k₀ p₀ [blockAt v s n k₀ []])
    (hfreed : Freed v s s' [blockAt v s n k₀ []])
    (hsectors : (s'.slot i).odi.blocks =
      (s.slot i).odi.blocks - UInt32.ofNat v.sectorsInBlock) :
    PrunedFrom v live n i s s' k₀ p₀ 0 true [blockAt v s n k₀ []] := by
  have hsame : ∀ p, p <+: p₀ → 0 < p.length → blockAt v s' n k₀ p = blockAt v s n k₀ p :=
    fun p hp hlt => hcut.single_same hs hn hl.1 List.nil_prefix hne (hl.1.initial hp)
      (List.ne_nil_of_length_pos hlt)
  refine ⟨hcut, hfreed, ?_, fun q hq hlen' => ?_, fun q hq hlen' => ?_⟩
  · rw [hsectors, List.length_singleton, Nat.mul_one]
  · rcases hlen' with hlt | ⟨-, hc⟩
    · exact hsame q hq hlt
    · cases hc
  · have hq0 : q = [] := by
      rcases hlen' with hlt | ⟨heq, -⟩
      · exact absurd hlt (Nat.not_lt_zero _)
      · exact List.length_eq_zero_iff.mp heq
    subst hq0
    refine iff_of_false ?_ (not_remains_of_empty hl hq hlen hempty hsame)
    rw [hcut.single_null hs hn hl.1 hq hne]
    exact hne.symm

theorem pruneUp_kept (v : Volume) (env : Env) (i : Nat) (offs block : Nat → Nat) (t : Nat) (s : Fs)
    (used : List Nat) : pruneUp v env i offs block (t + 1) s false used =
      pruneUp v env i offs block t s (isEmptyIndirectBlock v (s.blk (block (t + 1))))
        (used ++ [t + 1]) := rfl

theorem pruneUp_unlink (v : Volume) (env : Env) (i : Nat) (offs block : Nat → Nat) (t : Nat)
    {s s₁ : Fs} (used : List Nat)
    (h : freeBlock v env (clearEntry v s (block (t + 1)) (offs (t + 1))) (block (t + 2)) =
      .ok s₁) :
    pruneUp v env i offs block (t + 1) s true used =
      pruneUp v env i offs block t (subSectors v s₁ i)
        (isEmptyIndirectBlock v ((subSectors v s₁ i).blk (block (t + 1))))
        (used ++ [t + 1, t + 1, t + 2]) :=
  (if_pos rfl).trans (bind_of_ok h _)

/-- The way up at index `t`: the blocks of the path from the top to there, and whether the one
at index `t + 1` is empty. -/
structure OnWayUp (v : Volume) (s : Fs) (n : Nat) (k₀ : Fin 15) (p₀ : List Nat)
    (block : Nat → Nat) (t : Nat) (e : Bool) : Prop where
  chain : ∀ j, j < t → block (j + 1) = blockAt v s n k₀ (p₀.take j) ∧
    blockAt v s n k₀ (p₀.take j) ≠ 0
  empty : e = true → t < p₀.length ∧ block (t + 1) = blockAt v s n k₀ (p₀.take t) ∧
    blockAt v s n k₀ (p₀.take t) ≠ 0 ∧ Empty v s (blockAt v s n k₀ (p₀.take t))

theorem isEmpty_at {block : Nat → Nat} {t : Nat}
    (h : block (t + 1) = blockAt v s n k₀ (p₀.take t)) :
    isEmptyIndirectBlock v (s.blk (block (t + 1))) = true ↔
      Empty v s (blockAt v s n k₀ (p₀.take t)) := by
  rw [← h]
  exact isEmptyIndirectBlock_iff v s (block (t + 1))

/-- One index up, where the block there has been looked at. -/
theorem OnWayUp.up {block : Nat → Nat} {t : Nat} (ht : t < p₀.length)
    (hchain : ∀ j, j < t + 1 → block (j + 1) = blockAt v s n k₀ (p₀.take j) ∧
      blockAt v s n k₀ (p₀.take j) ≠ 0) :
    OnWayUp v s n k₀ p₀ block t (isEmptyIndirectBlock v (s.blk (block (t + 1)))) := by
  obtain ⟨hblock, hne⟩ := hchain t (Nat.lt_succ_self t)
  exact ⟨fun j hj => hchain j (Nat.lt_succ_of_lt hj),
    fun h => ⟨ht, hblock, hne, (isEmpty_at hblock).mp h⟩⟩

/-- The topmost block is empty: it goes. -/
theorem unlink_top (hv : Layout v) (env : Env) (hs : FilesOk v s live) (hn : live n)
    (hf : Found s n i) (hl : Leaf v n k₀ p₀) (hlen : 0 < p₀.length) {block : Nat → Nat}
    (h : OnWayUp v s n k₀ p₀ block 0 true) :
    ∃ s₁ gone, freeBlock v env (setBlockEntry s i k₀ noBlock) (block 1) = .ok s₁ ∧
      PrunedFrom v live n i s (subSectors v s₁ i) k₀ p₀ 0 true gone := by
  obtain ⟨-, hblock, hne, hempty⟩ := h.empty rfl
  rw [List.take_zero] at hblock hne hempty
  have hkept : BlocksKept v s (setBlockEntry s i k₀ noBlock) := .of_slot rfl rfl rfl
  have hcut : Replaced v live n i s (setBlockEntry s i k₀ noBlock) k₀ [] 0 := by
    refine Replacing.top hv (.null hs hn hf (.setBlockEntry s k₀ noBlock) hkept) ?_
      (fun h => absurd rfl h) fun _ _ _ => rfl
    simp [setBlockEntry, Fs.modOdi, Fs.setSlot, noBlock]
  have hsame : ((setBlockEntry s i k₀ noBlock).slot i).odi.blocks = (s.slot i).odi.blocks := by
    simp [setBlockEntry, Fs.modOdi, Fs.setSlot]
  obtain ⟨s₁, hrun, hmap, hfreed, hsectors⟩ := unlink_empty hv env hs hn hf hl.1
    List.nil_prefix hempty hne hcut hkept hsame
  rw [← hblock] at hrun
  exact ⟨s₁, _, hrun, .top hs hn hl hlen hne hempty hmap hfreed hsectors⟩

/-- The block at index `t + 2` is empty: it is unlinked from the one at `t + 1` and freed, and
the way up goes on from there. -/
theorem unlink_next (hv : Layout v) (env : Env) (hs : FilesOk v s live) (hn : live n)
    (hf : Found s n i) (hl : Leaf v n k₀ p₀) {block : Nat → Nat} {t : Nat}
    (h : OnWayUp v s n k₀ p₀ block (t + 1) true) :
    ∃ s₁, freeBlock v env (clearEntry v s (block (t + 1)) (offsArray k₀ p₀ (t + 1)))
        (block (t + 2)) = .ok s₁ ∧
      FilesOk v (subSectors v s₁ i) live ∧ Found (subSectors v s₁ i) n i ∧
      OnWayUp v (subSectors v s₁ i) n k₀ p₀ block t
        (isEmptyIndirectBlock v ((subSectors v s₁ i).blk (block (t + 1)))) ∧
      ∀ s' gone, PrunedFrom v live n i (subSectors v s₁ i) s' k₀ p₀ t
          (isEmptyIndirectBlock v ((subSectors v s₁ i).blk (block (t + 1)))) gone →
        PrunedFrom v live n i s s' k₀ p₀ (t + 1) true
          (gone ++ [blockAt v s n k₀ (p₀.take (t + 1))]) := by
  obtain ⟨hlt, hblock', hne', hempty⟩ := h.empty rfl
  obtain ⟨hblock, hne⟩ := h.chain t (Nat.lt_succ_self t)
  have hpre : p₀.take (t + 1) <+: p₀ := List.take_prefix (t + 1) p₀
  have htake := take_add_one (by omega : t < p₀.length)
  have hoffs : offsArray k₀ p₀ (t + 1) = p₀.getD t 0 := rfl
  obtain ⟨hreplaced, hkept⟩ := clearEntry_replaced hv hs hn hf (htake ▸ hl.1.initial hpre) hne
  rw [← htake] at hreplaced
  obtain ⟨s₁, hrun, hmap, hfreed, hsectors⟩ :=
    unlink_empty hv env hs hn hf hl.1 hpre hempty hne' hreplaced hkept rfl
  rw [← hblock, ← hblock', ← hoffs] at hrun
  -- the blocks above are the same
  have hsame : ∀ j, j ≤ t → blockAt v (subSectors v s₁ i) n k₀ (p₀.take j) =
      blockAt v s n k₀ (p₀.take j) := by
    intro j hj
    refine hmap.single_same hs hn hl.1 hpre hne'
      (hl.1.initial (List.take_prefix j p₀)) fun heq => ?_
    have hlength := congrArg List.length heq
    rw [List.length_take, List.length_take] at hlength
    omega
  have hchain : ∀ j, j < t + 1 → block (j + 1) = blockAt v (subSectors v s₁ i) n k₀ (p₀.take j) ∧
      blockAt v (subSectors v s₁ i) n k₀ (p₀.take j) ≠ 0 := by
    intro j hj
    rw [hsame j (Nat.lt_succ_iff.mp hj)]
    exact h.chain j hj
  obtain ⟨hblock₁, hne₁⟩ := hchain t (Nat.lt_succ_self t)
  exact ⟨s₁, hrun, hmap.ok, hmap.slot.found hf, .up (by omega) hchain, fun s' gone hup =>
    hup.unlink hs hn hl hlt hne' hempty hmap hfreed hsectors hne₁ (isEmpty_at hblock₁)⟩

/-- The way up from index `t`, where `e` says that the block at index `t + 1` is empty:
the blocks with nothing left in them are unlinked and freed. -/
theorem pruneUp_spec (hv : Layout v) (env : Env) (hn : live n) (hl : Leaf v n k₀ p₀)
    (hlen : 0 < p₀.length) (block : Nat → Nat) :
    ∀ (t : Nat) (s : Fs) (e : Bool) (used : List Nat), t ≤ p₀.length → FilesOk v s live →
      Found s n i → OnWayUp v s n k₀ p₀ block t e →
      ∃ s' gone more, (pruneUp v env i (offsArray k₀ p₀) block t s e used >>=
          pruneTop v env i k₀ block) = .ok (s', .ok (), used ++ more) ∧
        (∀ j ∈ more, j ≤ p₀.length) ∧ PrunedFrom v live n i s s' k₀ p₀ t e gone := by
  intro t
  induction t with
  | zero =>
    intro s e used _ hs hf hway
    cases e with
    -- no block is unlinked at the top
    | false =>
      refine ⟨s, [], [], ?_, fun j hj => ?_, .refl hs⟩
      · rw [List.append_nil]
        rfl
      · cases hj
    | true =>
      -- the first indirect block is empty: the entry in the inode goes
      obtain ⟨s₁, gone, hrun, hup⟩ := unlink_top hv env hs hn hf hl hlen hway
      refine ⟨subSectors v s₁ i, gone, [1], bind_of_ok hrun _, fun j hj => ?_, hup⟩
      rw [List.mem_singleton.mp hj]
      exact hlen
  | succ t ih =>
    intro s e used ht hs hf hway
    cases e with
    | false =>
      -- the block below is kept, so nothing further up is emptied
      obtain ⟨hblock, hne⟩ := hway.chain t (Nat.lt_succ_self t)
      obtain ⟨s', gone, more, hrun, hmore, hup⟩ := ih s
        (isEmptyIndirectBlock v (s.blk (block (t + 1)))) (used ++ [t + 1]) (by omega) hs hf
        (.up (by omega) hway.chain)
      refine ⟨s', gone, (t + 1) :: more, ?_, fun j hj => ?_,
        hup.skip hl (by omega) hne (isEmpty_at hblock)⟩
      · rw [pruneUp_kept, hrun, List.append_assoc]
        rfl
      · rcases List.mem_cons.mp hj with rfl | hj
        · exact ht
        · exact hmore j hj
    | true =>
      -- one block is unlinked, and the one above it is looked at
      obtain ⟨s₁, hfree, hs₁, hf₁, hway₁, hback⟩ := unlink_next hv env hs hn hf hl hway
      obtain ⟨s', gone, more, hrun, hmore, hup⟩ := ih (subSectors v s₁ i) _
        (used ++ [t + 1, t + 1, t + 2]) (by omega) hs₁ hf₁ hway₁
      refine ⟨s', _, (t + 1) :: (t + 1) :: (t + 2) :: more, ?_, fun j hj => ?_,
        hback s' gone hup⟩
      · rw [pruneUp_unlink v env i (offsArray k₀ p₀) block t used hfree, hrun, List.append_assoc]
        rfl
      · have hlt := (hway.empty rfl).1
        simp only [List.mem_cons] at hj
        rcases hj with rfl | rfl | rfl | hj
        · exact ht
        · exact ht
        · exact hlt
        · exact hmore j hj

end Up

/-! ## The way down -/

section Down

variable {v : Volume} {live : Nat → Prop} {n i : Nat} {s s' s'' : Fs} {k₀ : Fin 15}
  {p₀ q : List Nat}

theorem toplevelEntry_levels (k : Fin 15) (h : 0 < levels k) : toplevelEntry (levels k) = some k := by
  revert k
  decide

/-- The blocks of the path from the top, as far as there are any. -/
structure Chain (v : Volume) (s : Fs) (n : Nat) (k₀ : Fin 15) (p₀ : List Nat) (block : Nat → Nat)
    (t : Nat) : Prop where
  block : ∀ j, j < t → block (j + 1) = blockAt v s n k₀ (p₀.take j)
  ne : ∀ j, j < t → blockAt v s n k₀ (p₀.take j) ≠ 0

/-- One more block. -/
theorem Chain.add_one {block : Nat → Nat} {t next : Nat} (h : Chain v s n k₀ p₀ block t)
    (hnext : next = blockAt v s n k₀ (p₀.take t)) (hne : next ≠ 0) :
    Chain v s n k₀ p₀ (Function.update block (t + 1) next) (t + 1) := by
  refine ⟨fun j hj => ?_, fun j hj => ?_⟩
  · rcases Nat.lt_succ_iff_lt_or_eq.mp hj with hlt | rfl
    · rw [Function.update_of_ne (by omega)]
      exact h.block j hlt
    · rw [Function.update_self, hnext]
  · rcases Nat.lt_succ_iff_lt_or_eq.mp hj with hlt | rfl
    · exact h.ne j hlt
    · rw [← hnext]
      exact hne

theorem getIndirectBlocksLoop_add_one (v : Volume) (s : Fs) (top : Nat) (offs : Nat → Nat)
    (left actual : Nat) (block : Nat → Nat) (used : List Nat) {next : Nat}
    (h : (if actual = 0 then top
      else readIndirectBlockEntry v.beCpu (s.blk (block actual)) (offs actual)) = next) :
    getIndirectBlocksLoop v s top offs (left + 1) actual block used =
      if next = noBlock then (actual, Function.update block (actual + 1) next,
        used ++ (if actual = 0 then [1] else [actual, actual, actual + 1]) ++ [actual + 1])
      else getIndirectBlocksLoop v s top offs left (actual + 1)
        (Function.update block (actual + 1) next)
        (used ++ (if actual = 0 then [1] else [actual, actual, actual + 1]) ++ [actual + 1]) := by
  rw [← h]
  rfl

/-- The way down ends at the end of the path or where the next block is missing. -/
theorem getIndirectBlocksLoop_spec (left : Nat) : ∀ (actual : Nat) (block : Nat → Nat)
    (used : List Nat), actual + left = p₀.length → Chain v s n k₀ p₀ block actual →
      ∃ actual' block' more, getIndirectBlocksLoop v s (blockAt v s n k₀ []) (offsArray k₀ p₀) left
          actual block used = (actual', block', used ++ more) ∧
        (∀ j ∈ more, j ≤ p₀.length) ∧ Chain v s n k₀ p₀ block' actual' ∧
        actual' ≤ p₀.length ∧ (actual' < p₀.length → blockAt v s n k₀ (p₀.take actual') = 0) := by
  induction left with
  | zero =>
    intro actual block used hleft hchain
    refine ⟨actual, block, [], ?_, fun j hj => ?_, hchain, by omega, fun hlt => ?_⟩
    · rw [List.append_nil]
      rfl
    · cases hj
    · omega
  | succ left ih =>
    intro actual block used hleft hchain
    -- the next block is the one that the path leads to
    have hnext : (if actual = 0 then blockAt v s n k₀ []
        else readIndirectBlockEntry v.beCpu (s.blk (block actual)) (offsArray k₀ p₀ actual)) =
        blockAt v s n k₀ (p₀.take actual) := by
      cases actual with
      | zero => exact if_pos rfl
      | succ t =>
        rw [if_neg (Nat.succ_ne_zero t), hchain.block t (Nat.lt_succ_self t),
          take_add_one (by omega : t < p₀.length)]
        exact (ptr_concat_of_ne (hchain.ne t (Nat.lt_succ_self t)) _).symm
    have hround := getIndirectBlocksLoop_add_one v s (blockAt v s n k₀ []) (offsArray k₀ p₀) left
      actual block used hnext
    -- no place of the arrays is used that the path does not have
    have hused : ∀ j ∈ (if actual = 0 then [1] else [actual, actual, actual + 1]) ++ [actual + 1],
        j ≤ p₀.length := by
      intro j hj
      split at hj
      · simp only [List.cons_append, List.nil_append, List.mem_cons, List.not_mem_nil, or_false] at hj
        omega
      · simp only [List.cons_append, List.nil_append, List.mem_cons, List.not_mem_nil, or_false] at hj
        omega
    by_cases hnull : blockAt v s n k₀ (p₀.take actual) = noBlock
    · -- the block is missing: the way down ends here
      rw [if_pos hnull] at hround
      refine ⟨actual, _, _, hround.trans (by rw [List.append_assoc]), hused, ⟨fun j hj => ?_,
        hchain.ne⟩, by omega, fun _ => hnull⟩
      rw [Function.update_of_ne (by omega)]
      exact hchain.block j hj
    · rw [if_neg hnull] at hround
      obtain ⟨actual', block', more, hrun, hmore, hrest⟩ := ih (actual + 1) _ _ (by omega)
        (hchain.add_one rfl hnull)
      refine ⟨actual', block', _, (hround.trans hrun).trans (by rw [List.append_assoc,
        List.append_assoc]), fun j hj => ?_, hrest⟩
      rw [← List.append_assoc] at hj
      rcases List.mem_append.mp hj with hj | hj
      · exact hused j hj
      · exact hmore j hj

end Down

/-! ## `delete_map_entry` -/

/-- What `delete_map_entry` does to the map: the place at the end of the path is empty,
and the blocks of `gone` are those on the path with nothing left in them. -/
structure MapDeleted (v : Volume) (live : Nat → Prop) (n i : Nat) (s s' : Fs) (k₀ : Fin 15)
    (p₀ gone : List Nat) : Prop where
  cut : MapCut v live n i s s' k₀ p₀
    (gone ++ if blockAt v s n k₀ p₀ = 0 then [] else [blockAt v s n k₀ p₀])
  end_null : blockAt v s' n k₀ p₀ = 0
  freed : Freed v s s' gone
  on_path : ∀ c ∈ gone, ∃ q, q <+: p₀ ∧ q.length < p₀.length ∧ blockAt v s n k₀ q = c
  keeps : ∀ q, q <+: p₀ → q.length < p₀.length → blockAt v s n k₀ q ≠ 0 →
    (blockAt v s' n k₀ q = blockAt v s n k₀ q ↔ Remains v s s' n k₀ p₀ q)

/-- No indirect block is missing on the path. -/
def PathReached (v : Volume) (s : Fs) (n : Nat) (k₀ : Fin 15) (p₀ : List Nat) : Prop :=
  ∀ q, q <+: p₀ → q.length < p₀.length → blockAt v s n k₀ q ≠ 0

section Delete

variable {v : Volume} {live : Nat → Prop} {n i : Nat} {s s₁ s' : Fs} {k₀ : Fin 15}
  {p₀ gone : List Nat} {t : Nat}

/-- Clearing the entry of a leaf. -/
theorem Replaced.cut_leaf (h : Replaced v live n i s s' k₀ p₀ 0) (hs : FilesOk v s live)
    (hn : live n) (hl : Leaf v n k₀ p₀) :
    MapCut v live n i s s' k₀ p₀ (if blockAt v s n k₀ p₀ = 0 then [] else [blockAt v s n k₀ p₀]) := by
  refine h.cut hs hn hl.1 List.prefix_rfl fun p hp hne hplace => ?_
  have hle : p.length ≤ levels k₀ := hplace.1
  have hlen : p₀.length ≠ p.length := fun he => hne (hp.eq_of_length he).symm
  have := hp.length_le
  have := hl.2
  omega

/-- Nothing is found on a path after the first place that is empty. -/
theorem null_of_take (hnull : blockAt v s n k₀ (p₀.take t) = 0) {q : List Nat} (hq : q <+: p₀)
    (ht : t ≤ q.length) : blockAt v s n k₀ q = 0 := by
  obtain ⟨r, hr⟩ := List.prefix_of_prefix_length_le (List.take_prefix t p₀) hq
    ((List.length_take_le t p₀).trans ht)
  rw [← hr, show blockAt v s n k₀ (p₀.take t ++ r) =
    follow (readIndirectBlockEntry v.beCpu) s.blk (blockAt v s n k₀ (p₀.take t)) r from
      ptr_append (n, k₀) _ r, hnull, follow_null]

/-- The entry cleared, if the way down has got to it, and then the way up. -/
theorem PrunedFrom.deleted (hs : FilesOk v s live) (hn : live n) (hl : Leaf v n k₀ p₀)
    (hleaf : MapCut v live n i s s₁ k₀ p₀
      (if blockAt v s n k₀ p₀ = 0 then [] else [blockAt v s n k₀ p₀]))
    (hkept : BlocksKept v s s₁) (hnull : blockAt v s₁ n k₀ p₀ = 0)
    (hsame : ∀ p, Place (mapShape v) (n, k₀) p → p ≠ p₀ →
      blockAt v s₁ n k₀ p = blockAt v s n k₀ p)
    (ht : t ≤ p₀.length) (hmissing : t < p₀.length → blockAt v s n k₀ (p₀.take t) = 0)
    (h : PrunedFrom v live n i s₁ s' k₀ p₀ t false gone) :
    MapDeleted v live n i s s' k₀ p₀ gone := by
  have hshort : ∀ q, q <+: p₀ → q.length < p₀.length → q ≠ p₀ := by
    intro q _ hlt heq
    rw [heq] at hlt
    exact Nat.lt_irrefl _ hlt
  -- the way up leaves the blocks below where it begins
  have hpast : ∀ q, q <+: p₀ → t ≤ q.length → blockAt v s' n k₀ q = blockAt v s₁ n k₀ q := by
    intro q hq hle
    refine h.above q hq ?_
    rcases Nat.lt_or_eq_of_le hle with hlt | heq
    · exact .inl hlt
    · exact .inr ⟨heq.symm, rfl⟩
  have hfreed : Freed v s s' gone := by
    refine ⟨fun c hc => ?_, fun c => ?_⟩
    · obtain ⟨hdata, q, hq, -, hat⟩ := h.cut.back.linked c hc
      have hplace := hl.1.initial hq
      have hstay := hleaf.back.stays hn hplace (by rw [hat]; exact hdata.ne_noBlock)
      have hused := hs.used n hn k₀ q hplace (by rw [hstay, hat]; exact hdata.ne_noBlock)
      rwa [hstay, hat] at hused
    · rw [h.freed.2 c, hkept.free_iff]
  refine ⟨hleaf.trans h.cut hs hn hl.1, ?_, hfreed, fun c hc => ?_, fun q hq hlt hne => ?_⟩
  · rw [hpast p₀ List.prefix_rfl ht, hnull]
  · obtain ⟨hdata, q, hq, hgone, hat⟩ := h.cut.back.linked c hc
    -- a block that is freed is above the end of the way down
    have hlt : q.length < t := by
      by_contra hge
      have hstay := hpast q hq (Nat.not_lt.mp hge)
      rw [hgone, hat] at hstay
      exact hdata.ne_noBlock hstay.symm
    refine ⟨q, hq, by omega, ?_⟩
    rw [← hsame q (hl.1.initial hq) (hshort q hq (by omega)), hat]
  · have hplace := hl.1.initial hq
    have hlt' : q.length < t := by
      by_contra hge
      exact hne (null_of_take (hmissing (by omega)) hq (Nat.not_lt.mp hge))
    -- a block is kept if and only if something remains below it
    have hiff := h.keeps q hq (.inl hlt')
    rw [hsame q hplace (hshort q hq hlt)] at hiff
    refine hiff.trans (Remains.congr fun j hj hoff => hsame _ (hplace.concat ?_ hj) ?_)
    · show q.length < levels k₀
      rw [← hl.2]
      exact hlt
    · intro heq
      exact hoff (heq ▸ List.prefix_rfl)

/-- `i_blocks` less a number of blocks. -/
def SectorsLess (v : Volume) (i : Nat) (s s' : Fs) (m : Nat) : Prop :=
  (s'.slot i).odi.blocks = (s.slot i).odi.blocks - UInt32.ofNat (v.sectorsInBlock * m)

theorem deleteMapEntry_eq (v : Volume) (env : Env) (s : Fs) (i pos : Nat)
    (hcalc : calcBlockIndirectionOffsets v pos = some (k₀, p₀)) (hl : p₀.length = levels k₀)
    (hp : p₀ ≠ []) {actual : Nat} {block : Nat → Nat} {used : List Nat}
    (hdown : getIndirectBlocksLoop v (inodeMarkdirty s i)
      (((inodeMarkdirty s i).slot i).odi.block k₀).toNat (offsArray k₀ p₀) p₀.length 0
      (Function.update (fun _ => 0) 9 0) (List.range (p₀.length + 1) ++ [9]) =
        (actual, block, used)) :
    deleteMapEntry v env s i pos =
      if actual = 0 then .ok (inodeMarkdirty s i, .ok (), used)
      else if actual = p₀.length then
        pruneUp v env i (offsArray k₀ p₀) block actual (subSectors v
          ((inodeMarkdirty s i).writeBlk (block p₀.length) (writeIndirectBlockEntry v.beCpu
            ((inodeMarkdirty s i).blk (block p₀.length)) (offsArray k₀ p₀ p₀.length) noBlock)) i)
          false (used ++ [p₀.length, p₀.length]) >>= pruneTop v env i k₀ block
      else pruneUp v env i (offsArray k₀ p₀) block actual (inodeMarkdirty s i) false used >>=
        pruneTop v env i k₀ block := by
  have hlen : p₀.length ≠ 0 := fun h => hp (List.length_eq_zero_iff.mp h)
  have htop : toplevelEntry p₀.length = some k₀ := by
    rw [hl]
    exact toplevelEntry_levels k₀ (by omega)
  unfold deleteMapEntry
  rw [hcalc]
  simp only [if_neg hlen, htop, getIndirectBlocks, hdown]
  by_cases h0 : actual = 0
  · rw [if_pos h0, if_pos h0]
    rfl
  · rw [if_neg h0, if_neg h0]
    by_cases hend : actual = p₀.length
    · rw [if_pos hend, if_pos hend]
    · rw [if_neg hend, if_neg hend]

/-- What `delete_map_entry` can do: it deletes, the arrays are used inside their bounds but
for the one store, and `i_blocks` goes down by the blocks freed and, where the entry itself
could be got at, by one more. -/
def DeleteDone (v : Volume) (live : Nat → Prop) (n i : Nat) (s s' : Fs) (k₀ : Fin 15)
    (p₀ used : List Nat) : Prop :=
  (∀ j ∈ used, j < 4 ∨ j = 9) ∧ (9 ∈ used ↔ p₀ ≠ []) ∧ ∃ gone, MapDeleted v live n i s s' k₀ p₀ gone ∧
    (PathReached v s n k₀ p₀ → SectorsLess v i s s' (gone.length + 1)) ∧
    (¬ PathReached v s n k₀ p₀ → SectorsLess v i s s' gone.length)

/-- A direct block: the entry of `i_block` is cleared. -/
theorem deleteMapEntry_direct (hv : Layout v) (env : Env) (hs : FilesOk v s live) (hn : live n)
    (hf : Found s n i) {pos : Nat} (hcalc : calcBlockIndirectionOffsets v pos = some (k₀, []))
    (hl : Leaf v n k₀ []) :
    ∃ s' used, deleteMapEntry v env s i pos = .ok (s', .ok (), used) ∧
      DeleteDone v live n i s s' k₀ [] used := by
  have hrun : deleteMapEntry v env s i pos = .ok (subSectors v
      (setBlockEntry (inodeMarkdirty s i) i k₀ noBlock) i, .ok (), [0, 0]) := by
    unfold deleteMapEntry
    rw [hcalc]
    rfl
  have hslot : SlotStep v i s
      (subSectors v (setBlockEntry (inodeMarkdirty s i) i k₀ noBlock) i) :=
    ((SlotStep.markdirty s).trans (.setBlockEntry _ k₀ noBlock)).trans (.subSectors _)
  have hkept : BlocksKept v s
      (subSectors v (setBlockEntry (inodeMarkdirty s i) i k₀ noBlock) i) := .of_slot rfl rfl rfl
  have hcut : Replaced v live n i s
      (subSectors v (setBlockEntry (inodeMarkdirty s i) i k₀ noBlock) i) k₀ [] 0 := by
    refine Replacing.top hv (.null hs hn hf hslot hkept) ?_ (fun h => absurd rfl h)
      fun _ _ _ => rfl
    simp [subSectors, setBlockEntry, inodeMarkdirty, Fs.modOdi, Fs.setSlot, noBlock]
  have hshort : ∀ q : List Nat, ¬ q.length < ([] : List Nat).length := fun q => Nat.not_lt_zero _
  refine ⟨_, _, hrun, by decide, by decide, [], ⟨?_, ?_, hkept.freed, ?_, fun q _ h =>
    absurd h (hshort q)⟩, fun _ => ?_, fun h => absurd (fun q _ hlt => absurd hlt (hshort q)) h⟩
  · exact hcut.cut_leaf hs hn hl
  · exact (hcut.place n hn k₀ [] hl.1).trans (setAt_self _)
  · intro c hc
    cases hc
  · unfold SectorsLess
    simp [subSectors, setBlockEntry, inodeMarkdirty, Fs.modOdi, Fs.setSlot]

theorem not_reached (hlt : t < p₀.length) (hnull : blockAt v s n k₀ (p₀.take t) = 0) :
    ¬ PathReached v s n k₀ p₀ := by
  intro h
  refine h (p₀.take t) (List.take_prefix t p₀) ?_ hnull
  rw [List.length_take]
  omega

/-- Marking an inode dirty leaves the maps alone. -/
theorem blockAt_markdirty (hv : Layout v) (hs : FilesOk v s live) (hf : Found s n i) {m : Nat}
    (hm : live m) {k : Fin 15} {p : List Nat} (hp : Place (mapShape v) (m, k) p) :
    blockAt v (inodeMarkdirty s i) m k p = blockAt v s m k p := by
  have hmark : MapLinked v live n i s (inodeMarkdirty s i) k p [] := .markdirty hv hs hf
  rcases hmark.place m hm k p hp with heq | ⟨-, -, hmem⟩
  · exact heq
  · cases hmem

/-- The entries of the stack that a walk down and up again may touch. -/
theorem used_slots {more rest : List Nat} (hp : p₀ ≠ []) (hle : p₀.length ≤ 3)
    (hmore : ∀ j ∈ more, j ≤ p₀.length) (hrest : ∀ j ∈ rest, j ≤ p₀.length) :
    (∀ j ∈ List.range (p₀.length + 1) ++ [9] ++ more ++ rest, j < 4 ∨ j = 9) ∧
      (9 ∈ List.range (p₀.length + 1) ++ [9] ++ more ++ rest ↔ p₀ ≠ []) := by
  refine ⟨fun j hj => ?_, iff_of_true (by simp) hp⟩
  simp only [List.mem_append, List.mem_range, List.mem_singleton] at hj
  rcases hj with ((hj | hj) | hj) | hj
  · omega
  · exact .inr hj
  · have := hmore j hj
    omega
  · have := hrest j hj
    omega

/-- The state once the entry of the position is empty and its sectors are counted off. -/
structure EntryCleared (v : Volume) (live : Nat → Prop) (n i : Nat) (s s' : Fs) (k₀ : Fin 15)
    (p₀ : List Nat) : Prop where
  cut : MapCut v live n i s s' k₀ p₀ (if blockAt v s n k₀ p₀ = 0 then [] else [blockAt v s n k₀ p₀])
  same : ∀ p, Place (mapShape v) (n, k₀) p → p ≠ p₀ → blockAt v s' n k₀ p = blockAt v s n k₀ p
  null : blockAt v s' n k₀ p₀ = 0
  kept : BlocksKept v s s'
  sectors : (s'.slot i).odi.blocks = (s.slot i).odi.blocks - UInt32.ofNat v.sectorsInBlock
  ok : FilesOk v s' live
  found : Found s' n i

/-- Clearing the entry in the last indirect block, which is there. -/
theorem entryCleared_of_parent (hv : Layout v) (hs : FilesOk v s live) (hn : live n)
    (hf : Found s n i) (hl : Leaf v n k₀ (q ++ [t]))
    (hparent : blockAt v (inodeMarkdirty s i) n k₀ q ≠ 0) :
    EntryCleared v live n i s (subSectors v (clearEntry v (inodeMarkdirty s i)
      (blockAt v (inodeMarkdirty s i) n k₀ q) t) i) k₀ (q ++ [t]) := by
  have hmark : MapLinked v live n i s (inodeMarkdirty s i) k₀ (q ++ [t]) [] := .markdirty hv hs hf
  have hkept : BlocksKept v s (inodeMarkdirty s i) := .of_slot rfl rfl rfl
  have hf' := hmark.slot.found hf
  obtain ⟨hput, hkept'⟩ := clearEntry_replaced hv hmark.ok hn hf' hl.1 hparent
  have hsub := MapCut.subSectors hv hput.ok (hput.slot.found hf') k₀ (q ++ [t])
  have hcut := (hmark.cut.trans (hput.cut_leaf hmark.ok hn hl) hs hn hl.1).trans hsub hs hn hl.1
  rw [List.nil_append, List.append_nil, blockAt_markdirty hv hs hf hn hl.1] at hcut
  refine ⟨hcut, fun p hp hne => ?_, ?_, (hkept.trans hkept').trans (.of_slot rfl rfl rfl), ?_,
    hsub.ok, hsub.slot.found (hput.slot.found hf')⟩
  · rw [hsub.same hn hp List.not_mem_nil, hput.place n hn k₀ p hp, setAt_of_not,
      blockAt_markdirty hv hs hf hn hp]
    -- no place is below a leaf
    intro ⟨_, hpre⟩
    refine hne (hpre.eq_of_length_le ?_).symm
    rw [hl.2]
    exact hp.1
  · rw [hsub.same hn hl.1 List.not_mem_nil, hput.place n hn k₀ (q ++ [t]) hl.1, setAt_self]
  · rw [subSectors_blocks]
    have hblocks : ((inodeMarkdirty s i).slot i).odi.blocks = (s.slot i).odi.blocks := by
      simp [inodeMarkdirty, Fs.setSlot]
    exact congrArg (· - _) hblocks

/-- How far the way down along a path of indirect blocks gets, once the inode is marked. -/
structure WentDown (v : Volume) (live : Nat → Prop) (n i : Nat) (s : Fs) (k₀ : Fin 15)
    (p₀ : List Nat) (actual : Nat) (block : Nat → Nat) : Prop where
  pos : 0 < p₀.length
  len_le : p₀.length ≤ 3
  marked : MapLinked v live n i s (inodeMarkdirty s i) k₀ p₀ []
  places : ∀ p, Place (mapShape v) (n, k₀) p →
    blockAt v (inodeMarkdirty s i) n k₀ p = blockAt v s n k₀ p
  chain : Chain v (inodeMarkdirty s i) n k₀ p₀ block actual
  le : actual ≤ p₀.length
  missing : actual < p₀.length → blockAt v s n k₀ (p₀.take actual) = 0

theorem WentDown.of_leaf (hv : Layout v) (hs : FilesOk v s live) (hn : live n)
    (hf : Found s n i) (hl : Leaf v n k₀ p₀) (hp : p₀ ≠ []) :
    ∃ actual block more, WentDown v live n i s k₀ p₀ actual block ∧ (∀ j ∈ more, j ≤ p₀.length) ∧
      getIndirectBlocksLoop v (inodeMarkdirty s i)
        (((inodeMarkdirty s i).slot i).odi.block k₀).toNat (offsArray k₀ p₀) p₀.length 0
        (Function.update (fun _ => 0) 9 0) (List.range (p₀.length + 1) ++ [9]) =
          (actual, block, List.range (p₀.length + 1) ++ [9] ++ more) := by
  have hle : p₀.length ≤ 3 := by
    rw [hl.2]
    have := k₀.isLt
    unfold levels
    omega
  have hmark : MapLinked v live n i s (inodeMarkdirty s i) k₀ p₀ [] := .markdirty hv hs hf
  have hplaces : ∀ p, Place (mapShape v) (n, k₀) p →
      blockAt v (inodeMarkdirty s i) n k₀ p = blockAt v s n k₀ p :=
    fun p hp => blockAt_markdirty hv hs hf hn hp
  have htop : (((inodeMarkdirty s i).slot i).odi.block k₀).toNat =
      blockAt v (inodeMarkdirty s i) n k₀ [] := by
    show _ = mapRoot (nodeAt v (inodeMarkdirty s i)) (n, k₀)
    rw [mapRoot, (hmark.slot.found hf).nodeAt]
  obtain ⟨actual, block, more, hdown, hmore, hchain, hactual, hmissing⟩ :=
    getIndirectBlocksLoop_spec p₀.length 0 (Function.update (fun _ => 0) 9 0)
      (List.range (p₀.length + 1) ++ [9]) (Nat.zero_add _)
      (⟨fun j hj => absurd hj (Nat.not_lt_zero j), fun j hj => absurd hj (Nat.not_lt_zero j)⟩ :
        Chain v (inodeMarkdirty s i) n k₀ p₀ _ 0)
  rw [← htop] at hdown
  refine ⟨actual, block, more, ⟨List.length_pos_iff.mpr hp, hle, hmark, hplaces, hchain, hactual,
    fun hlt => ?_⟩, hmore, hdown⟩
  rw [← hplaces _ (hl.1.initial (List.take_prefix actual p₀))]
  exact hmissing hlt

theorem inodeMarkdirty_blocks (s : Fs) (i : Nat) :
    ((inodeMarkdirty s i).slot i).odi.blocks = (s.slot i).odi.blocks := by
  simp [inodeMarkdirty, Fs.setSlot]

/-- The way down stops early, and there is no entry to clear. -/
theorem WentDown.missed {actual : Nat} {block : Nat → Nat} {used : List Nat}
    (h : WentDown v live n i s k₀ p₀ actual block) (hv : Layout v) (env : Env)
    (hs : FilesOk v s live) (hn : live n) (hf : Found s n i) (hl : Leaf v n k₀ p₀)
    (hlt : actual < p₀.length) {pos : Nat}
    (heq : deleteMapEntry v env s i pos =
      if actual = 0 then .ok (inodeMarkdirty s i, .ok (), used)
      else pruneUp v env i (offsArray k₀ p₀) block actual (inodeMarkdirty s i) false used >>=
        pruneTop v env i k₀ block) :
    ∃ s' gone rest, deleteMapEntry v env s i pos = .ok (s', .ok (), used ++ rest) ∧
      (∀ j ∈ rest, j ≤ p₀.length) ∧ MapDeleted v live n i s s' k₀ p₀ gone ∧
      SectorsLess v i s s' gone.length := by
  have hup : ∃ s' gone rest, deleteMapEntry v env s i pos = .ok (s', .ok (), used ++ rest) ∧
      (∀ j ∈ rest, j ≤ p₀.length) ∧
      PrunedFrom v live n i (inodeMarkdirty s i) s' k₀ p₀ actual false gone := by
    by_cases h0 : actual = 0
    · rw [if_pos h0] at heq
      refine ⟨_, [], [], heq.trans (by rw [List.append_nil]), fun j hj => ?_, ?_⟩
      · cases hj
      · rw [h0]
        exact .refl h.marked.ok
    · rw [if_neg h0] at heq
      obtain ⟨s', gone, rest, hrun, hrest, hup⟩ := pruneUp_spec hv env hn hl h.pos block actual
        (inodeMarkdirty s i) false used h.le h.marked.ok (h.marked.slot.found hf)
        ⟨fun j hj => ⟨h.chain.block j hj, h.chain.ne j hj⟩, fun he => absurd he Bool.false_ne_true⟩
      exact ⟨s', gone, rest, heq.trans hrun, hrest, hup⟩
  obtain ⟨s', gone, rest, hrun, hrest, hup⟩ := hup
  have hnull : blockAt v s n k₀ p₀ = 0 := null_of_take (h.missing hlt) List.prefix_rfl h.le
  have hkept : BlocksKept v s (inodeMarkdirty s i) := .of_slot rfl rfl rfl
  refine ⟨s', gone, rest, hrun, hrest, hup.deleted hs hn hl ?_ hkept ?_
    (fun p hp _ => h.places p hp) h.le h.missing, ?_⟩
  · rw [if_pos hnull]
    exact h.marked.cut
  · rw [h.places p₀ hl.1, hnull]
  · unfold SectorsLess
    rw [hup.sectors, inodeMarkdirty_blocks]

/-- The last indirect block is there: its entry is cleared before the way up. -/
theorem WentDown.reached {block : Nat → Nat} {used : List Nat}
    (h : WentDown v live n i s k₀ p₀ p₀.length block) (hv : Layout v) (env : Env)
    (hs : FilesOk v s live) (hn : live n) (hf : Found s n i) (hl : Leaf v n k₀ p₀) :
    ∃ s' gone rest, (pruneUp v env i (offsArray k₀ p₀) block p₀.length (subSectors v
          ((inodeMarkdirty s i).writeBlk (block p₀.length) (writeIndirectBlockEntry v.beCpu
            ((inodeMarkdirty s i).blk (block p₀.length)) (offsArray k₀ p₀ p₀.length) noBlock)) i)
          false used >>= pruneTop v env i k₀ block) = .ok (s', .ok (), used ++ rest) ∧
      (∀ j ∈ rest, j ≤ p₀.length) ∧ MapDeleted v live n i s s' k₀ p₀ gone ∧
      PathReached v s n k₀ p₀ ∧ SectorsLess v i s s' (gone.length + 1) := by
  have hpos := h.pos
  -- the entry that is cleared is the last one of the path
  have hlast : p₀.take (p₀.length - 1) ++ [p₀.getD (p₀.length - 1) 0] = p₀ := by
    have htake := take_add_one (by omega : p₀.length - 1 < p₀.length)
    rw [Nat.sub_add_cancel hpos, List.take_length] at htake
    exact htake.symm
  have hblock : block p₀.length = blockAt v (inodeMarkdirty s i) n k₀
      (p₀.take (p₀.length - 1)) := by
    have hb := h.chain.block (p₀.length - 1) (by omega)
    rwa [Nat.sub_add_cancel hpos] at hb
  have hoffs : offsArray k₀ p₀ p₀.length = p₀.getD (p₀.length - 1) 0 := if_neg (Nat.ne_of_gt hpos)
  obtain ⟨s₁, hs₁⟩ : ∃ s₁, subSectors v (clearEntry v (inodeMarkdirty s i)
      (blockAt v (inodeMarkdirty s i) n k₀ (p₀.take (p₀.length - 1)))
      (p₀.getD (p₀.length - 1) 0)) i = s₁ := ⟨_, rfl⟩
  have hc := entryCleared_of_parent hv hs hn hf (hlast.symm ▸ hl)
    (h.chain.ne (p₀.length - 1) (by omega))
  rw [hlast, hs₁] at hc
  unfold clearEntry at hs₁
  rw [hblock, hoffs, hs₁]
  -- the blocks on the way are as they were when the way down has gone over them
  have hchain : ∀ j, j < p₀.length → block (j + 1) = blockAt v s₁ n k₀ (p₀.take j) ∧
      blockAt v s₁ n k₀ (p₀.take j) ≠ 0 := by
    intro j hj
    have hplace := hl.1.initial (List.take_prefix j p₀)
    have hne : p₀.take j ≠ p₀ := by
      intro he
      have hlength := congrArg List.length he
      rw [List.length_take] at hlength
      omega
    rw [hc.same _ hplace hne, ← h.places _ hplace]
    exact ⟨h.chain.block j hj, h.chain.ne j hj⟩
  obtain ⟨s', gone, rest, hrun, hrest, hup⟩ := pruneUp_spec hv env hn hl hpos block p₀.length s₁
    false used h.le hc.ok hc.found ⟨hchain, fun he => absurd he Bool.false_ne_true⟩
  refine ⟨s', gone, rest, hrun, hrest, hup.deleted hs hn hl hc.cut hc.kept hc.null hc.same h.le
    fun hlt => absurd hlt (Nat.lt_irrefl _), fun q hq hlt => ?_, ?_⟩
  · rw [← h.places q (hl.1.initial hq), eq_take_of_initial hq rfl]
    exact h.chain.ne q.length hlt
  · unfold SectorsLess
    rw [hup.sectors, hc.sectors, uint32_sub_sub, ← UInt32.ofNat_add, Nat.mul_add, Nat.mul_one]

/-- `delete_map_entry` deletes, at every position. -/
theorem deleteMapEntry_spec (hv : Layout v) (env : Env) (hs : FilesOk v s live) (hn : live n)
    (hf : Found s n i) {pos : Nat} (hcalc : calcBlockIndirectionOffsets v pos = some (k₀, p₀))
    (hl : Leaf v n k₀ p₀) :
    ∃ s' used, deleteMapEntry v env s i pos = .ok (s', .ok (), used) ∧
      DeleteDone v live n i s s' k₀ p₀ used := by
  by_cases hp : p₀ = []
  · subst hp
    exact deleteMapEntry_direct hv env hs hn hf hcalc hl
  obtain ⟨actual, block, more, hway, hmore, hdown⟩ := WentDown.of_leaf hv hs hn hf hl hp
  have heq := deleteMapEntry_eq v env s i pos hcalc hl.2 hp hdown
  rcases Nat.lt_or_eq_of_le hway.le with hlt | rfl
  · rw [if_neg (Nat.ne_of_lt hlt)] at heq
    obtain ⟨s', gone, rest, hrun, hrest, hdeleted, hless⟩ :=
      hway.missed hv env hs hn hf hl hlt heq
    obtain ⟨hall, hnine⟩ := used_slots hp hway.len_le hmore hrest
    exact ⟨s', _, hrun, hall, hnine, gone, hdeleted,
      fun h => absurd h (not_reached hlt (hway.missing hlt)), fun _ => hless⟩
  · have hpos := hway.pos
    rw [if_neg (Nat.ne_of_gt hpos), if_pos rfl] at heq
    obtain ⟨s', gone, rest, hrun, hrest, hdeleted, hreached, hless⟩ :=
      hway.reached hv env hs hn hf hl
    rw [List.append_assoc _ _ rest] at hrun
    -- the clearing uses the last index, twice
    obtain ⟨hall, hnine⟩ := used_slots hp hway.len_le hmore fun j
      (hj : j ∈ [p₀.length, p₀.length] ++ rest) => by
        rcases List.mem_append.mp hj with hj | hj
        · simp only [List.mem_cons, List.not_mem_nil, or_false, or_self] at hj
          omega
        · exact hrest j hj
    exact ⟨s', _, heq.trans hrun, hall, hnine, gone, hdeleted, fun _ => hless,
      fun h => absurd hreached h⟩

/-- What deleting position `pos` of inode `n` is to do: the position reads nothing and the
positions of other blocks read what they did. An indirect block on the path is as before if
something is left in it, and unlinked and freed, once, if not. -/
structure DeletesEntry (v : Volume) (live : Nat → Prop) (n i pos : Nat) (s s' : Fs) : Prop where
  hole : readMapEntry v s'.blk (s'.slot i).odi pos = noBlock
  others : ∀ q, q < 2 ^ 32 → q / v.blockSize ≠ pos / v.blockSize →
    readMapEntry v s'.blk (s'.slot i).odi q = readMapEntry v s.blk (s.slot i).odi q
  ok : FilesOk v s' live
  path : ∃ k p, ∃ gone : List Nat, calcBlockIndirectionOffsets v pos = some (k, p) ∧ gone.Nodup ∧
    Freed v s s' gone ∧
    (∀ c ∈ gone, ∃ q, q <+: p ∧ q.length < p.length ∧ blockAt v s n k q = c) ∧
    ∀ q, q <+: p → q.length < p.length → blockAt v s n k q ≠ 0 →
      (blockAt v s' n k q = blockAt v s n k q ↔ Remains v s s' n k p q) ∧
      (blockAt v s' n k q = blockAt v s n k q ∨
        blockAt v s' n k q = 0 ∧ blockAt v s n k q ∈ gone)

theorem MapDeleted.deletesEntry (hv : Layout v) (hs : FilesOk v s live) (hn : live n)
    (hf : Found s n i) {pos : Nat} (hpos : pos < 2 ^ 32)
    (hcalc : calcBlockIndirectionOffsets v pos = some (k₀, p₀)) (hl : Leaf v n k₀ p₀)
    (h : MapDeleted v live n i s s' k₀ p₀ gone) : DeletesEntry v live n i pos s s' := by
  have hf' := h.cut.slot.found hf
  refine ⟨?_, fun q hq hne => ?_, h.cut.ok, k₀, p₀, gone, hcalc,
    (List.nodup_append.mp h.cut.back.nodup).1, h.freed, h.on_path, fun q hq hlt hnull =>
      ⟨h.keeps q hq hlt hnull, ?_⟩⟩
  · rw [← hf'.nodeAt, readMapEntry_eq hcalc]
    exact h.end_null
  · obtain ⟨k, p, hcalc', hl'⟩ := calc_place hv.log_le hq
    rw [← hf'.nodeAt, readMapEntry_eq hcalc', ← hf.nodeAt, readMapEntry_eq hcalc']
    rcases h.cut.back.place n hn k p (hl' n).1 with heq | ⟨⟨-, hk, hpre⟩, -, -⟩
    · exact heq.symm
    · -- a leaf on the path is the end of it
      have hp : p = p₀ := hpre.eq_of_length (by rw [(hl' n).2, hl.2, hk])
      subst hk hp
      exact absurd (calc_inj hv.log_le hq hpos (hcalc'.trans hcalc.symm)) hne
  · have hplace := hl.1.initial hq
    rcases h.cut.back.place n hn k₀ q hplace with heq | ⟨-, hgone, hmem⟩
    · exact .inl heq.symm
    · refine .inr ⟨hgone, (List.mem_append.mp hmem).resolve_right fun hleaf => ?_⟩
      split at hleaf
      · cases hleaf
      · rw [List.mem_singleton] at hleaf
        refine hs.ne_block hn hplace hl.1 hnull (fun he => ?_) hleaf
        rw [he] at hlt
        exact Nat.lt_irrefl _ hlt

/-- The positions of direct blocks are those of empty paths. -/
theorem calc_direct_iff {pos : Nat} (hpos : pos < 2 ^ 32)
    (hcalc : calcBlockIndirectionOffsets v pos = some (k₀, p₀)) :
    p₀ = [] ↔ pos / v.blockSize < ndirBlocks := by
  rw [calcBlockIndirectionOffsets, Nat.mod_eq_of_lt hpos, indirectionOffsets] at hcalc
  split at hcalc
  · cases hcalc
  split at hcalc
  next hdirect =>
    cases hcalc
    exact iff_of_true rfl hdirect
  next hdirect =>
    split at hcalc
    · cases hcalc
      exact iff_of_false (List.cons_ne_nil _ _) hdirect
    · split at hcalc
      · cases hcalc
        exact iff_of_false (List.cons_ne_nil _ _) hdirect
      · cases hcalc
        exact iff_of_false (List.cons_ne_nil _ _) hdirect

/-- Apart from the bounds of its arrays, `delete_map_entry` does what it is to do at
every position. -/
theorem deleteMapEntry_deletes (hv : Layout v) (env : Env) (hs : FilesOk v s live) (hn : live n)
    (hf : Found s n i) {pos : Nat} (hpos : pos < 2 ^ 32) :
    ∃ s' used, deleteMapEntry v env s i pos = .ok (s', .ok (), used) ∧
      DeletesEntry v live n i pos s s' ∧ (∀ j ∈ used, j < 4 ∨ j = 9) ∧
      (9 ∈ used ↔ ¬ pos / v.blockSize < ndirBlocks) := by
  obtain ⟨k, p, hcalc, hl⟩ := calc_place hv.log_le hpos
  obtain ⟨s', used, hrun, hused, hnine, gone, hdeleted, -⟩ :=
    deleteMapEntry_spec hv env hs hn hf hcalc (hl n)
  refine ⟨s', used, hrun, hdeleted.deletesEntry hv hs hn hf hpos hcalc (hl n), hused, ?_⟩
  rw [hnine, ← calc_direct_iff hpos hcalc]

/-- `delete_map_entry` deletes an entry inside the bounds of its arrays exactly at the positions
of direct blocks. -/
theorem deleteMapEntry_inside_iff (hv : Layout v) (env : Env) (hs : FilesOk v s live)
    (hn : live n) (hf : Found s n i) {pos : Nat} (hpos : pos < 2 ^ 32) :
    (∃ s' used, deleteMapEntry v env s i pos = .ok (s', .ok (), used) ∧ (∀ j ∈ used, j < 4) ∧
      DeletesEntry v live n i pos s s') ↔ pos / v.blockSize < ndirBlocks := by
  obtain ⟨s', used, hrun, hdeletes, hused, hnine⟩ := deleteMapEntry_deletes hv env hs hn hf hpos
  constructor
  · intro ⟨s₁, used₁, hrun₁, hin, _⟩
    rw [hrun] at hrun₁
    cases hrun₁
    by_contra hpos
    exact absurd (hin 9 (hnine.mpr hpos)) (by decide)
  · intro hdirect
    refine ⟨s', used, hrun, fun j hj => (hused j hj).resolve_right fun h9 => ?_, hdeletes⟩
    rw [h9] at hj
    exact hnine.mp hj hdirect

end Delete

/-- `deleteMapEntry_inside_iff` at the first block of the new file, which it has got before. -/
theorem deleteMapEntry_inside_sample :
    ∃ s b, newBlock sampleVolume sampleEnv sampleFileFs 0 0 = .ok (s, some b) ∧ b ≠ noBlock ∧
      readMapEntry sampleVolume s.blk (s.slot 0).odi 0 = b ∧
      ∃ s' used, deleteMapEntry sampleVolume sampleEnv s 0 0 = .ok (s', .ok (), used) ∧
        (∀ j ∈ used, j < 4) ∧ DeletesEntry sampleVolume (fun n => n = 2 ∨ n = 12) 12 0 0 s s' := by
  have hreply : (newBlock sampleVolume sampleEnv sampleFileFs 0 0).toOption.map
      (fun r => r.2.isSome) = some true := by decide +kernel
  have hfound : Found sampleFileFs 12 0 := rfl
  obtain ⟨s, r, hrun, hspec⟩ := newBlock_spec sampleVolume_layout sampleEnv sampleFileFs_filesOk
    (.inr rfl) hfound (show 0 < 2 ^ 32 by decide)
  rw [hrun] at hreply
  cases r with
  | none => cases hreply
  | some b =>
    obtain ⟨hstep, hb, hread, -⟩ := hspec
    exact ⟨s, b, hrun, hb, hread, (deleteMapEntry_inside_iff sampleVolume_layout sampleEnv
      hstep.ok (.inr rfl) (hstep.slot.found hfound) (by decide)).mpr (by decide)⟩

/-- At position 12288, the first below an indirect block, index 9 of four elements is used. -/
theorem deleteMapEntry_outside :
    ¬ ∃ s' used, deleteMapEntry sampleVolume sampleEnv sampleFileFs 0 12288 =
      .ok (s', .ok (), used) ∧ ∀ j ∈ used, j < 4 := by
  intro ⟨s', used, hrun, hin⟩
  have hused : (deleteMapEntry sampleVolume sampleEnv sampleFileFs 0 12288).toOption.map
      (fun r => r.2.2) = some [0, 1, 9, 1, 1] := by decide +kernel
  rw [hrun] at hused
  cases hused
  exact absurd (hin 9 (by decide)) (by decide)

end Cheviot.Ext2
