import Cheviot.Ext2.NewBlock

/-!
# What a change of inodes and blocks does to the files

The files of a set of inodes are their block maps and the bytes of the blocks in
them. Here is what is left of them when inodes and blocks change.

All of it is about the places of `Lib.Forest`: a change is local because no block is at two
places, and what is not a place of a file does not show in its bytes.

* `MapOk.prune` — maps stay in order when places become empty, or inodes join that
  have nothing in them.
* `MapOk.keep`, `MapOk.keep_bytes` — nothing has happened to a file whose block
  entries and data blocks are as before.
* `MapOk.put`, `MapOk.put_bytes` — new bytes in the block at a position of one file
  show there and nowhere else.
-/

namespace Cheviot.Ext2

open Cheviot.Bytes Cheviot.Forest

section Maps

variable {v : Volume} {live live' : Nat → Prop} {node node' : Nat → OndiskInode}
  {blk blk' : Nat → Buf} {m n : Nat}

/-- Places below an entry that is as before are as before, if the indirect blocks are. -/
theorem mapAt_keep {k : Fin 15} (hroot : (node' m).block k = (node m).block k)
    (hblk : ∀ q, Place (mapShape v) (m, k) q → q.length < levels k → mapAt v node blk m k q ≠ 0 →
      blk' (mapAt v node blk m k q) = blk (mapAt v node blk m k q)) {p : List Nat}
    (hp : Place (mapShape v) (m, k) p) : mapAt v node' blk' m k p = mapAt v node blk m k p := by
  have hroot' : mapRoot node' (m, k) = mapRoot node (m, k) := congrArg UInt32.toNat hroot
  refine ptr_congr hroot' (fun q hq hlen hne j _ => ?_) hp
  exact congrArg (fun b => readIndirectBlockEntry v.beCpu b j) (hblk q hq hlen hne)

/-- Below an empty entry there is nothing. -/
theorem mapAt_null {k : Fin 15} (hroot : (node m).block k = 0) (p : List Nat) :
    mapAt v node blk m k p = 0 := by
  rw [mapAt, ptr, mapRoot, hroot]
  exact follow_null p

/-- Maps of which some places have become empty. -/
theorem MapOk.prune (h : MapOk v node blk live)
    (hplace : ∀ m, live' m → ∀ k p, Place (mapShape v) (m, k) p → mapAt v node' blk' m k p = 0 ∨
      (live m ∧ mapAt v node' blk' m k p = mapAt v node blk m k p)) :
    MapOk v node' blk' live' := by
  constructor
  · intro r p r' p' hr hr' hp hp' heq hne
    have heq' : mapAt v node' blk' r.1 r.2 p = mapAt v node' blk' r'.1 r'.2 p' := heq
    have hne' : mapAt v node' blk' r.1 r.2 p ≠ 0 := hne
    obtain ⟨hlive, hold⟩ := (hplace r.1 hr r.2 p hp).resolve_left hne'
    obtain ⟨hlive', hold'⟩ := (hplace r'.1 hr' r'.2 p' hp').resolve_left (heq' ▸ hne')
    rw [hold] at hne'
    rw [hold, hold'] at heq'
    exact h.unshared r p r' p' hlive hlive' hp hp' heq' hne'
  · intro m hm k p hp hne
    obtain ⟨hlive, hold⟩ := (hplace m hm k p hp).resolve_left hne
    rw [hold] at hne ⊢
    exact h.data m hlive k p hp hne

/-- An indirect block is not at the end of a path. -/
theorem MapOk.leaf_ne (h : MapOk v node blk live) {k k₀ : Fin 15} {q p₀ : List Nat} (hm : live m)
    (hn : live n) (hleaf : Leaf v n k₀ p₀) (hq : Place (mapShape v) (m, k) q)
    (hlen : q.length < levels k) (hne : mapAt v node blk m k q ≠ 0) :
    mapAt v node blk m k q ≠ mapAt v node blk n k₀ p₀ := by
  intro heq
  obtain ⟨hr, rfl⟩ := h.unshared (m, k) q (n, k₀) p₀ hm hn hq hleaf.1 heq hne
  rw [Prod.mk.injEq] at hr
  rw [hleaf.2, hr.2] at hlen
  exact Nat.lt_irrefl _ hlen

/-- Places after a change that no indirect block of a live inode has seen. -/
theorem MapOk.keep (h : MapOk v node blk live) (hm : live m)
    (hroot : (node' m).block = (node m).block)
    (hblk : ∀ b, DataBlock v b → blk' b = blk b) {k : Fin 15} {p : List Nat}
    (hp : Place (mapShape v) (m, k) p) : mapAt v node' blk' m k p = mapAt v node blk m k p :=
  mapAt_keep (congrFun hroot k) (fun q hq _ hne => hblk _ (h.data m hm k q hq hne)) hp

/-- Places after the block of a leaf has got other bytes. -/
theorem MapOk.put (h : MapOk v node blk live) (hn : live n) {k₀ : Fin 15} {p₀ : List Nat}
    (hleaf : Leaf v n k₀ p₀) (hm : live m) (hroot : (node' m).block = (node m).block)
    (hblk : ∀ b, DataBlock v b → b ≠ mapAt v node blk n k₀ p₀ → blk' b = blk b) {k : Fin 15}
    {p : List Nat} (hp : Place (mapShape v) (m, k) p) :
    mapAt v node' blk' m k p = mapAt v node blk m k p :=
  mapAt_keep (congrFun hroot k) (fun q hq hlen hne =>
    hblk _ (h.data m hm k q hq hne) (h.leaf_ne hm hn hleaf hq hlen hne)) hp

/-! ## Bytes -/

theorem byteAt_eq {pos : Nat} {k : Fin 15} {p : List Nat}
    (hcalc : calcBlockIndirectionOffsets v pos = some (k, p)) :
    byteAt v blk (node m) pos = if mapAt v node blk m k p = 0 then 0
      else blk (mapAt v node blk m k p) (pos % v.blockSize) := by
  unfold byteAt readMapEntry
  rw [hcalc]
  rfl

theorem readMapEntry_mapAt {pos : Nat} {k : Fin 15} {p : List Nat}
    (hcalc : calcBlockIndirectionOffsets v pos = some (k, p)) :
    readMapEntry v blk (node m) pos = mapAt v node blk m k p := by
  unfold readMapEntry
  rw [hcalc]
  rfl

/-- A file whose entries and data blocks are as before has the same blocks and bytes. -/
theorem MapOk.keep_bytes (h : MapOk v node blk live) (hlog : v.logBlockSize ≤ 5) (hm : live m)
    (hroot : (node' m).block = (node m).block) (hblk : ∀ b, DataBlock v b → blk' b = blk b)
    {q : Nat} (hq : q < 2 ^ 32) :
    readMapEntry v blk' (node' m) q = readMapEntry v blk (node m) q ∧
      byteAt v blk' (node' m) q = byteAt v blk (node m) q := by
  obtain ⟨k, p, hcalc, hleaf⟩ := calc_place hlog hq
  have hat := h.keep hm hroot hblk (hleaf m).1
  rw [readMapEntry_mapAt hcalc, readMapEntry_mapAt hcalc, byteAt_eq hcalc, byteAt_eq hcalc, hat]
  refine ⟨rfl, ?_⟩
  by_cases hnull : mapAt v node blk m k p = 0
  · rw [if_pos hnull, if_pos hnull]
  · rw [if_neg hnull, if_neg hnull, hblk _ (h.data m hm k p (hleaf m).1 hnull)]

/-- New bytes in the block at position `pos` of a file are at the positions of that
block, in that file. -/
theorem MapOk.put_bytes (h : MapOk v node blk live) (hlog : v.logBlockSize ≤ 5) (hn : live n)
    {pos : Nat} (hpos : pos < 2 ^ 32) (hmap : readMapEntry v blk (node n) pos ≠ noBlock)
    (hm : live m) (hroot : (node' m).block = (node m).block)
    (hblk : ∀ b, DataBlock v b → b ≠ readMapEntry v blk (node n) pos → blk' b = blk b) {q : Nat}
    (hq : q < 2 ^ 32) :
    readMapEntry v blk' (node' m) q = readMapEntry v blk (node m) q ∧
      byteAt v blk' (node' m) q =
        if m = n then
          withBlock v (byteAt v blk (node n)) pos (blk' (readMapEntry v blk (node n) pos)) q
        else byteAt v blk (node m) q := by
  obtain ⟨k₀, p₀, hcalc₀, hleaf₀⟩ := calc_place hlog hpos
  obtain ⟨k, p, hcalc, hleaf⟩ := calc_place hlog hq
  rw [readMapEntry_mapAt hcalc₀] at hmap hblk ⊢
  have hat := h.put hn (hleaf₀ n) hm hroot hblk (hleaf m).1
  -- the leaf of `q` is the block when `q` is in the block of `pos`
  have hsame : (k = k₀ ∧ p = p₀) ↔ q / v.blockSize = pos / v.blockSize := by
    constructor
    · rintro ⟨rfl, rfl⟩
      exact calc_inj hlog hq hpos (hcalc.trans hcalc₀.symm)
    · intro hdiv
      have := (hcalc.symm.trans (calc_congr hq hpos hdiv)).trans hcalc₀
      simpa using this
  rw [readMapEntry_mapAt hcalc, readMapEntry_mapAt hcalc, byteAt_eq hcalc, hat]
  refine ⟨rfl, ?_⟩
  -- a place with another block reads what it read
  have hother : (m = n ∧ k = k₀ ∧ p = p₀) ∨ (if mapAt v node blk m k p = 0 then 0
      else blk' (mapAt v node blk m k p) (q % v.blockSize)) = byteAt v blk (node m) q := by
    rw [byteAt_eq hcalc]
    by_cases hnull : mapAt v node blk m k p = 0
    · rw [if_pos hnull, if_pos hnull]
      exact .inr rfl
    · rw [if_neg hnull, if_neg hnull]
      by_cases heq : mapAt v node blk m k p = mapAt v node blk n k₀ p₀
      · obtain ⟨hr, rfl⟩ := h.unshared (m, k) p (n, k₀) p₀ hm hn (hleaf m).1 (hleaf₀ n).1 heq hnull
        rw [Prod.mk.injEq] at hr
        exact .inl ⟨hr.1, hr.2, rfl⟩
      · exact .inr (by rw [hblk _ (h.data m hm k p (hleaf m).1 hnull) heq])
  by_cases hmn : m = n
  · subst hmn
    rw [if_pos rfl, withBlock]
    by_cases hdiv : q / v.blockSize = pos / v.blockSize
    · obtain ⟨rfl, rfl⟩ := hsame.mpr hdiv
      rw [if_pos hdiv, if_neg hmap]
    · rw [if_neg hdiv]
      exact hother.resolve_left fun h => hdiv (hsame.mp h.2)
  · rw [if_neg hmn]
    exact hother.resolve_left fun h => hmn h.1

/-! ## A file of one block -/

/-- Inodes without a block have nothing in common. -/
theorem mapOk_empty {v : Volume} {node : Nat → OndiskInode} {live : Nat → Prop}
    (h : ∀ m, live m → ∀ k, ((node m).block k).toNat = 0) (blk : Nat → Buf) :
    MapOk v node blk live := by
  have hnull : ∀ m, live m → ∀ k p, mapAt v node blk m k p = 0 := by
    intro m hm k p
    unfold mapAt ptr mapRoot
    rw [h m hm k]
    exact follow_null p
  refine ⟨?_, fun m hm k p _ hne => absurd (hnull m hm k p) hne⟩
  intro ⟨m, k⟩ p ⟨m', k'⟩ p' hm hm' _ _ heq hne
  exact absurd (hnull m hm k p) hne

/-- The files of `live` have one block, the first of inode `n`. -/
def OneBlock (v : Volume) (s : Fs) (live : Nat → Prop) (n b : Nat) : Prop :=
  ∀ m, live m → ∀ k, mapRoot (nodeAt v s) (m, k) = if m = n ∧ k.val = 0 then b else 0

theorem OneBlock.place {s : Fs} {b : Nat} (h : OneBlock v s live n b) (hm : live m) {k : Fin 15}
    {p : List Nat} (hp : Place (mapShape v) (m, k) p) :
    blockAt v s m k p = if m = n ∧ k.val = 0 then b else 0 := by
  unfold blockAt mapAt ptr
  rw [h m hm k]
  by_cases hfirst : m = n ∧ k.val = 0
  · obtain ⟨rfl, hk⟩ := hfirst
    obtain rfl : k = 0 := Fin.ext hk
    have hlen : p.length ≤ 0 := hp.1
    rw [List.length_eq_zero_iff.mp (Nat.le_zero.mp hlen)]
    rfl
  · rw [if_neg hfirst]
    exact follow_null p

/-- Files with one block between them are in order. -/
theorem filesOk_single {s : Fs} {b : Nat} (hlive : ∀ m, live m → OnVolume v m)
    (hs : BlockConsistent v s) (h : OneBlock v s live n b) (hdata : DataBlock v b)
    (hused : BlockUsed v s b) : FilesOk v s live := by
  have hzero : ∀ m, live m → ∀ k p, Place (mapShape v) (m, k) p → blockAt v s m k p ≠ 0 →
      (m, k) = (n, 0) ∧ p = [] ∧ blockAt v s m k p = b := by
    intro m hm k p hp hne
    rw [h.place hm hp] at hne ⊢
    by_cases hfirst : m = n ∧ k.val = 0
    · obtain ⟨rfl, hk⟩ := hfirst
      obtain rfl : k = 0 := Fin.ext hk
      have hlen : p.length ≤ 0 := hp.1
      exact ⟨rfl, List.length_eq_zero_iff.mp (Nat.le_zero.mp hlen), if_pos ⟨rfl, rfl⟩⟩
    · rw [if_neg hfirst] at hne
      exact absurd rfl hne
  refine ⟨hlive, hs, ⟨fun ⟨m, k⟩ p ⟨m', k'⟩ p' hm hm' hp hp' heq hne => ?_,
    fun m hm k p hp hne => ?_⟩, fun m hm k p hp hne => ?_⟩
  · obtain ⟨hr, rfl, -⟩ := hzero m hm k p hp hne
    obtain ⟨hr', rfl, -⟩ := hzero m' hm' k' p' hp' (fun hnull => hne (heq.trans hnull))
    exact ⟨hr.trans hr'.symm, rfl⟩
  · show DataBlock v (blockAt v s m k p)
    rw [(hzero m hm k p hp hne).2.2]
    exact hdata
  · rw [(hzero m hm k p hp hne).2.2]
    exact hused

end Maps

end Cheviot.Ext2
