import Cheviot.Ext2.DirBlock
import Cheviot.Ext2.FileFrame

/-!
# A directory as rows of records

A directory without holes is one row of entries a block (`DirRows`). This module says
what the searches of `Dir` find in such a directory, and what `dirent_enter` and
`dirent_delete` make of it.

* `walkBlocks_rows` — a walk over the blocks stops at the first one with a result.
* `lookupDir_rows` — a lookup finds the first entry that answers to the name.
* `direntEnter_rows`, `direntDelete_rows` — one block gets the new row, and nothing
  else happens to any file (`DirStep`).
-/

namespace Cheviot.Ext2

open Cheviot.Bytes Cheviot.Rows

/-- Block `k` of a file with the bytes `c`. -/
def blockBytes (v : Volume) (c : Nat → UInt8) (k : Nat) : Buf := fun j => c (k * v.blockSize + j)

/-- Block `k` of a directory of `size` bytes `c` is the row of entries `rows k`. -/
def DirRows (v : Volume) (c : Nat → UInt8) (size : Nat) (rows : Nat → List Entry) : Prop :=
  ∀ k, k * v.blockSize < size → Tiled (blockBytes v c k) 0 v.blockSize (rows k)

/-- `e` is an entry of the directory. -/
def Holds (v : Volume) (size : Nat) (rows : Nat → List Entry) (e : Entry) : Prop :=
  ∃ k, k * v.blockSize < size ∧ e ∈ rows k

section Rows

variable {α : Type} {v : Volume} {blk : Nat → Buf} {odi : OndiskInode} {rows : Nat → List Entry}

/-- A position in a directory block, as a 32-bit number. -/
theorem block_end_le (hlog : v.logBlockSize ≤ 5) {k size : Nat} (hsize : size < 2 ^ 32)
    (hk : k * v.blockSize < size) : (k + 1) * v.blockSize ≤ 2 ^ 32 := by
  have hdvd : v.blockSize ∣ 2 ^ 32 := by
    rw [Volume.blockSize_eq hlog, show 1024 * 2 ^ v.logBlockSize = 2 ^ (10 + v.logBlockSize) by
      rw [Nat.pow_add]]
    exact Nat.pow_dvd_pow 2 (by omega)
  obtain ⟨m, hm⟩ := hdvd
  have hlt : k * v.blockSize < m * v.blockSize := by
    rw [Nat.mul_comm m, ← hm]
    omega
  have hkm : k < m := Nat.lt_of_mul_lt_mul_right hlt
  calc (k + 1) * v.blockSize ≤ m * v.blockSize := Nat.mul_le_mul_right _ hkm
    _ = 2 ^ 32 := by rw [Nat.mul_comm, hm]

/-- The positions of one block are mapped to one block. -/
theorem readMapEntry_block {k j : Nat} (hend : k * v.blockSize + j < 2 ^ 32)
    (hj : j < v.blockSize) :
    readMapEntry v blk odi (k * v.blockSize + j) = readMapEntry v blk odi (k * v.blockSize) := by
  have hcalc : calcBlockIndirectionOffsets v (k * v.blockSize + j) =
      calcBlockIndirectionOffsets v (k * v.blockSize) := by
    refine calc_congr (by omega) (by omega) ?_
    rw [Nat.mul_comm, Nat.mul_add_div (by omega), Nat.div_eq_of_lt hj,
      Nat.mul_div_cancel_left _ (by omega)]
    rfl
  rw [readMapEntry, readMapEntry, hcalc]

/-- A row is in a block of the volume. -/
theorem DirRows.block (hlog : v.logBlockSize ≤ 5)
    (h : DirRows v (byteAt v blk odi) odi.size.toNat rows) {k : Nat}
    (hk : k * v.blockSize < odi.size.toNat) :
    readMapEntry v blk odi (k * v.blockSize) ≠ noBlock ∧
      Tiled (blk (readMapEntry v blk odi (k * v.blockSize))) 0 v.blockSize (rows k) := by
  have hbs := Volume.blockSize_bounds hlog
  have hend := block_end_le hlog odi.size.toNat_lt hk
  rw [Nat.add_mul, Nat.one_mul] at hend
  have hread : ∀ j, j < v.blockSize → readMapEntry v blk odi (k * v.blockSize + j) =
      readMapEntry v blk odi (k * v.blockSize) :=
    fun j hj => readMapEntry_block (by omega) hj
  have htiled := h k hk
  have hne : readMapEntry v blk odi (k * v.blockSize) ≠ noBlock := by
    intro hnull
    -- the first record of a hole would have length 0
    obtain ⟨e, he, -⟩ := htiled.row.cover (Nat.le_refl 0) (by omega)
    have hin := htiled.bounds he
    have hneed := e.need_ge
    have hmin : minDirEntrySize = 8 := rfl
    have hzero : ∀ j, j < v.blockSize → blockBytes v (byteAt v blk odi) k j = 0 := by
      intro j hj
      rw [blockBytes, byteAt, hread j hj, if_pos hnull]
    have hlen := (htiled.entry e he).len
    rw [ld16, hzero _ (by omega), hzero _ (by omega)] at hlen
    have hlen : e.len = 0 := hlen.symm
    omega
  refine ⟨hne, htiled.congr fun j _ hj => ?_⟩
  rw [blockBytes, byteAt, hread j hj, if_neg hne, Nat.mul_comm, Nat.mul_add_mod,
    Nat.mod_eq_of_lt hj]

/-- A walk over the blocks stops at the first one with a result. -/
theorem walkBlocks_rows (hbs : 0 < v.blockSize) (blk : Nat → Buf) (odi : OndiskInode)
    (hole : String) (body : Nat → Except Fault (Option α)) (P : Nat → Prop) (Q : Nat → α → Prop)
    (hbody : ∀ k, k * v.blockSize < odi.size.toNat →
      readMapEntry v blk odi (k * v.blockSize) ≠ noBlock ∧
      ((body (readMapEntry v blk odi (k * v.blockSize)) = .ok none ∧ P k) ∨
        ∃ a, body (readMapEntry v blk odi (k * v.blockSize)) = .ok (some a) ∧ Q k a)) :
    (walkBlocks v blk odi hole body = .ok none ∧ ∀ k, k * v.blockSize < odi.size.toNat → P k) ∨
    ∃ k a, walkBlocks v blk odi hole body = .ok (some a) ∧ k * v.blockSize < odi.size.toNat ∧
      Q k a ∧ ∀ j, j < k → P j := by
  have hloop : ∀ (fuel k : Nat), odi.size.toNat - k * v.blockSize < fuel → (∀ j, j < k → P j) →
      (walkDir v blk odi hole body fuel (k * v.blockSize) = .ok none ∧
        ∀ j, j * v.blockSize < odi.size.toNat → P j) ∨
      ∃ j a, walkDir v blk odi hole body fuel (k * v.blockSize) = .ok (some a) ∧
        j * v.blockSize < odi.size.toNat ∧ Q j a ∧ ∀ l, l < j → P l := by
    intro fuel
    -- by the fuel; the blocks before `k` have given nothing
    induction fuel with
    | zero => exact fun _ h => absurd h (Nat.not_lt_zero _)
    | succ fuel ih =>
      intro k hfuel hpast
      rw [walkDir]
      by_cases hk : k * v.blockSize < odi.size.toNat
      · obtain ⟨hne, hcase⟩ := hbody k hk
        rw [if_pos hk]
        simp only
        rw [if_neg hne]
        rcases hcase with ⟨hrun, hP⟩ | ⟨a, hrun, hQ⟩
        · rw [bind_of_ok hrun, show k * v.blockSize + v.blockSize = (k + 1) * v.blockSize by
            rw [Nat.add_mul, Nat.one_mul]]
          refine ih (k + 1) (by rw [Nat.add_mul, Nat.one_mul]; omega) fun j hj => ?_
          rcases Nat.lt_succ_iff_lt_or_eq.mp hj with hlt | rfl
          · exact hpast j hlt
          · exact hP
        · rw [bind_of_ok hrun]
          exact .inr ⟨k, a, rfl, hk, hQ, hpast⟩
      · rw [if_neg hk]
        refine .inl ⟨rfl, fun j hj => hpast j ?_⟩
        exact Nat.lt_of_mul_lt_mul_right (Nat.lt_of_lt_of_le hj (Nat.le_of_not_lt hk))
  have hstart := hloop (odi.size.toNat + 1) 0 (by omega) fun _ h => absurd h (Nat.not_lt_zero _)
  rw [Nat.zero_mul] at hstart
  exact hstart

/-- `lookup_dir` finds an entry that answers to the name, if there is one. -/
theorem lookupDir_rows (hlog : v.logBlockSize ≤ 5) (hbe : v.beCpu = false)
    (h : DirRows v (byteAt v blk odi) odi.size.toNat rows) {name : List UInt8}
    (hname : name.length ≤ nameMax) :
    (lookupDir v blk odi name = .ok (.error .enoent) ∧
      ∀ e, Holds v odi.size.toNat rows e → ¬ e.Answers name) ∨
    ∃ e, lookupDir v blk odi name = .ok (.ok e.ino) ∧ Holds v odi.size.toNat rows e ∧
      e.Answers name := by
  have hbs := Volume.blockSize_bounds hlog
  have hwalk := walkBlocks_rows (show 0 < v.blockSize by omega) blk odi
    "lookup_dir found a hole in a directory" (fun block => lookupDirBlock v (blk block) name)
    (fun k => ∀ e ∈ rows k, ¬ e.Answers name)
    (fun k ino => ∃ e ∈ rows k, e.Answers name ∧ ino = e.ino) fun k hk => by
      obtain ⟨hne, ht⟩ := h.block hlog hk
      refine ⟨hne, ?_⟩
      rw [lookupDirBlock_tiled hbe ht]
      cases hp : pick (fun _ e => if e.Answers name then some e.ino else none) none (rows k) with
      | none =>
        refine .inl ⟨rfl, fun e he ha => ?_⟩
        have := pick_eq_none.mp hp e he
        rw [if_pos ha] at this
        cases this
      | some ino =>
        -- the walk stops at a record only where it answers
        obtain ⟨pre, e, post, hrow, hstop, -⟩ := pick_eq_some hp
        refine .inr ⟨ino, rfl, e, ?_, ?_⟩
        · rw [hrow]
          exact List.mem_append_right _ List.mem_cons_self
        · by_cases ha : e.Answers name
          · rw [if_pos ha] at hstop
            cases hstop
            exact ⟨ha, rfl⟩
          · rw [if_neg ha] at hstop
            cases hstop
  rw [lookupDir, if_neg (by omega)]
  rcases hwalk with ⟨hrun, hnone⟩ | ⟨k, ino, hrun, hk, ⟨e, he, ha, rfl⟩, -⟩
  · rw [bind_of_ok hrun]
    exact .inl ⟨rfl, fun e ⟨k, hk, he⟩ => hnone k hk e he⟩
  · rw [bind_of_ok hrun]
    exact .inr ⟨e, rfl, ⟨k, hk, he⟩, ha⟩

end Rows

/-! ## Entering and deleting a name -/

/-- An inode without its times and flags. -/
def OndiskInode.lasting (o : OndiskInode) : OndiskInode := { o.untimed with flags := 0 }

/-- Of the inodes, only `n` in cache slot `i` has changed, in its times and flags, and
it is on the disk. -/
structure InodeStep (v : Volume) (n i : Nat) (s s' : Fs) : Prop where
  hash : s'.hash = s.hash
  unused : s'.unused = s.unused
  slot : ∀ j, j ≠ i → s'.slot j = s.slot j
  ino : (s'.slot i).ino = (s.slot i).ino
  count : (s'.slot i).count = (s.slot i).count
  lasting : (s'.slot i).odi.lasting = (s.slot i).odi.lasting
  disk : ∀ m, OnVolume v m →
    diskInode v s' m = if m = n then (s'.slot i).odi else diskInode v s m

/-- What entering or deleting a name in directory `n`, in cache slot `i`, leaves as it
is: the inodes as above, all counters, bitmaps and maps, and the bytes of all other files. -/
structure DirStep (v : Volume) (live : Nat → Prop) (n i : Nat) (s s' : Fs) : Prop
    extends InodeStep v n i s s' where
  gd : s'.gd = s.gd
  free : s'.freeBlocksCount = s.freeBlocksCount
  inodes : s'.freeInodesCount = s.freeInodesCount ∧ s'.dirsCounter = s.dirsCounter
  bitmap : ∀ g, g < v.groupsCount → s'.blk (v.blockBitmap g) = s.blk (v.blockBitmap g) ∧
    s'.blk (v.inodeBitmap g) = s.blk (v.inodeBitmap g)
  place : ∀ m, live m → ∀ k p, Forest.Place (mapShape v) (m, k) p →
    blockAt v s' m k p = blockAt v s m k p
  bytes : ∀ m, live m → m ≠ n → ∀ q, q < 2 ^ 32 → contentAt v s' m q = contentAt v s m q

section Step

variable {v : Volume} {live : Nat → Prop} {n i : Nat} {s s' : Fs}

theorem InodeStep.search (h : InodeStep v n i s s') (k m : Nat) :
    searchBucket s' k m = searchBucket s k m := by
  have hino : ∀ j, (s'.slot j).ino = (s.slot j).ino := by
    intro j
    by_cases hj : j = i
    · rw [hj, h.ino]
    · rw [h.slot j hj]
  simp only [searchBucket, h.hash, hino]

theorem InodeStep.found (h : InodeStep v n i s s') (hf : Found s n i) : Found s' n i := by
  rw [Found, h.search]
  exact hf

theorem InodeStep.nodeAt_ne (h : InodeStep v n i s s') (hf : Found s n i) {m : Nat}
    (hm : OnVolume v m) (hne : m ≠ n) : nodeAt v s' m = nodeAt v s m := by
  unfold Ext2.nodeAt
  rw [h.search]
  cases hs : searchBucket s (m % inodeHashSize) m with
  | none =>
    show diskInode v s' m = diskInode v s m
    rw [h.disk m hm, if_neg hne]
  | some j =>
    have hj : j ≠ i := by
      rintro rfl
      have := Found.ino (show Found s m j from hs)
      rw [hf.ino] at this
      exact hne this.symm
    simp only [h.slot j hj]

theorem InodeStep.nodeAt_lasting (h : InodeStep v n i s s') (hf : Found s n i) {m : Nat}
    (hm : OnVolume v m) : (nodeAt v s' m).lasting = (nodeAt v s m).lasting := by
  by_cases hmn : m = n
  · rw [hmn, (h.found hf).nodeAt, hf.nodeAt, h.lasting]
  · rw [h.nodeAt_ne hf hm hmn]

theorem InodeStep.nodeAt_block (h : InodeStep v n i s s') (hf : Found s n i) {m : Nat}
    (hm : OnVolume v m) : (nodeAt v s' m).block = (nodeAt v s m).block := by
  have hblock := congrArg OndiskInode.block (h.nodeAt_lasting hf hm)
  exact hblock

/-- The inode of slot `i` changed in times and flags, and written. -/
theorem inodeStep_wroteInode (hv : Layout v) {t : Fs} (hn : OnVolume v n) (hf : Found s n i)
    (env : Env) (hhash : t.hash = s.hash) (hunused : t.unused = s.unused)
    (hslot : ∀ j, j ≠ i → t.slot j = s.slot j) (hino : (t.slot i).ino = (s.slot i).ino)
    (hcount : (t.slot i).count = (s.slot i).count)
    (hodi : (t.slot i).odi.lasting = (s.slot i).odi.lasting)
    (hdisk : ∀ m, OnVolume v m → diskInode v t m = diskInode v s m) :
    InodeStep v n i s (wroteInode v env t i) := by
  have htino : (t.slot i).ino = n := by rw [hino, hf.ino]
  refine ⟨hhash, hunused, fun j hj => ?_, ?_, ?_, ?_, fun m hm => ?_⟩
  · rw [wroteInode_slot, if_neg hj, hslot j hj]
  · rw [wroteInode_ino, hino]
  · rw [wroteInode_count, hcount]
  · rw [wroteInode_slot, if_pos rfl, OndiskInode.lasting, untimed_timed]
    exact hodi
  · rw [diskInode_wroteInode hv env (by rw [htino]; exact hn) hm, htino, wroteInode_slot,
      if_pos rfl, hdisk m hm]

/-- A name is entered or deleted by writing one block of the directory, and its inode. -/
theorem dirStep_of_write (hv : Layout v) (hvol : ∀ m, live m → OnVolume v m)
    (hs : MapOk v (nodeAt v s) s.blk live) (hn : live n) (hf : Found s n i) {pos block : Nat}
    (hpos : pos < 2 ^ 32) (hmap : readMapEntry v s.blk (s.slot i).odi pos = block)
    (hne : block ≠ noBlock) (env : Env) (buf : Buf) {x : Inode} (hino : x.ino = (s.slot i).ino)
    (hcount : x.count = (s.slot i).count) (hodi : x.odi.lasting = (s.slot i).odi.lasting) :
    ∃ s', writeInode v env ((s.writeBlk block buf).setSlot i x) i = .ok s' ∧
      DirStep v live n i s s' ∧
      ∀ q, q < 2 ^ 32 → contentAt v s' n q = withBlock v (contentAt v s n) pos buf q := by
  have hvoln := hvol n hn
  rw [← hf.nodeAt (v := v)] at hmap
  obtain ⟨k₀, p₀, hcalc, hleaf⟩ := calc_place hv.log_le hpos
  have hread : block = mapAt v (nodeAt v s) s.blk n k₀ p₀ := by
    rw [← hmap, readMapEntry_mapAt hcalc]
  have hdata : DataBlock v block := by
    rw [hread] at hne ⊢
    exact hs.data n hn k₀ p₀ (hleaf n).1 hne
  -- no data block is in the inode table, so the two writes do not meet
  have htab : ∀ b, DataBlock v b → b ≠ v.inodeTableBlock n := fun b hb he =>
    hb.2.2 (he ▸ inodeTableBlock_system hv hvoln)
  generalize ht : (s.writeBlk block buf).setSlot i x = t
  have hslot : t.slot i = x := by rw [← ht]; exact Function.update_self ..
  have htino : (t.slot i).ino = n := by rw [hslot, hino, hf.ino]
  have hblk : ∀ b, t.blk b = if b = block then buf else s.blk b := by
    intro b
    rw [← ht]
    exact Function.update_apply ..
  have hsystem : ∀ b, SystemBlock v b → t.blk b = s.blk b := by
    intro b hb
    rw [hblk, if_neg]
    rintro rfl
    exact hdata.2.2 hb
  have hwrote : ∀ b, b ≠ v.inodeTableBlock n → (wroteInode v env t i).blk b = t.blk b :=
    fun b hb => wroteInode_blk_ne (by rwa [htino])
  -- what the inode is now, in the cache and on the disk
  have hinode : InodeStep v n i s (wroteInode v env t i) := by
    refine inodeStep_wroteInode hv hvoln hf env (by rw [← ht]; rfl) (by rw [← ht]; rfl)
      (fun j hj => by rw [← ht]; exact Function.update_of_ne hj _ _) (by rw [hslot, hino])
      (by rw [hslot, hcount]) (by rw [hslot, hodi]) fun m hm => ?_
    exact diskInode_congr (hsystem _ (inodeTableBlock_system hv hm))
  have hblk' : ∀ b, DataBlock v b → b ≠ readMapEntry v s.blk (nodeAt v s n) pos →
      (wroteInode v env t i).blk b = s.blk b := by
    intro b hb hbne
    rw [hwrote b (htab b hb), hblk, if_neg (by rwa [← hmap])]
  -- the bytes of every file, of which only those of the block are new
  have hbytes : ∀ m, live m → ∀ q, q < 2 ^ 32 → contentAt v (wroteInode v env t i) m q =
      if m = n then withBlock v (contentAt v s n) pos buf q else contentAt v s m q := by
    intro m hm q hq
    refine (hs.put_bytes hv.log_le hn hpos (by rwa [hmap]) hm
      (hinode.nodeAt_block hf (hvol m hm)) hblk' hq).2.trans ?_
    rw [hmap, hwrote block (htab block hdata), hblk, if_pos rfl]
    rfl
  refine ⟨_, writeInode_eq (by rw [htino]; exact hvoln), ⟨hinode, ?_, ?_, ⟨?_, ?_⟩,
    fun g hg => ⟨?_, ?_⟩, fun m hm k p hp => ?_, fun m hm hmn q hq => ?_⟩, fun q hq => ?_⟩
  · rw [← ht]
    rfl
  · rw [← ht]
    rfl
  · rw [← ht]
    rfl
  · rw [← ht]
    rfl
  · rw [hwrote _ (inodeTableBlock_ne_block_bitmap hv hvoln hg)]
    exact hsystem _ (.inr ⟨g, hg, .inl rfl⟩)
  · rw [hwrote _ (inodeTableBlock_ne_inode_bitmap hv hvoln hg)]
    exact hsystem _ (.inr ⟨g, hg, .inr (.inl rfl)⟩)
  · refine hs.put hn (hleaf n) hm (hinode.nodeAt_block hf (hvol m hm)) (fun b hb hbne => ?_) hp
    exact hblk' b hb (by rwa [hmap, hread])
  · rw [hbytes m hm q hq, if_neg hmn]
  · rw [hbytes n hn q hq, if_pos rfl]

/-- The row of one block exchanged. -/
theorem DirRows.put (hbs : 0 < v.blockSize) {c c' : Nat → UInt8} {size k : Nat}
    {rows : Nat → List Entry} {buf : Buf} {es : List Entry} (h : DirRows v c size rows)
    (hsize : ∀ k, k * v.blockSize < size → (k + 1) * v.blockSize ≤ 2 ^ 32)
    (hc : ∀ q, q < 2 ^ 32 → c' q = withBlock v c (k * v.blockSize) buf q)
    (ht : Tiled buf 0 v.blockSize es) : DirRows v c' size (Function.update rows k es) := by
  intro j hj
  have hend := hsize j hj
  rw [Nat.add_mul, Nat.one_mul] at hend
  have hdiv : ∀ a, a < v.blockSize → (j * v.blockSize + a) / v.blockSize = j := by
    intro a ha
    rw [Nat.mul_comm, Nat.mul_add_div hbs, Nat.div_eq_of_lt ha, Nat.add_zero]
  have hmod : ∀ a, a < v.blockSize → (j * v.blockSize + a) % v.blockSize = a := by
    intro a ha
    rw [Nat.mul_comm, Nat.mul_add_mod, Nat.mod_eq_of_lt ha]
  have hbyte : ∀ a, a < v.blockSize → blockBytes v c' j a =
      if j = k then buf a else blockBytes v c j a := by
    intro a ha
    rw [blockBytes, hc _ (by omega), withBlock, hdiv a ha, hmod a ha,
      Nat.mul_div_cancel _ hbs]
    rfl
  by_cases hjk : j = k
  · subst hjk
    rw [Function.update_self]
    exact ht.congr fun a _ ha => by rw [hbyte a ha, if_pos rfl]
  · rw [Function.update_of_ne hjk]
    exact (h j hj).congr fun a _ ha => by rw [hbyte a ha, if_neg hjk]

/-- A name enters the first block with room for it, or the directory has no room. -/
theorem direntEnter_rows (hv : Layout v) (hbe : v.beCpu = false)
    (hvol : ∀ m, live m → OnVolume v m) (hs : MapOk v (nodeAt v s) s.blk live) (hn : live n)
    (hf : Found s n i) {rows : Nat → List Entry}
    (hrows : DirRows v (contentAt v s n) (s.slot i).odi.size.toNat rows) {name : List UInt8}
    (hname : name.length ≤ nameMax) {ino : Nat} (hino : ino < 2 ^ 32) (env : Env)
    (mode : UInt16) :
    (direntEnter v env s i name ino mode = .ok (s, .error .enoent) ∧
      ∀ e, Holds v (s.slot i).odi.size.toNat rows e → ¬ e.Room (dirEntrySize name.length)) ∨
    ∃ s' k es, direntEnter v env s i name ino mode = .ok (s', .ok ()) ∧
      k * v.blockSize < (s.slot i).odi.size.toNat ∧ Entered ino name (rows k) es ∧
      DirStep v live n i s s' ∧
      DirRows v (contentAt v s' n) (s.slot i).odi.size.toNat (Function.update rows k es) := by
  have hbs := Volume.blockSize_bounds hv.log_le
  have hrows' : DirRows v (byteAt v s.blk (s.slot i).odi) (s.slot i).odi.size.toNat rows := by
    rw [← hf.nodeAt (v := v)]
    rwa [← hf.nodeAt (v := v)] at hrows
  -- the search, one block after the other
  have hwalk := walkBlocks_rows (show 0 < v.blockSize by omega) s.blk (s.slot i).odi
    "dirent_enter found a hole in a directory" (fun block => do
      let space ← findDirentFreeSpace v (s.blk block) (dirEntrySize name.length)
      return space.map fun r => (block, r))
    (fun k => ∀ e ∈ rows k, ¬ e.Room (dirEntrySize name.length))
    (fun k r => r.1 = readMapEntry v s.blk (s.slot i).odi (k * v.blockSize) ∧
      ∃ b₂ es, fillDirent v r.2.1 r.2.2 ino name mode = .ok b₂ ∧
        Entered ino name (rows k) es ∧ Tiled b₂ 0 v.blockSize es) fun k hk => by
      obtain ⟨hne, ht⟩ := hrows'.block hv.log_le hk
      refine ⟨hne, ?_⟩
      rcases dirEnter_tiled hbe (by omega) ht hname hino mode with
        ⟨hrun, hfull⟩ | ⟨b₁, o, b₂, es, hrun, hfill, hent, ht₂⟩
      · rw [bind_of_ok hrun]
        exact .inl ⟨rfl, hfull⟩
      · rw [bind_of_ok hrun]
        exact .inr ⟨_, rfl, rfl, b₂, es, hfill, hent, ht₂⟩
  rw [direntEnter, if_neg (by omega)]
  rcases hwalk with ⟨hrun, hfull⟩ | ⟨k, ⟨block, b₁, o⟩, hrun, hk, ⟨hblock, b₂, es, hfill, hent,
    ht₂⟩, -⟩
  · have hfind : findSpace v s.blk (s.slot i).odi (dirEntrySize name.length) = .ok none := hrun
    rw [bind_of_ok hfind]
    exact .inl ⟨rfl, fun e ⟨k, hk, he⟩ => hfull k hk e he⟩
  · have hfind : findSpace v s.blk (s.slot i).odi (dirEntrySize name.length) =
        .ok (some (block, b₁, o)) := hrun
    -- the block with room is written, and with it the times of the inode
    obtain ⟨hne, -⟩ := hrows'.block hv.log_le hk
    obtain ⟨s', hwrite, hstep, hbytes⟩ := dirStep_of_write hv hvol hs hn hf
      (Nat.lt_trans hk (UInt32.toNat_lt _)) hblock.symm (by rw [hblock]; exact hne) env b₂
      (x := { s.slot i with
        update := { (s.slot i).update with ctime := true, mtime := true }, dirty := true })
      rfl rfl rfl
    refine .inr ⟨s', k, es, ?_, hk, hent, hstep, ?_⟩
    · have henter : enterDirent v env s i block b₁ o ino name mode = .ok s' :=
        (bind_of_ok hfill _).trans hwrite
      rw [bind_of_ok hfind]
      exact bind_of_ok henter _
    · exact hrows.put (by omega) (fun j hj => block_end_le hv.log_le (UInt32.toNat_lt _) hj)
        hbytes ht₂

/-- The first entry that answers to a name is deleted, or there is none. -/
theorem direntDelete_rows (hv : Layout v) (hbe : v.beCpu = false) (hsize : 4 ≤ v.sizeofIno)
    (hvol : ∀ m, live m → OnVolume v m) (hs : MapOk v (nodeAt v s) s.blk live) (hn : live n)
    (hf : Found s n i) {rows : Nat → List Entry}
    (hrows : DirRows v (contentAt v s n) (s.slot i).odi.size.toNat rows) {name : List UInt8}
    (hname : name.length ≤ nameMax) (env : Env) :
    (direntDelete v env s i name = .ok (s, .error .enoent) ∧
      ∀ e, Holds v (s.slot i).odi.size.toNat rows e → ¬ e.Answers name) ∨
    ∃ s' k es, direntDelete v env s i name = .ok (s', .ok ()) ∧
      k * v.blockSize < (s.slot i).odi.size.toNat ∧ Deleted name (rows k) es ∧
      (∀ j, j < k → ∀ e ∈ rows j, ¬ e.Answers name) ∧ DirStep v live n i s s' ∧
      DirRows v (contentAt v s' n) (s.slot i).odi.size.toNat (Function.update rows k es) := by
  have hbs := Volume.blockSize_bounds hv.log_le
  have hrows' : DirRows v (byteAt v s.blk (s.slot i).odi) (s.slot i).odi.size.toNat rows := by
    rw [← hf.nodeAt (v := v)]
    rwa [← hf.nodeAt (v := v)] at hrows
  -- the search, one block after the other
  have hwalk := walkBlocks_rows (show 0 < v.blockSize by omega) s.blk (s.slot i).odi
    "dirent_delete found a hole in a directory" (fun block => do
      let found ← searchBlockAndDelete v (s.blk block) name
      return found.map fun b => (block, b))
    (fun k => ∀ e ∈ rows k, ¬ e.Answers name)
    (fun k r => r.1 = readMapEntry v s.blk (s.slot i).odi (k * v.blockSize) ∧
      ∃ es, Deleted name (rows k) es ∧ Tiled r.2 0 v.blockSize es) fun k hk => by
      obtain ⟨hne, ht⟩ := hrows'.block hv.log_le hk
      refine ⟨hne, ?_⟩
      rcases dirDelete_tiled hbe (by omega) hsize ht name with
        ⟨hrun, hnone⟩ | ⟨b', es, hrun, hdel, ht'⟩
      · rw [bind_of_ok hrun]
        exact .inl ⟨rfl, hnone⟩
      · rw [bind_of_ok hrun]
        exact .inr ⟨_, rfl, rfl, es, hdel, ht'⟩
  rw [direntDelete, if_neg (by omega)]
  rcases hwalk with ⟨hrun, hnone⟩ | ⟨k, ⟨block, b'⟩, hrun, hk, ⟨hblock, es, hdel, ht'⟩, hfirst⟩
  · have hfind : findAndDelete v s.blk (s.slot i).odi name = .ok none := hrun
    rw [bind_of_ok hfind]
    exact .inl ⟨rfl, fun e ⟨k, hk, he⟩ => hnone k hk e he⟩
  · have hfind : findAndDelete v s.blk (s.slot i).odi name = .ok (some (block, b')) := hrun
    -- the block with the record is written, and with it the inode without its index flag
    obtain ⟨hne, -⟩ := hrows'.block hv.log_le hk
    obtain ⟨s', hwrite, hstep, hbytes⟩ := dirStep_of_write hv hvol hs hn hf
      (Nat.lt_trans hk (UInt32.toNat_lt _)) hblock.symm (by rw [hblock]; exact hne) env b'
      (x := { s.slot i with
        odi := { (s.slot i).odi with flags := (s.slot i).odi.flags &&& ~~~0x1000 }
        update := { (s.slot i).update with ctime := true, mtime := true }, dirty := true })
      rfl rfl rfl
    refine .inr ⟨s', k, es, ?_, hk, hdel, hfirst, hstep, ?_⟩
    · have hdelete : deleteDirEntry v env s i block b' = .ok s' := hwrite
      rw [bind_of_ok hfind]
      exact bind_of_ok hdelete _
    · exact hrows.put (by omega) (fun j hj => block_end_le hv.log_le (UInt32.toNat_lt _) hj)
        hbytes ht'

end Step

end Cheviot.Ext2
