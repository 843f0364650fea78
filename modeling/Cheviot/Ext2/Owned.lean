import Cheviot.Ext2.Trace
import Cheviot.Ext2.DirMap

/-!
# Who owns a block

No request frees the blocks of a file that is gone. So whatever inode has ever been in use
keeps its blocks to itself, released or not, and the maps of all of them are in order
together (`Owned`); an inode that has never been in use has no link and no name.

The invariant is about the inodes that have ever been in use, and not about those with links: a
released inode may come back with the blocks it had. Each kind of call has its own lemma
(`Owned.got`, `Owned.put` and so on), which says as well what becomes of every regular file.

* `Apart` — a step that stays out of the data blocks and the block bitmaps.
* `Shorter` — the inode shown may be an older one, with fewer blocks, after its slot has
  been recycled.
* `Owned.step`, `Owned.dirStep` — what the calls of a request do to the owners.
* `Act.owned`, `Acts.owned` — so a request keeps them in order.
-/

namespace Cheviot.Ext2

open Cheviot.Bytes Cheviot.Forest Cheviot.Run

/-! ## Steps that stay out of the data blocks -/

/-- No data block has changed, nor anything that the block allocator goes by. -/
structure Apart (v : Volume) (s s' : Fs) : Prop where
  blk : ∀ b, DataBlock v b → s'.blk b = s.blk b
  gd : ∀ g, (s'.gd g).freeBlocksCount = (s.gd g).freeBlocksCount
  free : s'.freeBlocksCount = s.freeBlocksCount
  bitmap : ∀ g, g < v.groupsCount → s'.blk (v.blockBitmap g) = s.blk (v.blockBitmap g)

section Apart

variable {v : Volume} {env : Env} {s s' s'' : Fs} {live live' : Nat → Prop} {n i : Nat}

theorem Apart.of_blk (hblk : s'.blk = s.blk) (hgd : s'.gd = s.gd)
    (hfree : s'.freeBlocksCount = s.freeBlocksCount) : Apart v s s' :=
  ⟨fun _ _ => by rw [hblk], fun _ => by rw [hgd], hfree, fun _ _ => by rw [hblk]⟩

theorem Apart.trans (h : Apart v s s') (h' : Apart v s' s'') : Apart v s s'' :=
  ⟨fun b hb => (h'.blk b hb).trans (h.blk b hb), fun g => (h'.gd g).trans (h.gd g),
    h'.free.trans h.free, fun g hg => (h'.bitmap g hg).trans (h.bitmap g hg)⟩

theorem GotInode.apart (h : GotInode v s n i s') : Apart v s s' := by
  cases h with
  | hit _ => exact .of_blk rfl rfl rfl
  | load _ _ _ => exact .of_blk rfl rfl rfl

theorem wroteInode_apart (hv : Layout v) (env : Env) (hn : OnVolume v (s.slot i).ino) :
    Apart v s (wroteInode v env s i) := by
  refine ⟨fun b hb => ?_, fun _ => rfl, rfl, fun g hg => ?_⟩
  · refine wroteInode_blk_ne fun he => ?_
    exact hb.2.2 (he ▸ inodeTableBlock_system hv hn)
  · exact wroteInode_blk_ne (inodeTableBlock_ne_block_bitmap hv hn hg)

/-- A step that changes one inode bitmap, and of the groups no count of free blocks. -/
theorem Apart.of_inodeBitmap (hv : Layout v) {g : Nat} (hg : g < v.groupsCount) {buf : Buf}
    (hblk : s'.blk = Function.update s.blk (v.inodeBitmap g) buf)
    (hgd : ∀ h, (s'.gd h).freeBlocksCount = (s.gd h).freeBlocksCount)
    (hfree : s'.freeBlocksCount = s.freeBlocksCount) : Apart v s s' := by
  refine ⟨fun b hb => ?_, hgd, hfree, fun h hh => ?_⟩
  · rw [hblk]
    refine Function.update_of_ne (fun he => ?_) _ _
    exact hb.2.2 (.inr ⟨g, hg, .inr (.inl he)⟩)
  · rw [hblk]
    exact Function.update_of_ne (hv.bitmaps_ne h hh g hg) _ _

theorem unmarkInode_apart (hv : Layout v) {g : Nat} (hg : g < v.groupsCount) (k : Nat)
    (isDir : Bool) : Apart v s (unmarkInode v s g k isDir) := by
  refine .of_inodeBitmap hv hg rfl (fun h => ?_) rfl
  by_cases hh : h = g
  · subst hh
    simp [unmarkInode]
  · simp [unmarkInode, Function.update_of_ne hh]

/-- `alloc_inode_bit` marks a bit and counts. -/
theorem allocInodeBit_apart (hv : Layout v) (group : Nat) (isDir : Bool) :
    Ends (allocInodeBit v s group isDir) fun r =>
      Apart v s r.1 ∧ r.1.slot = s.slot ∧ r.1.hash = s.hash ∧ r.1.unused = s.unused ∧
        ∀ m, OnVolume v m → diskInode v r.1 m = diskInode v s m := by
  unfold allocInodeBit
  split
  · exact .error _
  next hgroup =>
    have hg : group < v.groupsCount := Nat.lt_of_not_le hgroup
    split
    · exact .error _
    refine .bind (P := fun _ => True) (fun _ _ => trivial) fun r _ => ?_
    match r with
    | none => exact .error _
    | some (bitmap, bit) =>
      simp only
      split
      · exact .error _
      split
      · exact .error _
      refine .ok ⟨.of_inodeBitmap hv hg rfl (fun h => ?_) rfl, rfl, rfl, rfl, fun m hm => ?_⟩
      · by_cases hh : h = group
        · subst hh
          simp [Fs.setGd, Fs.writeBlk, Fs.setBlk]
        · simp [Fs.setGd, Fs.writeBlk, Fs.setBlk, Function.update_of_ne hh]
      · refine diskInode_congr (Function.update_of_ne ?_ _ _)
        exact (inodeTableBlock_ne_inode_bitmap hv hm hg).symm

theorem flushedInode_apart (hv : Layout v) (env : Env) (hn : OnVolume v (s.slot i).ino) :
    Apart v s (flushedInode v env s i) := by
  unfold flushedInode
  split
  · exact wroteInode_apart hv env hn
  · exact .of_blk rfl rfl rfl

theorem PutInode.apart (h : PutInode v env s i s') (hv : Layout v)
    (hn : OnVolume v (s.slot i).ino) : Apart v s s' := by
  cases h with
  | keep _ _ => exact (flushedInode_apart hv env hn).trans (.of_blk rfl rfl rfl)
  | release _ _ _ _ =>
    have hino : ((freedInode v s i).slot i).ino = (s.slot i).ino := by
      rw [freedInode_slot, if_pos rfl]
    have hfreed : Apart v s (freedInode v s i) := by
      unfold freedInode
      split
      · exact .of_blk rfl rfl rfl
      · refine (unmarkInode_apart hv (inodeGroup_lt hn) _ _).trans (.of_blk rfl rfl rfl)
    have hwrote := wroteInode_apart hv env (s := freedInode v s i) (i := i) (by rwa [hino])
    exact (hfreed.trans hwrote).trans (.of_blk rfl rfl rfl)

/-- Blocks in use stay in use. -/
theorem Apart.used (h : Apart v s s') {b : Nat} (hb : BlockUsed v s b) : BlockUsed v s' b := by
  obtain ⟨g, j, hg, hj, rfl, hset⟩ := hb
  exact ⟨g, j, hg, hj, rfl, by rw [bbit, h.bitmap g hg]; exact hset⟩

/-- What the entries of the inodes still lead to, and no more, is in order. -/
theorem Apart.files (h : Apart v s s') (hs : FilesOk v s live)
    (hvol : ∀ m, live' m → OnVolume v m)
    (hentry : ∀ m, live' m → ∀ k, (nodeAt v s' m).block k = 0 ∨
      live m ∧ (nodeAt v s' m).block k = (nodeAt v s m).block k) : FilesOk v s' live' := by
  have hplace : ∀ m, live' m → ∀ k p, Place (mapShape v) (m, k) p → blockAt v s' m k p = 0 ∨
      live m ∧ blockAt v s' m k p = blockAt v s m k p := by
    intro m hm k p hp
    rcases hentry m hm k with hnull | ⟨hlive, hsame⟩
    · exact .inl (mapAt_null hnull p)
    · refine .inr ⟨hlive, mapAt_keep hsame (fun q hq _ hne => ?_) hp⟩
      exact h.blk _ (hs.map.data m hlive k q hq hne)
  refine ⟨hvol, hs.blocks.congr h.gd h.free h.bitmap, hs.map.prune hplace, fun m hm k p hp hne => ?_⟩
  obtain ⟨hlive, hsame⟩ := (hplace m hm k p hp).resolve_left hne
  rw [hsame] at hne ⊢
  exact h.used (hs.used m hlive k p hp hne)

end Apart

/-! ## The owners -/

/-- `x` is `y` or what it was before some blocks were put into it, which happens to
regular files only. An inode that is released is neither file nor directory. -/
structure Shorter (x y : OndiskInode) : Prop where
  dir : sIsDir x.mode = true → sIsDir y.mode = true
  reg : sIsReg x.mode = true → sIsReg y.mode = true
  block : ∀ k, x.block k = 0 ∨ x.block k = y.block k
  size : x.size.toNat ≤ y.size.toNat
  exact : sIsReg y.mode = false → x.block = y.block ∧ x.size = y.size

/-- The disk is behind a cache slot by blocks and size of a regular file at most. -/
structure Behind (x y : OndiskInode) : Prop extends Shorter x y where
  links : x.linksCount = y.linksCount

/-- An inode without blocks. -/
structure OndiskInode.Empty (x : OndiskInode) : Prop where
  size : x.size = 0
  block : ∀ k, x.block k = 0

/-- Inode `n`, read as a directory, is one row of records a block, and `Q` holds of the
inode number and the name of every live one. -/
def DirWith (v : Volume) (s : Fs) (Q : Nat → List UInt8 → Prop) (n : Nat) : Prop :=
  ∃ rows, DirRows v (contentAt v s n) (nodeAt v s n).size.toNat rows ∧
    ∀ e, Holds v (nodeAt v s n).size.toNat rows e → e.ino ≠ 0 → Q e.ino e.name

/-- Inode `n`, read as a directory, is one row of records a block, and they name inodes of
`live`. -/
def DirOf (v : Volume) (s : Fs) (live : Nat → Prop) (n : Nat) : Prop :=
  ∃ rows, DirRows v (contentAt v s n) (nodeAt v s n).size.toNat rows ∧
    ∀ e, Holds v (nodeAt v s n).size.toNat rows e → e.ino ≠ 0 → live e.ino

/-- The files of the inodes of `live` are in order, all others have no links, and what is
a directory, or is used as one by the message, names inodes of `live` only. -/
structure Owned (v : Volume) (R : OndiskInode → OndiskInode → Prop) (s : Fs) (held : List Nat)
    (live arg : Nat → Prop) : Prop where
  cache : CacheOk v R s held
  files : FilesOk v s live
  rest : ∀ n, OnVolume v n → ¬ live n → (nodeAt v s n).linksCount = 0
  dirs : ∀ n, live n → sIsDir (nodeAt v s n).mode = true ∨ arg n → DirOf v s live n
  args : ∀ n, arg n →
    live n ∧ (sIsReg (nodeAt v s n).mode = true → (nodeAt v s n).size = 0)

section Owned

variable {v : Volume} {env : Env} {R : OndiskInode → OndiskInode → Prop} {s s' : Fs}
  {held held' : List Nat} {live live' arg : Nat → Prop} {Q Q' : Nat → List UInt8 → Prop}
  {n i : Nat}

/-- An inode with the blocks and the size it had, of the kind it was or of none. -/
theorem Shorter.of_same {x y : OndiskInode} (hblock : x.block = y.block) (hsize : x.size = y.size)
    (hmode : x.mode &&& 0xF000 = y.mode &&& 0xF000 ∨ x.mode = 0) : Shorter x y := by
  refine ⟨fun hd => ?_, fun hr => ?_, fun k => .inr (congrFun hblock k), ?_,
    fun _ => ⟨hblock, hsize⟩⟩
  · rcases hmode with hkind | hnone
    · rwa [sIsDir, ← hkind]
    · rw [hnone] at hd
      cases hd
  · rcases hmode with hkind | hnone
    · rwa [sIsReg, ← hkind]
    · rw [hnone] at hr
      cases hr
  · rw [hsize]

theorem Shorter.refl (x : OndiskInode) : Shorter x x := .of_same rfl rfl (.inl rfl)

theorem Shorter.of_untimed {x y : OndiskInode} (h : x.untimed = y.untimed) : Shorter x y := by
  have hmode := congrArg OndiskInode.mode h
  have hblock := congrArg OndiskInode.block h
  have hsize := congrArg OndiskInode.size h
  dsimp only [OndiskInode.untimed] at hmode hblock hsize
  exact .of_same hblock hsize (.inl (by rw [hmode]))

/-- The times are not what a slot is behind in. -/
theorem Behind.of_untimed {x y : OndiskInode} (h : x.untimed = y.untimed) : Behind x y := by
  have hlinks := congrArg OndiskInode.linksCount h
  exact ⟨.of_untimed h, hlinks⟩

/-- A directory is no regular file. -/
theorem not_reg_of_dir {mode : UInt16} (h : sIsDir mode = true) : sIsReg mode = false := by
  rw [sIsDir, beq_iff_eq] at h
  rw [sIsReg, h]
  rfl

theorem DirOf.dirWith (h : DirOf v s live n) : DirWith v s (fun m _ => live m) n := h

theorem DirWith.dirOf (h : DirWith v s (fun m _ => live m) n) : DirOf v s live n := h

/-- A directory without blocks has no records. -/
theorem DirWith.of_empty (h : (nodeAt v s n).size = 0) : DirWith v s Q n := by
  have hnone : ∀ k, ¬ k * v.blockSize < (nodeAt v s n).size.toNat := by
    intro k hk
    rw [h] at hk
    exact absurd hk (Nat.not_lt_zero _)
  exact ⟨fun _ => [], fun k hk => absurd hk (hnone k), fun e ⟨k, hk, _⟩ => absurd hk (hnone k)⟩

/-- A directory whose size and bytes are as before. -/
theorem DirWith.congr (h : DirWith v s Q n) (hlog : v.logBlockSize ≤ 5)
    (hsize : (nodeAt v s' n).size = (nodeAt v s n).size)
    (hbytes : ∀ q, q < 2 ^ 32 → contentAt v s' n q = contentAt v s n q)
    (hQ : ∀ m name, Q m name → Q' m name) : DirWith v s' Q' n := by
  obtain ⟨rows, hrows, hnames⟩ := h
  refine ⟨rows, ?_, ?_⟩
  · rw [hsize]
    intro k hk
    refine (hrows k hk).congr fun j _ hj => ?_
    have hend := block_end_le hlog (UInt32.toNat_lt _) hk
    rw [Nat.add_mul, Nat.one_mul] at hend
    exact hbytes _ (by omega)
  · rw [hsize]
    exact fun e he hne => hQ _ _ (hnames e he hne)

/-- A directory whose entries and data blocks are as before. -/
theorem DirWith.keep (h : DirWith v s Q n) (hlog : v.logBlockSize ≤ 5) (ha : Apart v s s')
    (hs : FilesOk v s live) (hn : live n) (hblock : (nodeAt v s' n).block = (nodeAt v s n).block)
    (hsize : (nodeAt v s' n).size = (nodeAt v s n).size) (hQ : ∀ m name, Q m name → Q' m name) :
    DirWith v s' Q' n :=
  h.congr hlog hsize (fun _ hq => (hs.map.keep_bytes hlog hn hblock ha.blk hq).2) hQ

/-- A step in the data of one directory, seen from another. -/
theorem DirStep.dir (hstep : DirStep v live n i s s') (hlog : v.logBlockSize ≤ 5)
    (hs : FilesOk v s live) (hf : Found s n i) {m : Nat} (hm : live m) (hne : m ≠ n)
    (h : DirWith v s Q m) : DirWith v s' Q m := by
  have hnode := hstep.nodeAt_ne hf (hs.on_volume m hm) hne
  exact h.congr hlog (by rw [hnode]) (hstep.bytes m hm hne) fun _ _ hq => hq

/-- `dirent_enter` changes nothing but the directory, and adds nothing but the name. -/
theorem direntEnter_step (hv : Layout v) (hbe : v.beCpu = false) (hs : FilesOk v s live)
    (hn : live n) (hf : Found s n i) (h : DirWith v s Q n) {ino : Nat} (hino : ino < 2 ^ 32)
    {name : List UInt8} (hQ : Q ino name) {mode : UInt16} {r : Except Errno Unit}
    (hrun : direntEnter v env s i name ino mode = .ok (s', r)) :
    s' = s ∨ DirStep v live n i s s' ∧ DirWith v s' Q n := by
  obtain ⟨rows, hrows, hnames⟩ := h
  rw [hf.nodeAt] at hrows hnames
  by_cases hname : name.length ≤ nameMax
  · rcases direntEnter_rows hv hbe hs.on_volume hs.map hn hf hrows hname hino env mode with
      ⟨hfull, -⟩ | ⟨s₁, k, es, hdone, hk, hent, hstep, hrows'⟩
    · rw [hfull] at hrun
      cases hrun
      exact .inl rfl
    · rw [hdone] at hrun
      cases hrun
      refine .inr ⟨hstep, Function.update rows k es, ?_, ?_⟩
      · rw [(hstep.found hf).nodeAt, hstep.size]
        exact hrows'
      · rw [(hstep.found hf).nodeAt, hstep.size]
        rintro e ⟨j, hj, he⟩ hne
        obtain ⟨f, -, hfino, hfname, honly, -⟩ := entered_rows hent
        rcases honly j e he with ⟨-, rfl⟩ | ⟨y, hy, -, hyino, hyname⟩
        · rw [hfino, hfname]
          exact hQ
        · rw [hyino] at hne
          rw [hyino, hyname]
          exact hnames y ⟨j, hj, hy⟩ hne
  · rw [direntEnter, if_pos (by omega)] at hrun
    cases hrun
    exact .inl rfl

/-- `dirent_delete` changes nothing but the directory, and adds nothing. -/
theorem direntDelete_step (hv : Layout v) (hbe : v.beCpu = false) (hsize : 4 ≤ v.sizeofIno)
    (hs : FilesOk v s live) (hn : live n) (hf : Found s n i) (h : DirWith v s Q n)
    {name : List UInt8} {r : Except Errno Unit}
    (hrun : direntDelete v env s i name = .ok (s', r)) :
    s' = s ∨ DirStep v live n i s s' ∧ DirWith v s' Q n := by
  obtain ⟨rows, hrows, hnames⟩ := h
  rw [hf.nodeAt] at hrows hnames
  by_cases hname : name.length ≤ nameMax
  · rcases direntDelete_rows hv hbe hsize hs.on_volume hs.map hn hf hrows hname env with
      ⟨hnone, -⟩ | ⟨s₁, k, es, hdone, hk, hdel, -, hstep, hrows'⟩
    · rw [hnone] at hrun
      cases hrun
      exact .inl rfl
    · rw [hdone] at hrun
      cases hrun
      refine .inr ⟨hstep, Function.update rows k es, ?_, ?_⟩
      · rw [(hstep.found hf).nodeAt, hstep.size]
        exact hrows'
      · rw [(hstep.found hf).nodeAt, hstep.size]
        rintro e ⟨j, hj, he⟩ hne
        obtain ⟨f, -, -, honly, -⟩ := deleted_rows hdel (hrows k hk).row
        rcases honly j e he with ⟨y, hy, -, -, hyino, hyname⟩ | ⟨h0, -⟩
        · rw [hyino] at hne
          rw [hyino, hyname]
          exact hnames y ⟨j, hj, hy⟩ hne
        · exact absurd h0 hne
  · rw [direntDelete, if_pos (by omega)] at hrun
    cases hrun
    exact .inl rfl

/-- What is read as a directory after such a step has the entries it had, or no data. -/
theorem Owned.dir_kept (h : Owned v R s held live arg)
    (hnode : live n ∧ Shorter (nodeAt v s' n) (nodeAt v s n) ∨ (nodeAt v s' n).Empty)
    (hdir : sIsDir (nodeAt v s' n).mode = true ∨ arg n) :
    (nodeAt v s' n).size = 0 ∨ live n ∧ (sIsDir (nodeAt v s n).mode = true ∨ arg n) ∧
      (nodeAt v s' n).block = (nodeAt v s n).block ∧
      (nodeAt v s' n).size = (nodeAt v s n).size := by
  rcases hnode with ⟨hold, hshort⟩ | hempty
  · by_cases hreg : sIsReg (nodeAt v s n).mode = true
    · -- a regular file can be an argument only while it is empty
      have harg : arg n := by
        refine hdir.resolve_left fun hd => ?_
        rw [not_reg_of_dir (hshort.dir hd)] at hreg
        cases hreg
      have hsize := hshort.size
      rw [(h.args n harg).2 hreg] at hsize
      exact .inl (UInt32.toNat_inj.mp (Nat.le_zero.mp hsize))
    · exact .inr ⟨hold, hdir.imp_left hshort.dir, hshort.exact (by simpa using hreg)⟩
  · exact .inl hempty.size

/-- A step out of the data blocks that shows inodes as they are or have been, or empty. -/
theorem Owned.step (h : Owned v R s held live arg) (hlog : v.logBlockSize ≤ 5)
    (hc : CacheOk v R s' held') (ha : Apart v s s') (hlive : ∀ m, live m → live' m)
    (hvol : ∀ m, live' m → OnVolume v m)
    (hnode : ∀ m, live' m → live m ∧ Shorter (nodeAt v s' m) (nodeAt v s m) ∨
      (nodeAt v s' m).Empty)
    (hrest : ∀ m, OnVolume v m → ¬ live' m → (nodeAt v s' m).linksCount = 0) :
    Owned v R s' held' live' arg := by
  refine ⟨hc, ha.files h.files hvol fun m hm k => ?_, hrest, fun m hm hdir => ?_,
    fun m harg => ⟨hlive m (h.args m harg).1, fun hreg => ?_⟩⟩
  · rcases hnode m hm with ⟨hold, hshort⟩ | hempty
    · exact (hshort.block k).imp_right fun heq => ⟨hold, heq⟩
    · exact .inl (hempty.block k)
  · rcases h.dir_kept (hnode m hm) hdir with hsize | ⟨hold, hwas, hblock, hsize⟩
    · exact (DirWith.of_empty hsize).dirOf
    · exact ((h.dirs m hold hwas).dirWith.keep hlog ha h.files hold hblock hsize
        fun k _ hk => hlive k hk).dirOf
  · rcases hnode m (hlive m (h.args m harg).1) with ⟨-, hshort⟩ | hempty
    · have hsize := hshort.size
      rw [(h.args m harg).2 (hshort.reg hreg)] at hsize
      exact UInt32.toNat_inj.mp (Nat.le_zero.mp hsize)
    · exact hempty.size

/-! ## The calls -/

/-- What is asked of a relation between the disk and a cache slot. -/
structure LagOk (R : OndiskInode → OndiskInode → Prop) : Prop where
  refl : ∀ x, R x x
  behind : ∀ x y, R x y → Behind x y

theorem Owned.found (h : Owned v R s held live arg) (hi : i ∈ held) :
    OnVolume v (s.slot i).ino ∧ Found s (s.slot i).ino i := by
  obtain ⟨hlt, hne⟩ := h.cache.held_mem i hi
  exact ⟨h.cache.on_volume i hlt hne, (h.cache.search_iff hne).mpr ⟨hlt, rfl⟩⟩

/-- `get_inode`, which may recycle a slot. -/
theorem Owned.got_node (h : Owned v R s held live arg) (hv : Layout v) (hR : LagOk R)
    (hn : n ≠ noEntry) (hgot : GotInode v s n i s') (m : Nat) (hm : OnVolume v m) :
    Behind (nodeAt v s' m) (nodeAt v s m) :=
  hR.behind _ _ (hgot.nodeAt hv hR.refl h.cache hn hm.ne_noEntry)

theorem Owned.got (h : Owned v R s held live arg) (hv : Layout v) (hR : LagOk R)
    (hn : n ≠ noEntry) (hgot : GotInode v s n i s') : Owned v R s' (i :: held) live arg := by
  have hnode := h.got_node hv hR hn hgot
  refine h.step hv.log_le (hgot.ok hv hR.refl h.cache hn) hgot.apart (fun _ hm => hm)
    h.files.on_volume (fun m hm => .inl ⟨hm, ?_⟩) fun m hm hnot => ?_
  · exact (hnode m (h.files.on_volume m hm)).toShorter
  · rw [(hnode m hm).links]
    exact h.rest m hm hnot

/-- `put_inode`, which may write the inode, and release it. -/
theorem Owned.put_node (h : Owned v R s held live arg) (hv : Layout v) (hR : LagOk R)
    (hi : i ∈ held) (hput : PutInode v env s i s') (m : Nat) (hm : OnVolume v m) :
    Behind (nodeAt v s' m) (nodeAt v s m) := by
  have hodi := hput.nodeAt_untimed hv hR.refl h.cache hi hm
  split at hodi
  next hgone =>
    have hblock := congrArg OndiskInode.block hodi
    have hsize := congrArg OndiskInode.size hodi
    have hmode := congrArg OndiskInode.mode hodi
    have hlinks := congrArg OndiskInode.linksCount hodi
    dsimp only [OndiskInode.untimed] at hblock hsize hmode hlinks
    rw [hgone.1, (h.found hi).2.nodeAt, ← hgone.1]
    exact ⟨.of_same hblock hsize (.inr hmode), hlinks⟩
  next => exact .of_untimed hodi

theorem Owned.put (h : Owned v R s held live arg) (hv : Layout v) (hR : LagOk R) (hi : i ∈ held)
    (hput : PutInode v env s i s') : Owned v R s' (held.erase i) live arg := by
  have hvol := (h.found hi).1
  have hnode := h.put_node hv hR hi hput
  refine h.step hv.log_le (hput.ok hv hR.refl h.cache hi) (hput.apart hv hvol) (fun _ hm => hm)
    h.files.on_volume (fun m hm => .inl ⟨hm, ?_⟩) fun m hm hnot => ?_
  · exact (hnode m (h.files.on_volume m hm)).toShorter
  · rw [(hnode m hm).links]
    exact h.rest m hm hnot

/-- `alloc_inode_bit`, of which the inodes see nothing. -/
theorem nodeAt_allocInodeBit (hv : Layout v) {group : Nat} {isDir : Bool}
    (halloc : allocInodeBit v s group isDir = .ok (s', n)) (m : Nat) (hm : OnVolume v m) :
    nodeAt v s' m = nodeAt v s m := by
  obtain ⟨-, hslot, hhash, -, hdisk⟩ := allocInodeBit_apart hv group isDir _ halloc
  dsimp only at hslot hhash hdisk
  unfold nodeAt searchBucket
  rw [hslot, hhash, hdisk m hm]

theorem Owned.mark (h : Owned v R s held live arg) (hv : Layout v) {group : Nat} {isDir : Bool}
    (halloc : allocInodeBit v s group isDir = .ok (s', n)) : Owned v R s' held live arg := by
  obtain ⟨ha, hslot, hhash, hunused, hdisk⟩ := allocInodeBit_apart hv group isDir _ halloc
  dsimp only at ha hslot hhash hunused hdisk
  have hnode := nodeAt_allocInodeBit hv halloc
  have hc : CacheOk v R s' held := h.cache.of_slots hhash hunused (fun j => by rw [hslot])
    (fun j => by rw [hslot]) hdisk fun j _ _ => .inl ⟨by rw [hslot], by rw [hslot]; exact id⟩
  refine h.step hv.log_le hc ha (fun _ hm => hm) h.files.on_volume (fun m hm => .inl ⟨hm, ?_⟩)
    fun m hm hnot => ?_
  · rw [hnode m (h.files.on_volume m hm)]
    exact .refl _
  · rw [hnode m hm]
    exact h.rest m hm hnot

/-- What a change of an inode that is held shows. -/
theorem Owned.change_node (h : Owned v R s held live arg) (hi : i ∈ held) {x : Inode}
    (hino : x.ino = (s.slot i).ino) (hnew : ∀ m, live' m → live m ∨ m = (s.slot i).ino)
    (hodi : live' (s.slot i).ino →
      live (s.slot i).ino ∧ Shorter x.odi (s.slot i).odi ∨ x.odi.Empty)
    (m : Nat) (hm : live' m) :
    live m ∧ Shorter (nodeAt v (s.setSlot i x) m) (nodeAt v s m) ∨
      (nodeAt v (s.setSlot i x) m).Empty := by
  have hf := (h.found hi).2
  rw [(found_setSlot v hf hino).2 m]
  by_cases hmn : m = (s.slot i).ino
  · rw [if_pos hmn, hmn, hf.nodeAt]
    exact hodi (hmn ▸ hm)
  · rw [if_neg hmn]
    exact .inl ⟨(hnew m hm).resolve_right hmn, .refl _⟩

/-- A change of an inode that is held and marked; it may come into use by it. -/
theorem Owned.change (h : Owned v R s held live arg) (hv : Layout v) (hi : i ∈ held) {x : Inode}
    (hino : x.ino = (s.slot i).ino) (hcount : x.count = (s.slot i).count) (hdirty : x.dirty = true)
    (hlive : ∀ m, live m → live' m) (hnew : ∀ m, live' m → live m ∨ m = (s.slot i).ino)
    (hodi : live' (s.slot i).ino →
      live (s.slot i).ino ∧ Shorter x.odi (s.slot i).odi ∨ x.odi.Empty)
    (hlinks : ¬ live' (s.slot i).ino → x.odi.linksCount = 0) :
    Owned v R (s.setSlot i x) held live' arg := by
  obtain ⟨hvol, hf⟩ := h.found hi
  have hnode := (found_setSlot v hf hino).2
  have hother : ∀ j, j ≠ i → (s.setSlot i x).slot j = s.slot j :=
    fun j hj => Function.update_of_ne hj _ _
  have hself : (s.setSlot i x).slot i = x := Function.update_self ..
  have hpos := h.cache.count_pos hi
  have hc : CacheOk v R (s.setSlot i x) held := by
    refine h.cache.of_slots rfl rfl (fun j => ?_) (fun j => ?_) (fun _ _ => rfl) fun j _ _ => ?_
    · by_cases hj : j = i
      · rw [hj, hself, hino]
      · rw [hother j hj]
    · by_cases hj : j = i
      · rw [hj, hself, hcount]
      · rw [hother j hj]
    · by_cases hj : j = i
      · rw [hj, hself]
        exact .inr (.inr ⟨hdirty, hpos⟩)
      · rw [hother j hj]
        exact .inl ⟨rfl, id⟩
  refine h.step hv.log_le hc (.of_blk rfl rfl rfl) hlive (fun m hm => ?_)
    (h.change_node hi hino hnew hodi) fun m hm hnot => ?_
  · rcases hnew m hm with hold | rfl
    · exact h.files.on_volume m hold
    · exact hvol
  · rw [hnode m]
    by_cases hmn : m = (s.slot i).ino
    · rw [if_pos hmn]
      exact hlinks (hmn ▸ hnot)
    · rw [if_neg hmn]
      exact h.rest m hm fun hold => hnot (hlive m hold)

/-- `write_inode`, of which the times of the inode are all that shows. -/
theorem Owned.store_node (h : Owned v R s held live arg) (hv : Layout v) (hi : i ∈ held)
    (env : Env) (m : Nat) (hm : OnVolume v m) :
    Behind (nodeAt v (wroteInode v env s i) m) (nodeAt v s m) := by
  obtain ⟨hlt, hne⟩ := h.cache.held_mem i hi
  exact .of_untimed (nodeAt_wroteInode hv h.cache hlt hne env hm)

theorem Owned.store (h : Owned v R s held live arg) (hv : Layout v) (hR : LagOk R) (hi : i ∈ held)
    (env : Env) : Owned v R (wroteInode v env s i) held live arg := by
  have hvol := (h.found hi).1
  obtain ⟨hlt, hne⟩ := h.cache.held_mem i hi
  have hnode := h.store_node hv hi env
  refine h.step hv.log_le (wroteInode_ok hv hR.refl h.cache hlt hne env)
    (wroteInode_apart hv env hvol) (fun _ hm => hm) h.files.on_volume
    (fun m hm => .inl ⟨hm, (hnode m (h.files.on_volume m hm)).toShorter⟩) fun m hm hnot => ?_
  rw [(hnode m hm).links]
  exact h.rest m hm hnot

/-- A name entered in a directory or deleted from it. -/
theorem Owned.dirStep (h : Owned v R s held live arg) (hv : Layout v) (hR : LagOk R)
    (hf : Found s n i) (hvol : OnVolume v n) (hstep : DirStep v live n i s s')
    (hdir : live n → DirOf v s' live n) : Owned v R s' held live arg := by
  have hblocks : BlockConsistent v s' :=
    h.files.blocks.congr (fun g => by rw [hstep.gd]) hstep.free fun g hg => (hstep.bitmap g hg).1
  have hkept : BlocksKept v s s' := ⟨hstep.gd, hstep.free, fun g hg => (hstep.bitmap g hg).1⟩
  have hlasting : ∀ m, OnVolume v m → (nodeAt v s' m).lasting = (nodeAt v s m).lasting :=
    fun m hm => hstep.nodeAt_lasting hf hm
  have hino : ∀ j, (s'.slot j).ino = (s.slot j).ino := by
    intro j
    by_cases hj : j = i
    · rw [hj, hstep.ino]
    · rw [hstep.slot j hj]
  have hcount : ∀ j, (s'.slot j).count = (s.slot j).count := by
    intro j
    by_cases hj : j = i
    · rw [hj, hstep.count]
    · rw [hstep.slot j hj]
  -- no list and no map has changed, only the bytes of one directory and its inode
  refine ⟨⟨h.cache.toListsOk.congr hstep.hash hstep.unused hino hcount, fun j hj => ?_,
      fun j hj hne => ?_⟩, ⟨h.files.on_volume, hblocks, hstep.mapOk h.files.map, ?_⟩,
    fun m hm hnot => ?_, fun m hm hd => ?_, fun m harg => ⟨(h.args m harg).1, fun hreg => ?_⟩⟩
  · rw [hino j]
    exact h.cache.on_volume j hj
  · rw [hino j] at hne ⊢
    rw [hstep.disk _ (h.cache.on_volume j hj hne), hcount j]
    by_cases hjn : (s.slot j).ino = n
    · -- the inode of the directory has been written
      have hji : j = i := by
        have hcached := (h.cache.search_iff hvol.ne_noEntry).mp hf
        exact h.cache.ino_inj j i hj hcached.1 (hjn.trans hcached.2.symm) hne
      rw [if_pos hjn, hji]
      exact .inl (hR.refl _)
    · rw [if_neg hjn, hstep.slot j fun he => hjn (he ▸ hf.ino)]
      exact h.cache.synced j hj hne
  · intro m hm k p hp hne
    rw [hstep.place m hm k p hp] at hne ⊢
    exact hkept.used (h.files.used m hm k p hp hne)
  · have hlinks := congrArg OndiskInode.linksCount (hlasting m hm)
    exact hlinks.trans (h.rest m hm hnot)
  · by_cases hmn : m = n
    · rw [hmn]
      exact hdir (hmn ▸ hm)
    · rw [hstep.nodeAt_ne hf (h.files.on_volume m hm) hmn] at hd
      exact (hstep.dir hv.log_le h.files hf hm hmn (h.dirs m hm hd).dirWith).dirOf
  · have hmode := congrArg OndiskInode.mode (hlasting m (h.files.on_volume m (h.args m harg).1))
    have hsize := congrArg OndiskInode.size (hlasting m (h.files.on_volume m (h.args m harg).1))
    dsimp only [OndiskInode.lasting, OndiskInode.untimed] at hmode hsize
    rw [hmode] at hreg
    rw [hsize]
    exact (h.args m harg).2 hreg

/-- `dirent_enter` of an inode in use. -/
theorem Owned.enter (h : Owned v R s held live arg) (hv : Layout v) (hR : LagOk R)
    (hbe : v.beCpu = false) (hi : i ∈ held) (harg : arg (s.slot i).ino) (hn : live n)
    {name : List UInt8} {mode : UInt16} {r : Except Errno Unit}
    (hrun : direntEnter v env s i name n mode = .ok (s', r)) : Owned v R s' held live arg := by
  obtain ⟨hvol, hf⟩ := h.found hi
  have hlive := (h.args _ harg).1
  have hlt : n < 2 ^ 32 := by
    have := (h.files.on_volume n hn).lt hv
    omega
  have hdir := (h.dirs _ hlive (.inr harg)).dirWith
  rcases direntEnter_step hv hbe h.files hlive hf hdir hlt hn hrun with rfl | ⟨hstep, hdir'⟩
  · exact h
  · exact h.dirStep hv hR hf hvol hstep fun _ => hdir'.dirOf

/-- `dirent_delete`. -/
theorem Owned.delete (h : Owned v R s held live arg) (hv : Layout v) (hR : LagOk R)
    (hbe : v.beCpu = false) (hsize : 4 ≤ v.sizeofIno) (hi : i ∈ held)
    (harg : arg (s.slot i).ino) {name : List UInt8} {r : Except Errno Unit}
    (hrun : direntDelete v env s i name = .ok (s', r)) : Owned v R s' held live arg := by
  obtain ⟨hvol, hf⟩ := h.found hi
  have hlive := (h.args _ harg).1
  have hdir := (h.dirs _ hlive (.inr harg)).dirWith
  rcases direntDelete_step hv hbe hsize h.files hlive hf hdir hrun with rfl | ⟨hstep, hdir'⟩
  · exact h
  · exact h.dirStep hv hR hf hvol hstep fun _ => hdir'.dirOf

/-- What `lookup_dir` finds in a directory is in use. -/
theorem Owned.entry (h : Owned v R s held live arg) (hlog : v.logBlockSize ≤ 5)
    (hbe : v.beCpu = false) (hi : i ∈ held) (harg : arg (s.slot i).ino) {name : List UInt8}
    (hfound : lookupDir v s.blk (s.slot i).odi name = .ok (.ok n)) : live n := by
  obtain ⟨-, hf⟩ := h.found hi
  obtain ⟨rows, hrows, hnames⟩ := h.dirs _ (h.args _ harg).1 (.inr harg)
  have hbytes : contentAt v s (s.slot i).ino = byteAt v s.blk (s.slot i).odi := by
    funext q
    rw [contentAt, hf.nodeAt]
  rw [hbytes, hf.nodeAt] at hrows
  rw [hf.nodeAt] at hnames
  by_cases hname : name.length ≤ nameMax
  · rcases lookupDir_rows hlog hbe hrows hname with ⟨hnone, -⟩ | ⟨e, hdone, he, ha⟩
    · rw [hnone] at hfound
      cases hfound
    · rw [hdone] at hfound
      cases hfound
      exact hnames e he ha.1
  · rw [lookupDir, if_pos (by omega)] at hfound
    cases hfound

theorem Owned.perm (h : Owned v R s held live arg) (hp : held.Perm held') :
    Owned v R s held' live arg :=
  ⟨⟨h.cache.toListsOk.perm hp, h.cache.on_volume, h.cache.synced⟩, h.files, h.rest, h.dirs, h.args⟩

/-- `Q` holds of every live record of what is a directory, or is used as one by the message. -/
def DirsWith (v : Volume) (s : Fs) (Q : Nat → List UInt8 → Prop) (live arg : Nat → Prop) : Prop :=
  ∀ n, live n → sIsDir (nodeAt v s n).mode = true ∨ arg n → DirWith v s Q n

theorem DirsWith.step (hdirs : DirsWith v s Q live arg) (h : Owned v R s held live arg)
    (hlog : v.logBlockSize ≤ 5) (ha : Apart v s s')
    (hnode : ∀ m, live' m → live m ∧ Shorter (nodeAt v s' m) (nodeAt v s m) ∨
      (nodeAt v s' m).Empty) : DirsWith v s' Q live' arg := by
  intro m hm hdir
  rcases h.dir_kept (hnode m hm) hdir with hsize | ⟨hold, hwas, hblock, hsize⟩
  · exact .of_empty hsize
  · exact (hdirs m hold hwas).keep hlog ha h.files hold hblock hsize fun _ _ hq => hq

theorem DirsWith.dirStep (hdirs : DirsWith v s Q live arg) (h : Owned v R s held live arg)
    (hlog : v.logBlockSize ≤ 5) (hf : Found s n i) (hstep : DirStep v live n i s s')
    (hdir : DirWith v s' Q n) : DirsWith v s' Q live arg := by
  intro m hm hd
  by_cases hmn : m = n
  · rw [hmn]
    exact hdir
  · rw [hstep.nodeAt_ne hf (h.files.on_volume m hm) hmn] at hd
    exact hstep.dir hlog h.files hf hm hmn (hdirs m hm hd)

/-- `dirent_enter`, of a name of which `Q` holds. -/
theorem DirsWith.enter (hdirs : DirsWith v s Q live arg) (h : Owned v R s held live arg)
    (hv : Layout v) (hbe : v.beCpu = false) (hi : i ∈ held) (harg : arg (s.slot i).ino)
    (hn : live n) {name : List UInt8} (hQ : Q n name) {mode : UInt16} {r : Except Errno Unit}
    (hrun : direntEnter v env s i name n mode = .ok (s', r)) : DirsWith v s' Q live arg := by
  have hf := (h.found hi).2
  have hlive := (h.args _ harg).1
  have hlt : n < 2 ^ 32 := by
    have := (h.files.on_volume n hn).lt hv
    omega
  rcases direntEnter_step hv hbe h.files hlive hf (hdirs _ hlive (.inr harg)) hlt hQ hrun with
    rfl | ⟨hstep, hdir⟩
  · exact hdirs
  · exact hdirs.dirStep h hv.log_le hf hstep hdir

theorem DirsWith.delete (hdirs : DirsWith v s Q live arg) (h : Owned v R s held live arg)
    (hv : Layout v) (hbe : v.beCpu = false) (hsize : 4 ≤ v.sizeofIno) (hi : i ∈ held)
    (harg : arg (s.slot i).ino) {name : List UInt8} {r : Except Errno Unit}
    (hrun : direntDelete v env s i name = .ok (s', r)) : DirsWith v s' Q live arg := by
  have hf := (h.found hi).2
  have hlive := (h.args _ harg).1
  rcases direntDelete_step hv hbe hsize h.files hlive hf (hdirs _ hlive (.inr harg)) hrun with
    rfl | ⟨hstep, hdir⟩
  · exact hdirs
  · exact hdirs.dirStep h hv.log_le hf hstep hdir

/-- Every slot held holds an inode in use. -/
def HoldsLive (s : Fs) (held : List Nat) (live : Nat → Prop) : Prop :=
  ∀ i ∈ held, live (s.slot i).ino

theorem HoldsLive.keep (h : HoldsLive s held live) (hino : ∀ j, (s'.slot j).ino = (s.slot j).ino) :
    HoldsLive s' held live := by
  intro j hj
  rw [hino j]
  exact h j hj

/-- A slot found or recycled for an inode in use. -/
theorem HoldsLive.got (h : HoldsLive s held live) (hc : ListsOk s held) (hn : live n)
    (hgot : GotInode v s n i s') : HoldsLive s' (i :: held) live := by
  refine List.forall_mem_cons.mpr ⟨?_, fun j hj => ?_⟩
  · rw [(hgot.cached hc).2]
    exact hn
  · rw [hgot.ino_held hc hj]
    exact h j hj

/-! ## What becomes of a file -/

/-- An inode that has just come into use: it has no blocks, and its slot is held. -/
structure NewFile (v : Volume) (s : Fs) (m : Nat) : Prop where
  empty : (nodeAt v s m).Empty
  lag : LagAt v Synced s m

/-- The data of inode `m` is as before. -/
structure SameData (v : Volume) (s s' : Fs) (m : Nat) : Prop where
  size : (nodeAt v s' m).size = (nodeAt v s m).size
  block : (nodeAt v s' m).block = (nodeAt v s m).block
  bytes : ∀ q, q < 2 ^ 32 → contentAt v s' m q = contentAt v s m q

/-- Inode `m` was a regular file, and has its data still if the disk was not behind. -/
structure FileKept (v : Volume) (s s' : Fs) (m : Nat) : Prop where
  reg : sIsReg (nodeAt v s m).mode = true
  data : LagAt v Synced s m → LagAt v Synced s' m ∧ SameData v s s' m

/-- What is a regular file was one with the same data, or is an inode that the message has
made. -/
abbrev KeepsFiles (v : Volume) (arg : Args) (s : Fs) (live : Nat → Prop) (s' : Fs)
    (live' : Nat → Prop) : Prop :=
  ∀ m, live' m → sIsReg (nodeAt v s' m).mode = true →
    ((∃ name, arg.name (some m) name) ∧ NewFile v s' m) ∨ (live m ∧ FileKept v s s' m)

theorem SameData.trans {m : Nat} (h : SameData v s s' m) (h' : SameData v s' s'' m) :
    SameData v s s'' m :=
  ⟨h'.size.trans h.size, h'.block.trans h.block, fun q hq => (h'.bytes q hq).trans (h.bytes q hq)⟩

theorem NewFile.kept {m : Nat} (h : NewFile v s m) (h' : FileKept v s s' m) : NewFile v s' m := by
  obtain ⟨hlag, hsame⟩ := h'.data h.lag
  refine ⟨⟨hsame.size.trans h.empty.size, fun k => ?_⟩, hlag⟩
  rw [hsame.block]
  exact h.empty.block k

theorem FileKept.trans {m : Nat} (h : FileKept v s s' m) (h' : FileKept v s' s'' m) :
    FileKept v s s'' m := by
  refine ⟨h.reg, fun hlag => ?_⟩
  obtain ⟨hlag', hsame⟩ := h.data hlag
  obtain ⟨hlag'', hsame'⟩ := h'.data hlag'
  exact ⟨hlag'', hsame.trans hsame'⟩

theorem KeepsFiles.trans {a : Args} {live'' : Nat → Prop} (h : KeepsFiles v a s live s' live')
    (h' : KeepsFiles v a s' live' s'' live'') : KeepsFiles v a s live s'' live'' := by
  intro m hm hreg
  rcases h' m hm hreg with hnew | ⟨hm', hkept'⟩
  · exact .inl hnew
  · rcases h m hm' hkept'.reg with ⟨hmade, hnew⟩ | ⟨hold, hkept⟩
    · exact .inl ⟨hmade, hnew.kept hkept'⟩
    · exact .inr ⟨hold, hkept.trans hkept'⟩

/-- A step out of the data blocks that leaves the entries and the size of a file alone. -/
theorem FileKept.of_node {m : Nat} (hs : FilesOk v s live) (hlog : v.logBlockSize ≤ 5)
    (ha : Apart v s s') (hm : live m) (hreg : sIsReg (nodeAt v s m).mode = true)
    (hnode : LagAt v Synced s m → LagAt v Synced s' m ∧
      (nodeAt v s' m).size = (nodeAt v s m).size ∧
      (nodeAt v s' m).block = (nodeAt v s m).block) : FileKept v s s' m := by
  refine ⟨hreg, fun hlag => ?_⟩
  obtain ⟨hlag', hsize, hblock⟩ := hnode hlag
  exact ⟨hlag', hsize, hblock, fun q hq => (hs.map.keep_bytes hlog hm hblock ha.blk hq).2⟩

/-- One that leaves all but the times alone. -/
theorem FileKept.of_synced {m : Nat} (hs : FilesOk v s live) (hlog : v.logBlockSize ≤ 5)
    (ha : Apart v s s') (hm : live m) (hreg : sIsReg (nodeAt v s m).mode = true)
    (hnode : LagAt v Synced s m → LagAt v Synced s' m ∧
      Synced (nodeAt v s' m) (nodeAt v s m)) : FileKept v s s' m := by
  refine .of_node hs hlog ha hm hreg fun hlag => ?_
  obtain ⟨hlag', hsynced⟩ := hnode hlag
  have hsize := congrArg OndiskInode.size hsynced
  have hblock := congrArg OndiskInode.block hsynced
  exact ⟨hlag', hsize, hblock⟩

theorem Owned.got_kept (h : Owned v R s held live arg) (hv : Layout v) (hR : LagOk R)
    (hn : n ≠ noEntry) (hgot : GotInode v s n i s') {m : Nat} (hm : live m)
    (hreg : sIsReg (nodeAt v s' m).mode = true) : FileKept v s s' m := by
  have hvol := h.files.on_volume m hm
  refine .of_synced h.files hv.log_le hgot.apart hm ((h.got_node hv hR hn hgot m hvol).reg hreg)
    fun hlag => ⟨hgot.lagAt hlag Synced.refl, ?_⟩
  exact hgot.node_lag hlag Synced.refl h.cache.toListsOk hn hvol.ne_noEntry

/-- `put_inode` leaves no regular file where it releases one. -/
theorem Owned.put_kept (h : Owned v R s held live arg) (hv : Layout v) (hR : LagOk R)
    (hi : i ∈ held) (hput : PutInode v env s i s') {m : Nat} (hm : live m)
    (hreg : sIsReg (nodeAt v s' m).mode = true) : FileKept v s s' m := by
  have hvol := h.files.on_volume m hm
  have hslot := (h.found hi).1
  refine .of_synced h.files hv.log_le (hput.apart hv hslot) hm
    ((h.put_node hv hR hi hput m hvol).reg hreg) fun hlag =>
      ⟨hput.lagAt hlag hv Synced.refl hvol h.cache.toListsOk (h.cache.held_mem i hi).1 hslot, ?_⟩
  have hodi := hput.nodeAt_untimed hv hR.refl h.cache hi hvol
  split at hodi
  · have hmode := congrArg OndiskInode.mode hodi
    dsimp only [OndiskInode.untimed] at hmode
    rw [hmode] at hreg
    cases hreg
  · exact hodi

/-- `alloc_inode_bit`. -/
theorem Owned.mark_kept (h : Owned v R s held live arg) (hv : Layout v) {group : Nat}
    {isDir : Bool} (halloc : allocInodeBit v s group isDir = .ok (s', n)) {m : Nat} (hm : live m)
    (hreg : sIsReg (nodeAt v s' m).mode = true) : FileKept v s s' m := by
  obtain ⟨ha, hslot, -, -, hdisk⟩ := allocInodeBit_apart hv group isDir _ halloc
  dsimp only at ha hslot hdisk
  have hvol := h.files.on_volume m hm
  have hnode := nodeAt_allocInodeBit hv halloc m hvol
  refine .of_synced h.files hv.log_le ha hm (by rwa [← hnode]) fun hlag => ⟨?_, ?_⟩
  · refine hlag.of_slots (fun j => by rw [hslot]) (fun j => by rw [hslot]) (hdisk m hvol)
      fun j _ _ => .inl ⟨by rw [hslot], by rw [hslot]; exact id⟩
  · rw [hnode]
    exact .refl _

/-- A change of an inode that is held and marked, but not of its data. -/
theorem Owned.change_kept (h : Owned v R s held live arg) (hlog : v.logBlockSize ≤ 5)
    (hi : i ∈ held) {x : Inode} (hino : x.ino = (s.slot i).ino) (hcount : x.count = (s.slot i).count)
    (hdirty : x.dirty = true) (hsize : x.odi.size = (s.slot i).odi.size)
    (hblock : x.odi.block = (s.slot i).odi.block)
    (hkind : x.odi.mode &&& 0xF000 = (s.slot i).odi.mode &&& 0xF000) {m : Nat} (hm : live m)
    (hreg : sIsReg (nodeAt v (s.setSlot i x) m).mode = true) :
    FileKept v s (s.setSlot i x) m := by
  have hf := (h.found hi).2
  have hnode := (found_setSlot v hf hino).2 m
  have hsame : (nodeAt v (s.setSlot i x) m).size = (nodeAt v s m).size ∧
      (nodeAt v (s.setSlot i x) m).block = (nodeAt v s m).block ∧
      (nodeAt v (s.setSlot i x) m).mode &&& 0xF000 = (nodeAt v s m).mode &&& 0xF000 := by
    rw [hnode]
    split
    next hmn =>
      rw [hmn, hf.nodeAt]
      exact ⟨hsize, hblock, hkind⟩
    next => exact ⟨rfl, rfl, rfl⟩
  refine .of_node h.files hlog (.of_blk rfl rfl rfl) hm ?_ fun hlag => ⟨?_, hsame.1, hsame.2.1⟩
  · rwa [sIsReg, ← hsame.2.2]
  · exact hlag.setSlot hcount (h.cache.count_pos hi) hdirty

/-- `write_inode`. -/
theorem Owned.store_kept (h : Owned v R s held live arg) (hv : Layout v) (hi : i ∈ held)
    (env : Env) {m : Nat} (hm : live m)
    (hreg : sIsReg (nodeAt v (wroteInode v env s i) m).mode = true) :
    FileKept v s (wroteInode v env s i) m := by
  obtain ⟨hlt, hne⟩ := h.cache.held_mem i hi
  have hvol := h.files.on_volume m hm
  have hslot := (h.found hi).1
  refine .of_synced h.files hv.log_le (wroteInode_apart hv env hslot) hm
    ((h.store_node hv hi env m hvol).reg hreg) fun hlag =>
      ⟨hlag.wrote hv Synced.refl hvol h.cache.toListsOk hlt hslot env, ?_⟩
  exact nodeAt_wroteInode hv h.cache hlt hne env hvol

/-- A name entered in a directory or deleted from it, seen from a file. -/
theorem Owned.dirStep_kept (h : Owned v R s held live arg) (hi : i ∈ held)
    (harg : arg (s.slot i).ino) (hsize : (s.slot i).odi.size ≠ 0)
    (hstep : DirStep v live (s.slot i).ino i s s') {m : Nat} (hm : live m)
    (hreg : sIsReg (nodeAt v s' m).mode = true) : FileKept v s s' m := by
  have hf := (h.found hi).2
  have hvol := h.files.on_volume m hm
  have hne : m ≠ (s.slot i).ino := by
    rintro rfl
    -- a directory that is a regular file by now has no entries
    have hmode := congrArg OndiskInode.mode (hstep.nodeAt_lasting hf hvol)
    dsimp only [OndiskInode.lasting, OndiskInode.untimed] at hmode
    rw [hmode] at hreg
    have hzero := (h.args _ harg).2 hreg
    rw [hf.nodeAt] at hzero
    exact hsize hzero
  have hnode := hstep.nodeAt_ne hf hvol hne
  refine ⟨by rwa [← hnode], fun hlag => ⟨fun j hj hjm => ?_, by rw [hnode], by rw [hnode],
    hstep.bytes m hm hne⟩⟩
  have hji : j ≠ i := by
    rintro rfl
    rw [hstep.ino, hf.ino] at hjm
    exact hne hjm.symm
  rw [hstep.slot j hji] at hjm ⊢
  rw [hstep.disk m hvol, if_neg hne]
  exact hlag j hj hjm

theorem direntEnter_size_ne {name : List UInt8} {ino : Nat} {mode : UInt16}
    (hrun : direntEnter v env s i name ino mode = .ok (s', .ok ())) :
    (s.slot i).odi.size ≠ 0 := by
  intro hsize
  by_cases hname : name.length ≤ nameMax
  · rw [direntEnter_empty hsize hname] at hrun
    cases hrun
  · rw [direntEnter, if_pos (by omega)] at hrun
    cases hrun

theorem direntDelete_size_ne {name : List UInt8}
    (hrun : direntDelete v env s i name = .ok (s', .ok ())) : (s.slot i).odi.size ≠ 0 := by
  intro hsize
  by_cases hname : nameMax < name.length
  · rw [direntDelete, if_pos hname] at hrun
    cases hrun
  · have hfind : findAndDelete v s.blk (s.slot i).odi name = .ok none := by
      have hpos : ¬ 0 < (s.slot i).odi.size.toNat := by
        rw [hsize]
        decide
      rw [findAndDelete, walkBlocks, walkDir, if_neg hpos]
    rw [direntDelete, if_neg hname, bind_of_ok hfind] at hrun
    cases hrun

/-- A name that is entered in a directory is no matter to a file. -/
theorem Owned.enter_kept (h : Owned v R s held live arg) (hv : Layout v) (hbe : v.beCpu = false)
    (hi : i ∈ held) (harg : arg (s.slot i).ino) (hn : live n) {name : List UInt8} {mode : UInt16}
    (hrun : direntEnter v env s i name n mode = .ok (s', .ok ())) {m : Nat} (hm : live m)
    (hreg : sIsReg (nodeAt v s' m).mode = true) : FileKept v s s' m := by
  have hlive := (h.args _ harg).1
  have hlt : n < 2 ^ 32 := by
    have := (h.files.on_volume n hn).lt hv
    omega
  rcases direntEnter_step hv hbe h.files hlive (h.found hi).2 (h.dirs _ hlive (.inr harg)).dirWith
    hlt hn hrun with rfl | ⟨hstep, -⟩
  · exact ⟨hreg, fun hlag => ⟨hlag, rfl, rfl, fun _ _ => rfl⟩⟩
  · exact h.dirStep_kept hi harg (direntEnter_size_ne hrun) hstep hm hreg

theorem Owned.delete_kept (h : Owned v R s held live arg) (hv : Layout v) (hbe : v.beCpu = false)
    (hsize : 4 ≤ v.sizeofIno) (hi : i ∈ held) (harg : arg (s.slot i).ino) {name : List UInt8}
    (hrun : direntDelete v env s i name = .ok (s', .ok ())) {m : Nat} (hm : live m)
    (hreg : sIsReg (nodeAt v s' m).mode = true) : FileKept v s s' m := by
  have hlive := (h.args _ harg).1
  rcases direntDelete_step hv hbe hsize h.files hlive (h.found hi).2
    (h.dirs _ hlive (.inr harg)).dirWith hrun with rfl | ⟨hstep, -⟩
  · exact ⟨hreg, fun hlag => ⟨hlag, rfl, rfl, fun _ _ => rfl⟩⟩
  · exact h.dirStep_kept hi harg (direntDelete_size_ne hrun) hstep hm hreg

/-- What holds of all entries, and of all names that the message may enter, still does. -/
abbrev KeepsEntries (v : Volume) (arg : Args) (s : Fs) (live : Nat → Prop) (s' : Fs)
    (live' : Nat → Prop) : Prop :=
  ∀ Q : Nat → List UInt8 → Prop, (∀ m made name, arg.name made name → Q m name) →
    DirsWith v s Q live arg.ino → DirsWith v s' Q live' arg.ino

/-- An inode that comes into use has no blocks, whatever it had before. -/
theorem Owned.fresh {arg : Args} (h : Owned v R s held live arg.ino)
    (hin : HoldsLive s held live) (hv : Layout v) (hR : LagOk R) {name : List UInt8}
    {mode uid gid : UInt16} (hname : arg.name (some n) name) (hn : n ≠ noEntry)
    (hgot : GotInode v s n i s') :
    ∃ live', Owned v R (s'.setSlot i (initInode (s'.slot i) mode uid gid)) (i :: held) live'
        arg.ino ∧
      HoldsLive (s'.setSlot i (initInode (s'.slot i) mode uid gid)) (i :: held) live' ∧
      KeepsEntries v arg s live (s'.setSlot i (initInode (s'.slot i) mode uid gid)) live' ∧
      KeepsFiles v arg s live (s'.setSlot i (initInode (s'.slot i) mode uid gid)) live' := by
  have hl := h.cache.toListsOk
  have ht := h.got hv hR hn hgot
  have hino := (hgot.cached hl).2
  have hsame : ListsSame s' (s'.setSlot i (initInode (s'.slot i) mode uid gid)) :=
    .setSlot s' rfl rfl
  have hnew : ∀ m, live m ∨ m = n → live m ∨ m = (s'.slot i).ino := by
    intro m hm
    rwa [hino]
  have hodi : (live (s'.slot i).ino ∨ (s'.slot i).ino = n) → live (s'.slot i).ino ∧
      Shorter (initInode (s'.slot i) mode uid gid).odi (s'.slot i).odi ∨
      (initInode (s'.slot i) mode uid gid).odi.Empty := fun _ => .inr ⟨rfl, fun _ => rfl⟩
  refine ⟨fun m => live m ∨ m = n, ht.change hv List.mem_cons_self rfl rfl rfl
    (fun m hm => .inl hm) hnew hodi fun hnot => ?_,
    HoldsLive.keep (List.forall_mem_cons.mpr ⟨.inr hino, fun j hj => ?_⟩) hsame.ino,
    fun Q hQ hdirs => ?_, fun m hm hreg => ?_⟩
  · exact absurd (.inr hino) hnot
  · rw [hgot.ino_held hl hj]
    exact .inl (hin j hj)
  · -- the directories: none of their blocks is written when an inode is read in
    have hdirs' : DirsWith v s' Q live arg.ino := hdirs.step h hv.log_le hgot.apart fun m hm =>
      .inl ⟨hm, (h.got_node hv hR hn hgot m (h.files.on_volume m hm)).toShorter⟩
    exact hdirs'.step ht hv.log_le (.of_blk rfl rfl rfl)
      (ht.change_node List.mem_cons_self rfl hnew hodi)
  · -- the files: the new one is empty, and the others are as they were
    have hnode := (found_setSlot v (ht.found List.mem_cons_self).2
      (x := initInode (s'.slot i) mode uid gid) rfl).2 m
    by_cases hmn : m = n
    · rw [if_pos (hmn.trans hino.symm)] at hnode
      refine .inl ⟨⟨name, hmn ▸ hname⟩, ⟨?_, ?_⟩, ?_⟩
      · rw [hnode]
        rfl
      · rw [hnode]
        exact fun _ => rfl
      · rw [hmn, ← hino]
        exact ht.cache.lagAt_marked List.mem_cons_self rfl rfl
    · have hold := hm.resolve_right hmn
      rw [if_neg (hino ▸ hmn)] at hnode
      rw [hnode] at hreg
      refine .inr ⟨hold, (h.got_kept hv hR hn hgot hold hreg).trans ?_⟩
      refine .of_synced ht.files hv.log_le (.of_blk rfl rfl rfl) hold hreg fun hlag => ⟨?_, ?_⟩
      · exact hlag.setSlot rfl (ht.cache.count_pos List.mem_cons_self) rfl
      · rw [hnode]
        exact .refl _

/-- No call of a request takes a block from its owner; an inode may come into use. -/
theorem Act.owned {arg : Args} (hact : Act v env arg s held s' held')
    (h : Owned v R s held live arg.ino) (hin : HoldsLive s held live) (hv : Layout v)
    (hR : LagOk R) (hbe : v.beCpu = false) (hsize : 4 ≤ v.sizeofIno) :
    ∃ live', Owned v R s' held' live' arg.ino ∧ HoldsLive s' held' live' ∧
      KeepsEntries v arg s live s' live' ∧ KeepsFiles v arg s live s' live' := by
  have hl := h.cache.toListsOk
  have hne : ∀ {n}, live n → n ≠ noEntry := fun hn => (h.files.on_volume _ hn).ne_noEntry
  -- what the directories hold is the same where no block of theirs is written
  have hshow : ∀ {t : Fs}, Apart v s t →
      (∀ m, OnVolume v m → Behind (nodeAt v t m) (nodeAt v s m)) →
      KeepsEntries v arg s live t live := fun ha hnode Q _ hdirs =>
    hdirs.step h hv.log_le ha fun m hm => .inl ⟨hm, (hnode m (h.files.on_volume m hm)).toShorter⟩
  cases hact with
  | get hn hgot =>
    have hlive := (h.args _ hn).1
    exact ⟨live, h.got hv hR (hne hlive) hgot, hin.got hl hlive hgot,
      hshow hgot.apart (h.got_node hv hR (hne hlive) hgot),
      fun m hm hreg => .inr ⟨hm, h.got_kept hv hR (hne hlive) hgot hm hreg⟩⟩
  | entry hd hdir hfound hgot =>
    have hlive := h.entry hv.log_le hbe hd hdir hfound
    exact ⟨live, h.got hv hR (hne hlive) hgot, hin.got hl hlive hgot,
      hshow hgot.apart (h.got_node hv hR (hne hlive) hgot),
      fun m hm hreg => .inr ⟨hm, h.got_kept hv hR (hne hlive) hgot hm hreg⟩⟩
  | mark halloc =>
    refine ⟨live, h.mark hv halloc, hin.keep (allocInodeBit_keepsLists s _ _ _ halloc).ino,
      hshow (allocInodeBit_apart hv _ _ _ halloc).1 fun m hm => ?_,
      fun m hm hreg => .inr ⟨hm, h.mark_kept hv halloc hm hreg⟩⟩
    rw [nodeAt_allocInodeBit hv halloc m hm]
    exact .of_untimed rfl
  | fresh hname _ hn hgot => exact h.fresh hin hv hR hname hn hgot
  | put hp hput =>
    -- the last reference may free the inode, which then has no links
    have hi := hp.mem_iff.mpr List.mem_cons_self
    refine ⟨live, (h.put hv hR hi hput).perm ?_, fun j hj => ?_,
      hshow (hput.apart hv (h.found hi).1) (h.put_node hv hR hi hput),
      fun m hm hreg => .inr ⟨hm, h.put_kept hv hR hi hput hm hreg⟩⟩
    · exact (List.perm_cons_erase hi).symm.trans hp |>.cons_inv
    · rw [hput.ino_held (hl.perm hp) hj]
      exact hin j (hp.mem_iff.mpr (List.mem_cons_of_mem _ hj))
  | @touch _ _ i x hi ht =>
    have hsame := ListsSame.setSlot s ht.ino ht.count
    have hodi : live (s.slot i).ino → live (s.slot i).ino ∧ Shorter x.odi (s.slot i).odi ∨
        x.odi.Empty := fun hlive => .inl ⟨hlive, .of_same ht.block ht.size (.inl ht.kind)⟩
    refine ⟨live, h.change hv hi ht.ino ht.count ht.dirty (fun _ hm => hm) (fun _ hm => .inl hm)
      hodi (fun hnot => ?_), hin.keep hsame.ino, fun Q _ hdirs => ?_,
      fun m hm hreg => .inr ⟨hm, h.change_kept hv.log_le hi ht.ino ht.count ht.dirty ht.size ht.block
        ht.kind hm hreg⟩⟩
    · exact absurd (hin _ hi) hnot
    · exact hdirs.step h hv.log_le (.of_blk rfl rfl rfl)
        (h.change_node hi ht.ino (fun _ hm => .inl hm) hodi)
  | store hi hrun =>
    have hsame := writeInode_keepsLists s _ _ hrun
    rw [writeInode_eq (h.found hi).1] at hrun
    cases hrun
    exact ⟨live, h.store hv hR hi env, hin.keep hsame.ino,
      hshow (wroteInode_apart hv env (h.found hi).1) (h.store_node hv hi env),
      fun m hm hreg => .inr ⟨hm, h.store_kept hv hi env hm hreg⟩⟩
  | enter hi hj hdir hname hrun =>
    exact ⟨live, h.enter hv hR hbe hi hdir (hin _ hj) hrun,
      hin.keep (direntEnter_keepsLists s _ _ _ _ _ hrun).ino,
      fun Q hQ hdirs => hdirs.enter h hv hbe hi hdir (hin _ hj) (hQ _ _ _ hname) hrun,
      fun m hm hreg => .inr ⟨hm, h.enter_kept hv hbe hi hdir (hin _ hj) hrun hm hreg⟩⟩
  | delete hi hdir hrun =>
    exact ⟨live, h.delete hv hR hbe hsize hi hdir hrun,
      hin.keep (direntDelete_keepsLists s _ _ _ hrun).ino,
      fun Q _ hdirs => hdirs.delete h hv hbe hsize hi hdir hrun,
      fun m hm hreg => .inr ⟨hm, h.delete_kept hv hbe hsize hi hdir hrun hm hreg⟩⟩

/-- No sequence of calls takes a block from its owner. -/
theorem Acts.owned {arg : Args} {p q : Fs × List Nat} (hacts : Acts v env arg p q)
    (h : Owned v R p.1 p.2 live arg.ino) (hin : HoldsLive p.1 p.2 live) (hv : Layout v)
    (hR : LagOk R) (hbe : v.beCpu = false) (hsize : 4 ≤ v.sizeofIno) :
    ∃ live', Owned v R q.1 q.2 live' arg.ino ∧ HoldsLive q.1 q.2 live' ∧
      KeepsEntries v arg p.1 live q.1 live' ∧ KeepsFiles v arg p.1 live q.1 live' := by
  refine hacts.keep (P := fun s held => ∃ live', Owned v R s held live' arg.ino ∧
    HoldsLive s held live' ∧ KeepsEntries v arg p.1 live s live' ∧
    KeepsFiles v arg p.1 live s live') ?_ ⟨live, h, hin, fun _ _ hdirs => hdirs,
      fun m hm hreg => .inr ⟨hm, hreg, fun hlag => ⟨hlag, rfl, rfl, fun _ _ => rfl⟩⟩⟩
  rintro s held s' held' ⟨live₁, h₁, hin₁, hkeep₁, hfiles₁⟩ hact
  obtain ⟨live₂, h₂, hin₂, hkeep₂, hfiles₂⟩ := hact.owned h₁ hin₁ hv hR hbe hsize
  exact ⟨live₂, h₂, hin₂, fun Q hQ hdirs => hkeep₂ Q hQ (hkeep₁ Q hQ hdirs), hfiles₁.trans hfiles₂⟩

end Owned

end Cheviot.Ext2
