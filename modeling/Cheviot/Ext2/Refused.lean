import Cheviot.Ext2.Rollback
import Cheviot.Ext2.OwnedRun

/-!
# Requests that are turned down

A handler takes references to its inodes before it looks at the request, and gives them
back when it turns the request down. Apart from what is in the cache nothing has changed
then.

* `Unchanged` — all that a request turned down is to leave as it was.
* `GoodFs` — a well-formed filesystem between two requests.
* `Took` — a handler that has taken references, and changed nothing.
* `Took.get`, `Took.put` — it takes one more, or gives one back.
* `isDirEmpty_rows` — `is_dir_empty` of a well-formed directory.
-/

namespace Cheviot.Ext2

open Cheviot.Bytes Cheviot.Forest Cheviot.Rows

/-! ## What is left alone -/

/-- The data blocks, the bitmaps, the inodes but for their times, and all counters are as
they were. -/
structure Unchanged (v : Volume) (s s' : Fs) : Prop where
  bytes : ∀ b, DataBlock v b → s'.blk b = s.blk b
  bitmaps : ∀ g, g < v.groupsCount → s'.blk (v.blockBitmap g) = s.blk (v.blockBitmap g) ∧
    s'.blk (v.inodeBitmap g) = s.blk (v.inodeBitmap g)
  nodes : ∀ n, OnVolume v n → Synced (nodeAt v s' n) (nodeAt v s n)
  gd : s'.gd = s.gd
  counters : s'.freeInodesCount = s.freeInodesCount ∧ s'.freeBlocksCount = s.freeBlocksCount ∧
    s'.dirsCounter = s.dirsCounter

section Frame

variable {v : Volume} {env : Env} {s s' s'' : Fs} {held : List Nat} {n i : Nat}

theorem Unchanged.refl (v : Volume) (s : Fs) : Unchanged v s s :=
  ⟨fun _ _ => rfl, fun _ _ => ⟨rfl, rfl⟩, fun _ _ => rfl, rfl, rfl, rfl, rfl⟩

theorem Unchanged.trans (h : Unchanged v s s') (h' : Unchanged v s' s'') :
    Unchanged v s s'' where
  bytes b hb := (h'.bytes b hb).trans (h.bytes b hb)
  bitmaps g hg :=
    ⟨(h'.bitmaps g hg).1.trans (h.bitmaps g hg).1, (h'.bitmaps g hg).2.trans (h.bitmaps g hg).2⟩
  nodes n hn := Eq.trans (h'.nodes n hn) (h.nodes n hn)
  gd := h'.gd.trans h.gd
  counters :=
    ⟨h'.counters.1.trans h.counters.1, h'.counters.2.1.trans h.counters.2.1,
      h'.counters.2.2.trans h.counters.2.2⟩

theorem Unchanged.links (h : Unchanged v s s') (hn : OnVolume v n) :
    (nodeAt v s' n).linksCount = (nodeAt v s n).linksCount := by
  have hlinks := congrArg OndiskInode.linksCount (h.nodes n hn)
  exact hlinks

theorem Unchanged.size (h : Unchanged v s s') (hn : OnVolume v n) :
    (nodeAt v s' n).size = (nodeAt v s n).size := by
  have hsize := congrArg OndiskInode.size (h.nodes n hn)
  exact hsize

theorem Unchanged.block (h : Unchanged v s s') (hn : OnVolume v n) :
    (nodeAt v s' n).block = (nodeAt v s n).block := by
  have hblock := congrArg OndiskInode.block (h.nodes n hn)
  exact hblock

theorem Unchanged.ibit (h : Unchanged v s s') {g j : Nat} (hg : g < v.groupsCount) :
    ibit v s' g j = Ext2.ibit v s g j := by
  rw [Ext2.ibit, Ext2.ibit, (h.bitmaps g hg).2]

theorem Unchanged.inodes (h : Unchanged v s s') {counted : Nat → Bool}
    (hs : InodeConsistent v s counted) : InodeConsistent v s' counted := by
  have hbits : ∀ g, g < v.groupsCount → ∀ j, Ext2.ibit v s' g j = Ext2.ibit v s g j :=
    fun g hg j => h.ibit hg
  refine ⟨fun g hg => ?_, ?_, fun g hg => ?_, ?_, fun g hg j hj => ?_, fun g hg j hj => ?_,
    fun g hg j hj => ?_⟩
  · simp only [h.gd, hbits g hg]
    exact hs.free_count g hg
  · rw [h.gd, h.counters.1]
    exact hs.free_sum
  · rw [h.gd]
    exact hs.dirs_count g hg
  · rw [h.gd, h.counters.2.2]
    exact hs.dirs_sum
  · rw [hbits g hg]
    exact hs.dirs_set g hg j hj
  · rw [hbits g hg]
    exact hs.reserved g hg j hj
  · rw [hbits g hg]
    exact hs.past g hg j hj

theorem unchanged_of_got (hv : Layout v) (hc : CacheOk v Synced s held) (hn : n ≠ noEntry)
    (h : GotInode v s n i s') : Unchanged v s s' := by
  have hnodes : ∀ m, OnVolume v m → Synced (nodeAt v s' m) (nodeAt v s m) :=
    fun m hm => h.nodeAt hv Synced.refl hc hn hm.ne_noEntry
  cases h with
  | hit _ => exact ⟨fun _ _ => rfl, fun _ _ => ⟨rfl, rfl⟩, hnodes, rfl, rfl, rfl, rfl⟩
  | load _ _ _ => exact ⟨fun _ _ => rfl, fun _ _ => ⟨rfl, rfl⟩, hnodes, rfl, rfl, rfl, rfl⟩

/-- An inode with links that is given back touches its block of the inode table at most. -/
theorem PutInode.blk_ne (h : PutInode v env s i s') (hlinks : (s.slot i).odi.linksCount ≠ 0)
    {b : Nat} (hb : b ≠ v.inodeTableBlock (s.slot i).ino) : s'.blk b = s.blk b := by
  cases h with
  | release _ h0 _ _ => exact absurd h0 hlinks
  | keep _ _ =>
    show (flushedInode v env s i).blk b = s.blk b
    unfold flushedInode
    split
    · exact wroteInode_blk_ne hb
    · rfl

/-- An inode with links is not released. -/
theorem unchanged_of_put (hv : Layout v) (hc : CacheOk v Synced s held) (hi : i ∈ held)
    (hlinks : (s.slot i).odi.linksCount ≠ 0) (h : PutInode v env s i s') : Unchanged v s s' := by
  have hnodes : ∀ m, OnVolume v m → Synced (nodeAt v s' m) (nodeAt v s m) := by
    intro m hm
    have hodi := h.nodeAt_untimed hv Synced.refl hc hi hm
    rwa [if_neg fun hgone => hlinks hgone.2.1] at hodi
  obtain ⟨hlt, hne⟩ := hc.held_mem i hi
  have hvol := hc.on_volume i hlt hne
  have hblk : ∀ b, b ≠ v.inodeTableBlock (s.slot i).ino → s'.blk b = s.blk b :=
    fun b hb => h.blk_ne hlinks hb
  have hrest : s'.gd = s.gd ∧ s'.freeInodesCount = s.freeInodesCount ∧
      s'.freeBlocksCount = s.freeBlocksCount ∧ s'.dirsCounter = s.dirsCounter := by
    cases h with
    | release _ h0 _ _ => exact absurd h0 hlinks
    | keep _ _ =>
      unfold dropRef flushedInode
      split
      · exact ⟨rfl, rfl, rfl, rfl⟩
      · exact ⟨rfl, rfl, rfl, rfl⟩
  refine ⟨fun b hb => hblk b fun he => ?_, fun g hg => ⟨hblk _ ?_, hblk _ ?_⟩, hnodes, hrest.1,
    hrest.2⟩
  · exact hb.2.2 (he ▸ inodeTableBlock_system hv hvol)
  · exact inodeTableBlock_ne_block_bitmap hv hvol hg
  · exact inodeTableBlock_ne_inode_bitmap hv hvol hg

end Frame

/-! ## A well-formed filesystem -/

/-- A filesystem between two requests: files, directories and bitmaps are in order, and
nothing is lost when a slot of the cache is recycled. `counted` says which inodes are counted
as directories. -/
structure GoodFs (v : Volume) (s : Fs) (counted : Nat → Bool) : Prop extends Consistent v s where
  inodes : InodeConsistent v s counted
  marked : ∀ n, InodeInUse v s n → Marked v s n
  cache : CacheOk v Synced s []
  wf : ∀ n rows, InodeInUse v s n → sIsDir (nodeAt v s n).mode = true →
    DirRows v (contentAt v s n) (nodeAt v s n).size.toNat rows →
    WellFormed v (nodeAt v s n).size.toNat rows

/-! ## References -/

/-- References to the inodes of `ns` have been taken since `s₀`, in the slots of `held`, and
nothing has changed. -/
structure Took (v : Volume) (s₀ s : Fs) (held ns : List Nat) : Prop where
  cache : CacheOk v Synced s held
  same : Unchanged v s₀ s
  inos : held.map (fun i => (s.slot i).ino) = ns

section Took

variable {v : Volume} {env : Env} {s₀ s s' : Fs} {held ns : List Nat} {n i : Nat}

theorem Took.start (hc : CacheOk v Synced s []) : Took v s s [] [] := ⟨hc, .refl v s, rfl⟩

/-- A slot that is held shows the inode it was taken for. -/
theorem Took.head (h : Took v s₀ s (i :: held) (n :: ns)) :
    OnVolume v n ∧ Found s n i ∧ (s.slot i).odi = nodeAt v s n := by
  obtain ⟨hlt, hne⟩ := h.cache.held_mem i List.mem_cons_self
  have hino : (s.slot i).ino = n := (List.cons.inj h.inos).1
  have hcached : Cached s n i := ⟨hlt, hino⟩
  rw [hino] at hne
  refine ⟨hino ▸ h.cache.on_volume i hlt (hino ▸ hne), ?_, ?_⟩
  · exact (h.cache.search_iff hne).mpr hcached
  · exact (h.cache.nodeAt_cached hne hcached).symm

theorem Took.second {j m : Nat} (h : Took v s₀ s (j :: i :: held) (m :: n :: ns)) :
    Took v s₀ s (i :: j :: held) (n :: m :: ns) := by
  obtain ⟨hm, htail⟩ := List.cons.inj h.inos
  obtain ⟨hn, hrest⟩ := List.cons.inj htail
  refine ⟨⟨h.cache.toListsOk.perm (.swap i j held), h.cache.on_volume, h.cache.synced⟩, h.same, ?_⟩
  rw [List.map_cons, List.map_cons, ← hm, ← hn, ← hrest]

/-- One more reference; no block is written. -/
theorem Took.get (hv : Layout v) (h : Took v s₀ s held ns) (hlen : held.length < nrInodes)
    (hn : OnVolume v n) :
    ∃ i s', getInode v s n = .ok (s', some i) ∧ Took v s₀ s' (i :: held) (n :: ns) ∧
      s'.blk = s.blk := by
  rcases getInode_cases hv h.cache.toListsOk hn with ⟨-, hnone, -⟩ | ⟨-, i, s', hrun, hgot⟩
  · exact absurd hnone (h.cache.unused_ne_nil hlen)
  · refine ⟨i, s', hrun, ⟨hgot.ok hv Synced.refl h.cache hn.ne_noEntry,
      h.same.trans (unchanged_of_got hv h.cache hn.ne_noEntry hgot), ?_⟩, hgot.blk⟩
    rw [List.map_cons, (hgot.cached h.cache.toListsOk).2, ← h.inos]
    refine congrArg _ (List.map_congr_left fun j hj => ?_)
    exact hgot.ino_held h.cache.toListsOk hj

/-- A reference to an inode with links given back. -/
theorem Took.put (hv : Layout v) (h : Took v s₀ s (i :: held) (n :: ns))
    (hlinks : (nodeAt v s₀ n).linksCount ≠ 0) (env : Env) :
    ∃ s', putInode v env s i = .ok s' ∧ Took v s₀ s' held ns := by
  have hi : i ∈ i :: held := List.mem_cons_self
  obtain ⟨hvol, hf, hodi⟩ := h.head
  have hlinks' : (s.slot i).odi.linksCount ≠ 0 := by
    rw [hodi, h.same.links hvol]
    exact hlinks
  have hgroup : v.inodeGroup (s.slot i).ino < v.groupsCount := by
    rw [hf.ino]
    exact inodeGroup_lt hvol
  have hrun := putInode_keep (v := v) h.cache.toListsOk hi (.inl hlinks') env
  rw [if_neg fun hbad => Nat.not_le.mpr hgroup hbad.2] at hrun
  have hput := putInode_ok h.cache.toListsOk hi hrun
  have hc := hput.ok hv Synced.refl h.cache hi
  rw [List.erase_cons_head] at hc
  refine ⟨_, hrun, hc, h.same.trans (unchanged_of_put hv h.cache hi hlinks' hput), ?_⟩
  rw [← (List.cons.inj h.inos).2]
  exact List.map_congr_left fun j hj => hput.ino_held h.cache.toListsOk hj

/-- Where a file of the filesystem has its bytes. -/
theorem Unchanged.keep_bytes (hv : Layout v) {live : Nat → Prop} (hs : FilesOk v s₀ live)
    (h : Unchanged v s₀ s) (hn : live n) {q : Nat} (hq : q < 2 ^ 32) :
    contentAt v s n q = contentAt v s₀ n q :=
  (hs.map.keep_bytes hv.log_le hn (h.block (hs.on_volume n hn)) h.bytes hq).2

/-- The records of a directory that is held are those that it had. -/
theorem Took.goodDir (hv : Layout v) {counted : Nat → Bool} (hs : GoodFs v s₀ counted)
    (h : Took v s₀ s (i :: held) (n :: ns)) (hn : InodeInUse v s₀ n)
    (hdir : sIsDir (nodeAt v s₀ n).mode = true) {rows : Nat → List Entry}
    (hrows : DirRows v (contentAt v s₀ n) (nodeAt v s₀ n).size.toNat rows) :
    GoodDir v s n i rows := by
  obtain ⟨hvol, hf, hodi⟩ := h.head
  have hsize : (s.slot i).odi.size = (nodeAt v s₀ n).size := by
    rw [hodi, h.same.size hvol]
  have hmap : MapOk v (nodeAt v s) s.blk (· = n) := by
    refine hs.files.map.prune fun m hm k p hp => .inr ⟨hm ▸ hn, ?_⟩
    cases hm
    exact hs.files.map.keep hn (h.same.block hvol) h.same.bytes hp
  refine ⟨hf, hvol, hmap, ?_, ?_⟩
  · rw [hsize]
    intro k hk
    refine (hrows k hk).congr fun j _ hj => ?_
    have hend := block_end_le hv.log_le (UInt32.toNat_lt _) hk
    rw [Nat.add_mul, Nat.one_mul] at hend
    exact Unchanged.keep_bytes hv hs.files h.same hn (by omega)
  · rw [hsize]
    exact hs.wf n rows hn hdir hrows

end Took

/-! ## `is_dir_empty` -/

/-- A live record that `is_dir_empty` takes for something other than "." and "..". -/
def Entry.Other (e : Entry) : Prop :=
  e.ino ≠ 0 ∧ e.name ≠ [] ∧ e.name ≠ [0x2E] ∧ e.name ≠ [0x2E, 0x2E]

instance (e : Entry) : Decidable e.Other := inferInstanceAs (Decidable (_ ∧ _))

section Empty

variable {v : Volume} {b : Buf} {es : List Entry} {blk : Nat → Buf} {odi odi' : OndiskInode}
  {rows : Nat → List Entry}

theorem isDirBlockEmpty_tiled (hbe : v.beCpu = false) (ht : Tiled b 0 v.blockSize es) :
    isDirBlockEmpty v b =
      .ok (pick (fun _ e => if e.Other then some () else none) none es).isNone := by
  have hwalk : walkBlock v b (fun _ o =>
      if dIno v.beCpu b o ≠ 0 then do
        if ← matchName v b o [0x2E] then return none
        else if ← matchName v b o [0x2E, 0x2E] then return none
        else return some ()
      else .ok none) = .ok (pick (fun _ e => if e.Other then some () else none) none es) := by
    refine walkBlock_tiled hbe ht fun _ e he _ => ?_
    have hat := ht.entry e he
    have hin := ht.bounds he
    rw [hbe, dIno]
    by_cases h0 : e.ino = 0
    · rw [if_neg (by rw [hat.live_iff]; exact not_not_intro h0), if_neg fun h => h.1 h0]
    rw [if_pos (hat.live_iff.mpr h0), bind_of_ok (hat.matchName (by omega) [0x2E])]
    by_cases hdot : e.name = [] ∨ e.name = [0x2E]
    · rw [decide_eq_true hdot, if_pos rfl, if_neg fun h => ?_]
      · rfl
      · exact hdot.elim h.2.1 h.2.2.1
    rw [decide_eq_false hdot, if_neg (by decide),
      bind_of_ok (hat.matchName (by omega) [0x2E, 0x2E])]
    obtain ⟨hnil, hdot⟩ := not_or.mp hdot
    by_cases hdotdot : e.name = [] ∨ e.name = [0x2E, 0x2E]
    · rw [decide_eq_true hdotdot, if_pos rfl, if_neg fun h => ?_]
      · rfl
      · exact hdotdot.elim h.2.1 h.2.2.2
    obtain ⟨-, hdotdot'⟩ := not_or.mp hdotdot
    rw [decide_eq_false hdotdot, if_neg (by decide), if_pos ⟨h0, hnil, hdot, hdotdot'⟩]
    rfl
  rw [isDirBlockEmpty, bind_of_ok hwalk]
  rfl

/-- `is_dir_empty` finds such a record, if there is one. -/
theorem isDirEmpty_rows (hlog : v.logBlockSize ≤ 5) (hbe : v.beCpu = false)
    (h : DirRows v (byteAt v blk odi) odi.size.toNat rows) :
    (isDirEmpty v blk odi = .ok true ∧ ∀ e, Holds v odi.size.toNat rows e → ¬ e.Other) ∨
      (isDirEmpty v blk odi = .ok false ∧ ∃ e, Holds v odi.size.toNat rows e ∧ e.Other) := by
  have hbs := Volume.blockSize_bounds hlog
  have hwalk := walkBlocks_rows (show 0 < v.blockSize by omega) blk odi
    "extfs: is_dir_empty found a hole in a directory"
    (fun block => do
      if ← isDirBlockEmpty v (blk block) then return none else return some ())
    (fun k => ∀ e ∈ rows k, ¬ e.Other) (fun k _ => ∃ e ∈ rows k, e.Other) fun k hk => by
      obtain ⟨hne, ht⟩ := h.block hlog hk
      refine ⟨hne, ?_⟩
      rw [bind_of_ok (isDirBlockEmpty_tiled hbe ht)]
      cases hp : pick (fun _ e => if e.Other then some () else none) none (rows k) with
      | none =>
        refine .inl ⟨rfl, fun e he ho => ?_⟩
        have hstop := pick_eq_none.mp hp e he
        rw [if_pos ho] at hstop
        cases hstop
      | some u =>
        obtain ⟨pre, e, post, hrow, hstop, -⟩ := pick_eq_some hp
        refine .inr ⟨(), rfl, e, ?_, ?_⟩
        · rw [hrow]
          exact List.mem_append_right _ List.mem_cons_self
        · by_contra ho
          rw [if_neg ho] at hstop
          cases hstop
  rcases hwalk with ⟨hrun, hnone⟩ | ⟨k, u, hrun, hk, ⟨e, he, ho⟩, -⟩
  · refine .inl ⟨?_, fun e he => ?_⟩
    · rw [isDirEmpty, bind_of_ok hrun]
      rfl
    · obtain ⟨k, hk, he⟩ := he
      exact hnone k hk e he
  · refine .inr ⟨?_, e, ⟨k, hk, he⟩, ho⟩
    rw [isDirEmpty, bind_of_ok hrun]
    rfl

/-- A walk over the blocks of a directory looks at its size and its block map only. -/
theorem walkDir_congr {α : Type} (hsize : odi'.size = odi.size) (hblock : odi'.block = odi.block)
    (hole : String) (body : Nat → Except Fault (Option α)) (fuel : Nat) : ∀ pos,
    walkDir v blk odi' hole body fuel pos = walkDir v blk odi hole body fuel pos := by
  induction fuel with
  | zero => exact fun _ => rfl
  | succ fuel ih =>
    intro pos
    have hentry : readMapEntry v blk odi' pos = readMapEntry v blk odi pos := by
      rw [readMapEntry, readMapEntry, hblock]
    rw [walkDir, walkDir, hsize, hentry]
    simp only [ih]

theorem isDirEmpty_congr (hsize : odi'.size = odi.size) (hblock : odi'.block = odi.block) :
    isDirEmpty v blk odi' = isDirEmpty v blk odi := by
  rw [isDirEmpty, isDirEmpty, walkBlocks, walkBlocks, walkDir_congr hsize hblock, hsize]

end Empty

/-! ## The small volume -/

section Sample

variable {v : Volume} {size : Nat} {c : Nat → UInt8} {rows rows' : Nat → List Entry}

/-- The bytes of a directory say which records it has. -/
theorem WellFormed.of_rows (h : WellFormed v size rows) (hrows : DirRows v c size rows)
    (hrows' : DirRows v c size rows') : WellFormed v size rows' := by
  have hsame : ∀ k, k * v.blockSize < size → rows' k = rows k :=
    fun k hk => (hrows' k hk).unique (hrows k hk)
  refine ⟨fun e he => ?_, fun j k x y hj hk hx hy => ?_, fun k hk => ?_⟩
  · obtain ⟨k, hk, hek⟩ := he
    rw [hsame k hk] at hek
    exact h.named e ⟨k, hk, hek⟩
  · rw [hsame j hj] at hx
    rw [hsame k hk] at hy
    exact h.distinct j k x y hj hk hx hy
  · rw [hsame k hk]
    exact h.free k hk

theorem sampleFs_rows : DirRows sampleVolume (contentAt sampleVolume (initInodeCache sampleFs) 2)
    (nodeAt sampleVolume (initInodeCache sampleFs) 2).size.toNat sampleRows := by
  have hnode : nodeAt sampleVolume (initInodeCache sampleFs) 2 = nodeAt sampleVolume sampleDirFs 2 :=
    rfl
  have hbytes : contentAt sampleVolume (initInodeCache sampleFs) 2 =
      contentAt sampleVolume sampleDirFs 2 := by
    funext q
    rw [contentAt, contentAt, hnode]
    rfl
  rw [hbytes]
  exact sampleDirFs_good.tiled

theorem sampleFs_good :
    GoodFs sampleVolume (initInodeCache sampleFs) (fun n => n == rootIno) where
  toConsistent := sampleFs_consistent
  inodes :=
    have h := sampleFs_inodeConsistent
    ⟨h.free_count, h.free_sum, h.dirs_count, h.dirs_sum, h.dirs_set, h.reserved, h.past⟩
  marked n hn := by
    rw [(sampleFs_inodeInUse n).mp hn]
    exact ⟨0, 1, by decide, by decide, by decide, by decide⟩
  cache := initInodeCache_ok sampleVolume Synced sampleFs
  wf n rows hn _ hrows := by
    rw [(sampleFs_inodeInUse n).mp hn] at hrows ⊢
    exact WellFormed.of_rows sampleDirFs_good.wf sampleFs_rows hrows

theorem sampleFs_root : InodeInUse sampleVolume (initInodeCache sampleFs) 2 ∧
    sIsDir (nodeAt sampleVolume (initInodeCache sampleFs) 2).mode = true :=
  ⟨(sampleFs_inodeInUse 2).mpr rfl, by decide⟩

/-- All its names are names of itself. -/
theorem sampleRows_names {name : List UInt8} {m : Nat} (h : Names sampleVolume
    (nodeAt sampleVolume (initInodeCache sampleFs) 2).size.toNat sampleRows name m) :
    m = 2 ∧ (name = [0x2E] ∨ name = [0x2E, 0x2E]) := by
  obtain ⟨e, ⟨k, -, he⟩, -, rfl, rfl⟩ := h
  have hall : ∀ e ∈ sampleRows 0, e.ino = 2 ∧ (e.name = [0x2E] ∨ e.name = [0x2E, 0x2E]) := by
    decide
  exact hall e he

end Sample

end Cheviot.Ext2
