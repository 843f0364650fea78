import Cheviot.Ext2.DirMap
import Cheviot.Ext2.Groups

/-!
# A `new_inode` that fails

`new_inode` may fail after it has taken an inode: no cache slot is left, the name is
too long, the directory has no room. It then gives the inode back, through
`free_inode_bit`, which clears another bit than the one `alloc_inode_bit` has set.

* `refuseName_iff` — what is turned down before an inode is taken.
* `Taken.run` — up to `dirent_enter`, the call goes well if it gets a cache slot.
* `PutInode.keeps_bit` — no way back: the inode stays marked whatever happens.
* `newInode_rollsBack_iff` — so a call that fails leaves everything as it was if and
  only if it fails before it takes an inode.
-/

namespace Cheviot.Ext2

open Cheviot.Bytes Cheviot.Bits Cheviot.Rows

/-! ## What is turned down -/

section Parent

variable {v : Volume} {s s' : Fs} {n dir : Nat} {rows : Nat → List Entry}

/-- The directory gets no entry of that name: it has no links, or too many for another
directory, or it has the name. -/
def TurnedDown (v : Volume) (s : Fs) (dir : Nat) (rows : Nat → List Entry) (name : List UInt8)
    (mode : UInt16) : Prop :=
  (s.slot dir).odi.linksCount = 0 ∨
    (sIsDir mode = true ∧ v.linkMax ≤ (s.slot dir).odi.linksCount.toNat) ∨
    ∃ ino, Names v (s.slot dir).odi.size.toNat rows name ino

theorem GoodDir.refuseName_iff (hlog : v.logBlockSize ≤ 5) (hbe : v.beCpu = false)
    (h : GoodDir v s n dir rows) (name : List UInt8) (mode : UInt16) :
    ∃ r, refuseName v s dir name mode = .ok r ∧
      (r ≠ none ↔ TurnedDown v s dir rows name mode) := by
  unfold refuseName
  dsimp only
  by_cases hlinks : (s.slot dir).odi.linksCount = 0
  · rw [if_pos hlinks]
    exact ⟨_, rfl, iff_of_true (Option.some_ne_none _) (.inl hlinks)⟩
  rw [if_neg hlinks]
  by_cases hmlink : sIsDir mode = true ∧ v.linkMax ≤ (s.slot dir).odi.linksCount.toNat
  · rw [if_pos hmlink]
    exact ⟨_, rfl, iff_of_true (Option.some_ne_none _) (.inr (.inl hmlink))⟩
  rw [if_neg hmlink]
  have hnot : TurnedDown v s dir rows name mode ↔
      ∃ ino, Names v (s.slot dir).odi.size.toNat rows name ino :=
    (or_iff_right hlinks).trans (or_iff_right hmlink)
  by_cases hname : name.length ≤ nameMax
  · rcases h.lookup hlog hbe hname with ⟨hrun, hnone⟩ | ⟨ino, hrun, hnames⟩
    · rw [dirLookup] at hrun
      rw [bind_of_ok hrun]
      refine ⟨none, rfl, iff_of_false (fun h => h rfl) fun hdown => ?_⟩
      obtain ⟨ino, hino⟩ := hnot.mp hdown
      exact hnone ino hino
    · rw [dirLookup] at hrun
      rw [bind_of_ok hrun]
      exact ⟨_, rfl, iff_of_true (Option.some_ne_none _) (hnot.mpr ⟨ino, hnames⟩)⟩
  · -- no entry has a name that long
    have hrun : lookupDir v s.blk (s.slot dir).odi name = .ok (.error .enametoolong) := by
      rw [lookupDir, if_pos (by omega)]
    rw [bind_of_ok hrun]
    refine ⟨none, rfl, iff_of_false (fun h => h rfl) fun hdown => ?_⟩
    obtain ⟨ino, e, ⟨k, hk, he⟩, -, hen, -⟩ := hnot.mp hdown
    have hle := ((h.tiled k hk).entry e he).name_le
    rw [hen] at hle
    exact hname hle

/-- A directory in whose inode and data blocks nothing has happened. -/
theorem GoodDir.frame (hlog : v.logBlockSize ≤ 5) (h : GoodDir v s n dir rows)
    (hf : Found s' n dir) (hodi : (s'.slot dir).odi = (s.slot dir).odi)
    (hblk : ∀ b, DataBlock v b → s'.blk b = s.blk b) : GoodDir v s' n dir rows := by
  have hbs := Volume.blockSize_bounds hlog
  have hroot : (nodeAt v s' n).block = (nodeAt v s n).block := by
    rw [hf.nodeAt, h.found.nodeAt, hodi]
  have hmap : MapOk v (nodeAt v s') s'.blk (· = n) := by
    refine h.map.prune fun m hm k p hp => .inr ⟨hm, ?_⟩
    cases hm
    exact h.map.keep rfl hroot hblk hp
  have htiled : DirRows v (contentAt v s' n) (s.slot dir).odi.size.toNat rows := by
    intro k hk
    refine (h.tiled k hk).congr fun j _ hj => ?_
    have hend := block_end_le hlog (UInt32.toNat_lt _) hk
    rw [Nat.add_mul, Nat.one_mul] at hend
    exact (h.map.keep_bytes hlog rfl hroot hblk (by omega)).2
  refine ⟨hf, h.on_volume, hmap, ?_, ?_⟩
  · rw [hodi]
    exact htiled
  · rw [hodi]
    exact h.wf

end Parent

/-! ## Up to `dirent_enter` -/

section Taking

variable {v : Volume} {env : Env} {s s' : Fs} {dirs : Nat → Bool} {held : List Nat}
  {n dir g j i : Nat} {rows : Nat → List Entry} {name : List UInt8} {mode : UInt16}

theorem onVolume_inoOf (hg : g < v.groupsCount) (hj : j < v.inodesPerGroup) :
    OnVolume v (inoOf v g j) := by
  have hle : (g + 1) * v.inodesPerGroup ≤ v.groupsCount * v.inodesPerGroup :=
    Nat.mul_le_mul_right _ hg
  rw [Nat.add_mul, Nat.one_mul] at hle
  unfold OnVolume inoOf
  omega

/-- `get_inode` fails only without a slot to recycle. -/
theorem getInode_cases (hv : Layout v) (hc : ListsOk s held) (hn : OnVolume v n) :
    (getInode v s n = .ok (s, none) ∧ s.unused = [] ∧ ∀ i, ¬ Cached s n i) ∨
      ((s.unused ≠ [] ∨ ∃ i, Cached s n i) ∧
        ∃ i s', getInode v s n = .ok (s', some i) ∧ GotInode v s n i s') := by
  have hb := bucketOf_eq (hn.lt hv)
  by_cases hcached : ∃ i, Cached s n i
  · obtain ⟨i, hi⟩ := hcached
    exact .inr ⟨.inr ⟨i, hi⟩, i, _, getInode_hit hc hn.ne_noEntry hb hi, .hit hi⟩
  have hnone : ∀ i, ¬ Cached s n i := fun i hi => hcached ⟨i, hi⟩
  cases hun : s.unused with
  | nil =>
    refine .inl ⟨?_, rfl, hnone⟩
    rw [getInode, bind_of_ok hb, (hc.search_none_iff hn.ne_noEntry).mpr hnone]
    simp only [hun]
    rfl
  | cons i rest =>
    have hhead : s.unused.head? = some i := by rw [hun, List.head?_cons]
    have hgroup := inodeGroup_lt hn
    refine .inr ⟨.inl (List.cons_ne_nil i rest), i, _, ?_, .load hnone hhead hgroup⟩
    rw [getInode_recycle hc hn.ne_noEntry hb hnone hhead, if_neg (by omega)]

/-- The state `new_inode` is called in: the inode bitmaps and the cache are in order,
and slot `dir` is held for inode `n`, a well-formed directory that is marked. -/
structure ParentOk (v : Volume) (s : Fs) (dirs : Nat → Bool) (held : List Nat) (n dir : Nat)
    (rows : Nat → List Entry) : Prop where
  inodes : InodeConsistent v s dirs
  lists : ListsOk s held
  held_dir : dir ∈ held
  parent : GoodDir v s n dir rows
  marked : Marked v s n

/-- The state in which the name is to be entered: inode `j` of group `g` is marked, and in
slot `i` of the cache; to the parent nothing has happened. -/
structure Written (v : Volume) (s t : Fs) (held : List Nat) (n dir g j i : Nat)
    (rows : Nat → List Entry) : Prop where
  parent : GoodDir v t n dir rows
  odi : (t.slot dir).odi = (s.slot dir).odi
  lists : ListsOk t (i :: held)
  ino : (t.slot i).ino = inoOf v g j
  marked : ibit v t g j = true

/-- `new_inode` from `dirent_enter` on, with the new inode in cache slot `i`. -/
def enterNew (v : Volume) (env : Env) (s : Fs) (dir : Nat) (name : List UInt8) (mode : UInt16)
    (i : Nat) : Except Fault (Fs × Except Errno Nat) := do
  let (s, sc) ← direntEnter v env s dir name (s.slot i).ino mode
  match sc with
  | .ok _ => return (s, .ok i)
  | .error e =>
    let s := inodeMarkdirty (s.setLinks i ((s.slot i).odi.linksCount - 1)) i
    return (← putInode v env s i, .error e)

/-- The slot of a free inode is not that of the parent. -/
theorem GotInode.ne_dir {t : Fs} (h : GotInode v t (inoOf v g j) i s')
    (hs : ParentOk v s dirs held n dir rows) (hc : ListsOk t held)
    (hslot : t.slot = s.slot) (hj : j < v.inodesPerGroup) (hclear : ibit v s g j = false) :
    dir ≠ i := by
  intro heq
  cases h with
  | hit hi =>
    have hino : (s.slot dir).ino = inoOf v g j := by
      rw [← hslot, heq]
      exact hi.2
    obtain ⟨h', j', hg', hj', hn, hset⟩ := hs.marked
    rw [hs.parent.found.ino, hn] at hino
    obtain ⟨rfl, rfl⟩ := inoOf_inj hj' hj hino
    rw [hclear] at hset
    cases hset
  | load _ hhead _ => exact (hc.head_free hhead).2.2 (heq ▸ hs.held_dir)

/-- Setting the new inode and writing it keeps to its slot and its record in the table. -/
theorem written_of_got (hv : Layout v) (env : Env) (hs : ParentOk v s dirs held n dir rows)
    (hg : g < v.groupsCount) (hj : FirstFree v s g j) {isDir : Bool} {u : Fs}
    (hgot : GotInode v (markInode v s g j isDir) (inoOf v g j) i u) {x : Inode}
    (hino : x.ino = (u.slot i).ino) (hcount : x.count = (u.slot i).count) :
    Written v s (wroteInode v env (u.setSlot i x) i) held n dir g j i rows := by
  have hvol := onVolume_inoOf hg hj.1
  have hmark : ListsOk (markInode v s g j isDir) held :=
    hs.lists.congr rfl rfl (fun _ => rfl) fun _ => rfl
  have hne : dir ≠ i := hgot.ne_dir hs hmark rfl hj.1 hj.2.1
  have hself : (u.setSlot i x).slot i = x := Function.update_self ..
  have hother : ∀ k, k ≠ i → (u.setSlot i x).slot k = u.slot k :=
    fun k hk => Function.update_of_ne hk ..
  have hx : x.ino = inoOf v g j := hino.trans (hgot.cached hmark).2
  -- the inode has its slot, which is not that of the parent
  have hset : ListsOk (u.setSlot i x) (i :: held) := by
    refine (hgot.lists hmark hvol.ne_noEntry).congr rfl rfl ?_ ?_
    · intro k
      by_cases hk : k = i
      · rw [hk, hself, hino]
      · rw [hother k hk]
    · intro k
      by_cases hk : k = i
      · rw [hk, hself, hcount]
      · rw [hother k hk]
  have hlists : ListsOk (wroteInode v env (u.setSlot i x) i) (i :: held) :=
    wroteInode_lists hset env i
  have hslot : (wroteInode v env (u.setSlot i x) i).slot dir = s.slot dir := by
    rw [wroteInode_slot, if_neg hne, hother dir hne, hgot.slot_ne hne]
    rfl
  have hblk : ∀ b, b ≠ v.inodeTableBlock (inoOf v g j) →
      (wroteInode v env (u.setSlot i x) i).blk b = (markInode v s g j isDir).blk b := by
    intro b hb
    rw [wroteInode_blk_ne (by rw [hself, hx]; exact hb), ← hgot.blk]
    rfl
  have hfound : Found (wroteInode v env (u.setSlot i x) i) n dir := by
    refine (hlists.search_iff hs.parent.on_volume.ne_noEntry).mpr ⟨?_, ?_⟩
    · exact (hs.lists.held_mem dir hs.held_dir).1
    · rw [hslot, hs.parent.found.ino]
  refine ⟨?_, congrArg Inode.odi hslot, hlists, ?_, ?_⟩
  · refine hs.parent.frame hv.log_le hfound (congrArg Inode.odi hslot) fun b hb => ?_
    -- no block of the parent is a bitmap or in the inode table
    have htable : b ≠ v.inodeTableBlock (inoOf v g j) := fun he =>
      hb.2.2 (he ▸ inodeTableBlock_system hv hvol)
    have hbitmap : b ≠ v.inodeBitmap g := fun he => hb.2.2 (.inr ⟨g, hg, .inr (.inl he)⟩)
    rw [hblk b htable]
    exact Function.update_of_ne hbitmap ..
  · rw [wroteInode_ino, hself, hx]
  · rw [ibit, hblk _ (inodeTableBlock_ne_inode_bitmap hv hvol hg)]
    exact (ibit_markInode hv.toInodeGeom hg hg).trans (if_pos ⟨rfl, rfl⟩)

/-- What `new_inode` writes: the inode as `alloc_inode` sets it, with one link. -/
def linkedInode (x : Inode) (mode uid gid : UInt16) : Inode :=
  { initInode x mode uid gid with
    odi := { (initInode x mode uid gid).odi with linksCount := 1 } }

theorem setLinks_initInode (u : Fs) (i : Nat) (mode uid gid : UInt16) :
    (u.setSlot i (initInode (u.slot i) mode uid gid)).setLinks i
        (((u.setSlot i (initInode (u.slot i) mode uid gid)).slot i).odi.linksCount + 1) =
      u.setSlot i (linkedInode (u.slot i) mode uid gid) := by
  have hzero : ((u.setSlot i (initInode (u.slot i) mode uid gid)).slot i).odi.linksCount = 0 := by
    simp [Fs.setSlot, initInode]
  rw [hzero]
  simp [Fs.setLinks, Fs.modOdi, Fs.setSlot, linkedInode]

/-- Once an inode is to be had, `new_inode` takes the first one of the group; without a
cache slot for it, it gives it back at once. -/
theorem newInode_taken (hv : Layout v) (hs : ParentOk v s dirs held n dir rows)
    (hrefuse : refuseName v s dir name mode = .ok none)
    (hgroup : findFreeInodeGroup v env s n mode = .ok (some g)) (hg : g < v.groupsCount)
    (hfree : (s.gd g).freeInodesCount ≠ 0) (uid gid : UInt16) :
    ∃ j, FirstFree v s g j ∧
      ((s.unused = [] ∧ (∀ i, ¬ Cached s (inoOf v g j) i) ∧
          newInode (inodeCalls v env) v env s dir name mode uid gid =
            (freeInodeBit v (markInode v s g j (sIsDir mode)) (inoOf v g j) (sIsDir mode)).map
              fun s' => (s', .error .eio)) ∨
        ((s.unused ≠ [] ∨ ∃ i, Cached s (inoOf v g j) i) ∧
          ∃ i t, Written v s t held n dir g j i rows ∧
            newInode (inodeCalls v env) v env s dir name mode uid gid =
              enterNew v env t dir name mode i)) := by
  obtain ⟨j, hj, halloc⟩ := allocInodeBit_first hv.toInodeGeom hs.inodes hg hfree (sIsDir mode)
  have hvol := onVolume_inoOf hg hj.1
  have hmark : ListsOk (markInode v s g j (sIsDir mode)) held :=
    hs.lists.congr rfl rfl (fun _ => rfl) fun _ => rfl
  refine ⟨j, hj, ?_⟩
  rw [newInode, bind_of_ok hrefuse]
  dsimp only
  rw [allocInode, hs.parent.found.ino, bind_of_ok hgroup]
  dsimp only
  rw [bind_of_ok halloc]
  dsimp only
  rw [if_neg hvol.ne_noEntry]
  rcases getInode_cases hv hmark hvol with ⟨hget, hunused, hnone⟩ | ⟨hroom, i, u, hget, hgot⟩
  · -- no slot is to be had: the inode is given back at once
    refine .inl ⟨hunused, hnone, ?_⟩
    have hget' : (inodeCalls v env).get (markInode v s g j (sIsDir mode)) (inoOf v g j) =
        .ok (markInode v s g j (sIsDir mode), none) := hget
    rw [bind_of_ok hget']
    cases freeInodeBit v (markInode v s g j (sIsDir mode)) (inoOf v g j) (sIsDir mode) <;> rfl
  · refine .inr ⟨hroom, i, ?_⟩
    have hget' : (inodeCalls v env).get (markInode v s g j (sIsDir mode)) (inoOf v g j) =
        .ok (u, some i) := hget
    rw [bind_of_ok hget']
    dsimp only
    -- the inode is set and linked in its slot before it is written
    have hwritten := written_of_got hv env hs hg hj hgot
      (x := linkedInode (u.slot i) mode uid gid) rfl rfl
    have hino : (u.setSlot i (linkedInode (u.slot i) mode uid gid)).slot i =
        linkedInode (u.slot i) mode uid gid := Function.update_self ..
    refine ⟨_, hwritten, ?_⟩
    rw [pure_bind]
    dsimp only
    rw [setLinks_initInode, bind_of_ok (writeInode_eq ?_)]
    · rfl
    · rw [hino]
      exact (hgot.cached hmark).2 ▸ hvol

/-! ## No way back -/

/-- Whatever `put_inode` does with an inode, the bit of the inode stays as it is. -/
theorem PutInode.keeps_bit (hv : Layout v) (h : PutInode v env s i s') (hg : g < v.groupsCount)
    (hj : j < v.inodesPerGroup) (hino : (s.slot i).ino = inoOf v g j) :
    ibit v s' g j = ibit v s g j := by
  have hvol : OnVolume v (s.slot i).ino := hino ▸ onVolume_inoOf hg hj
  have htable := inodeTableBlock_ne_inode_bitmap hv hvol hg
  cases h with
  | keep _ _ =>
    show bitAt v.beCpu ((flushedInode v env s i).blk (v.inodeBitmap g)) j = _
    unfold flushedInode
    split
    · rw [wroteInode_blk_ne htable]
      rfl
    · rfl
  | release _ _ _ _ =>
    have hfreed : ((freedInode v s i).slot i).ino = (s.slot i).ino := by
      rw [freedInode_slot, if_pos rfl]
    show bitAt v.beCpu ((wroteInode v env (freedInode v s i) i).blk (v.inodeBitmap g)) j = _
    rw [wroteInode_blk_ne (by rw [hfreed]; exact htable), freedInode]
    split
    · rfl
    · rw [hino]
      exact ibit_unmarkInode_self (sIsDir (s.slot i).odi.mode) hj

/-- The name goes in if it is not too long and there is room for it, and otherwise
nothing happens. -/
theorem Written.enter {t : Fs} (hv : Layout v) (hbe : v.beCpu = false)
    (h : Written v s t held n dir g j i rows) (hg : g < v.groupsCount)
    (hj : j < v.inodesPerGroup) (env : Env) (name : List UInt8) (mode : UInt16) :
    (¬(name.length ≤ nameMax ∧ HasRoom v (s.slot dir).odi.size.toNat rows name) ∧
      ∃ e, direntEnter v env t dir name (t.slot i).ino mode = .ok (t, .error e)) ∨
    ((name.length ≤ nameMax ∧ HasRoom v (s.slot dir).odi.size.toNat rows name) ∧
      ∃ u, direntEnter v env t dir name (t.slot i).ino mode = .ok (u, .ok ())) := by
  have hvol : OnVolume v (t.slot i).ino := h.ino ▸ onVolume_inoOf hg hj
  have hlt : (t.slot i).ino < 2 ^ 32 := by
    have := hvol.lt hv
    omega
  by_cases hname : name.length ≤ nameMax
  · have hlive : ∀ m, m = n → OnVolume v m := fun m hm => hm ▸ h.parent.on_volume
    rcases direntEnter_rows hv hbe hlive h.parent.map rfl h.parent.found h.parent.tiled hname hlt
      env mode with ⟨hrun, hfull⟩ | ⟨u, k, es, hrun, hk, hent, -, -⟩
    · rw [h.odi] at hfull
      exact .inl ⟨fun ⟨_, e, he, hroom⟩ => hfull e he hroom, _, hrun⟩
    · obtain ⟨e, he, hroom⟩ := hent.room
      rw [h.odi] at hk
      exact .inr ⟨⟨hname, e, ⟨k, hk, he⟩, hroom⟩, u, hrun⟩
  · refine .inl ⟨fun hfits => hname hfits.1, .enametoolong, ?_⟩
    rw [direntEnter, if_pos (by omega)]

/-- When the name has not gone in, the inode is still marked in the end, and in the other slots
of the cache nothing has happened. -/
theorem Written.late {t : Fs} (hv : Layout v) (h : Written v s t held n dir g j i rows)
    (hg : g < v.groupsCount) (hj : j < v.inodesPerGroup) {e : Errno}
    (henter : direntEnter v env t dir name (t.slot i).ino mode = .ok (t, .error e))
    {r : Except Errno Nat} (hrun : enterNew v env t dir name mode i = .ok (s', r)) :
    (r = .error e ∧ ibit v s' g j = true) ∧ ∀ k, k ≠ i → s'.slot k = t.slot k := by
  rw [enterNew, bind_of_ok henter] at hrun
  dsimp only at hrun
  obtain ⟨u, hput, hrun⟩ := ok_of_bind hrun
  cases hrun
  have hino : ∀ k, ((inodeMarkdirty (t.setLinks i ((t.slot i).odi.linksCount - 1)) i).slot k).ino =
      (t.slot k).ino := by
    intro k
    by_cases hk : k = i
    · simp [hk, inodeMarkdirty, Fs.setLinks, Fs.modOdi, Fs.setSlot]
    · simp [hk, inodeMarkdirty, Fs.setLinks, Fs.modOdi, Fs.setSlot]
  have hcount : ∀ k,
      ((inodeMarkdirty (t.setLinks i ((t.slot i).odi.linksCount - 1)) i).slot k).count =
        (t.slot k).count := by
    intro k
    by_cases hk : k = i
    · simp [hk, inodeMarkdirty, Fs.setLinks, Fs.modOdi, Fs.setSlot]
    · simp [hk, inodeMarkdirty, Fs.setLinks, Fs.modOdi, Fs.setSlot]
  have hlists : ListsOk (inodeMarkdirty (t.setLinks i ((t.slot i).odi.linksCount - 1)) i)
      (i :: held) := h.lists.congr rfl rfl hino hcount
  have hput := putInode_ok hlists List.mem_cons_self hput
  refine ⟨⟨rfl, (hput.keeps_bit hv hg hj ((hino i).trans h.ino)).trans h.marked⟩, fun k hk => ?_⟩
  rw [hput.slot_ne hk]
  simp [inodeMarkdirty, Fs.setLinks, Fs.modOdi, Fs.setSlot, hk]

end Taking

/-! ## The whole call -/

/-- Nothing is left of a call: the bitmaps, the counters, the records of the directory and
the numbers of links and references are as they were. -/
structure Undone (v : Volume) (s s' : Fs) (n dir : Nat) (rows : Nat → List Entry) : Prop where
  inode_bits : ∀ g i, g < v.groupsCount → i < v.inodesPerGroup → ibit v s' g i = ibit v s g i
  block_bits : ∀ g i, g < v.groupsCount → i < v.blocksPerGroup → bbit v s' g i = bbit v s g i
  counters : s'.freeInodesCount = s.freeInodesCount ∧ s'.freeBlocksCount = s.freeBlocksCount ∧
    s'.dirsCounter = s.dirsCounter
  gd : ∀ g, g < v.groupsCount → s'.gd g = s.gd g
  size : (s'.slot dir).odi.size = (s.slot dir).odi.size
  records : DirRows v (contentAt v s' n) (s.slot dir).odi.size.toNat rows
  links : ∀ m, OnVolume v m → (nodeAt v s' m).linksCount = (nodeAt v s m).linksCount
  counts : ∀ i, i < nrInodes → (s'.slot i).count = (s.slot i).count

/-- `new_inode` returns, and if it fails nothing is left of it. -/
def RollsBack (v : Volume) (env : Env) (s : Fs) (n dir : Nat) (rows : Nat → List Entry)
    (name : List UInt8) (mode uid gid : UInt16) : Prop :=
  ∃ s' r, newInode (inodeCalls v env) v env s dir name mode uid gid = .ok (s', r) ∧
    ∀ e, r = .error e → Undone v s s' n dir rows

/-- Nothing goes wrong with an inode of group `g`: the group has one, there is a cache slot
for it, and the name is not too long and has room in the directory. -/
structure Fits (v : Volume) (s : Fs) (dir : Nat) (rows : Nat → List Entry) (name : List UInt8)
    (g : Nat) : Prop where
  free : (s.gd g).freeInodesCount ≠ 0
  slot : s.unused ≠ [] ∨ ∃ j i, FirstFree v s g j ∧ Cached s (inoOf v g j) i
  length_le : name.length ≤ nameMax
  room : HasRoom v (s.slot dir).odi.size.toNat rows name

section Call

variable {v : Volume} {s : Fs} {dirs : Nat → Bool} {held : List Nat} {n dir g : Nat}
  {rows : Nat → List Entry} {name : List UInt8} {mode : UInt16}

theorem GoodDir.undone (h : GoodDir v s n dir rows) : Undone v s s n dir rows where
  inode_bits _ _ _ _ := rfl
  block_bits _ _ _ _ := rfl
  counters := ⟨rfl, rfl, rfl⟩
  gd _ _ := rfl
  size := rfl
  records := h.tiled
  links _ _ := rfl
  counts _ _ := rfl

/-- Once a group has been found, the call succeeds or does not roll back. -/
theorem newInode_late (hv : Layout v) (hbe : v.beCpu = false)
    (hs : ParentOk v s dirs held n dir rows) (hrefuse : refuseName v s dir name mode = .ok none)
    {env : Env} (hgroup : findFreeInodeGroup v env s n mode = .ok (some g))
    (hg : g < v.groupsCount) (uid gid : UInt16) :
    RollsBack v env s n dir rows name mode uid gid ↔ Fits v s dir rows name g := by
  by_cases hfree : (s.gd g).freeInodesCount = 0
  · -- the group is one `find_free_inode_file_group` has not looked at
    refine iff_of_false ?_ fun hfits => hfits.free hfree
    intro hrolls
    obtain ⟨s', r, hrun, -⟩ := hrolls
    have halloc : allocInodeBit v s g (sIsDir mode) = .error (.panic
        "extfs: group desc reports no free inodes but earlier search reported it does") := by
      rw [allocInodeBit, if_neg (by omega), if_pos hfree]
    rw [newInode, bind_of_ok hrefuse] at hrun
    dsimp only at hrun
    rw [allocInode, hs.parent.found.ino, bind_of_ok hgroup] at hrun
    dsimp only at hrun
    rw [halloc] at hrun
    cases hrun
  obtain ⟨j, hj, htaken⟩ := newInode_taken hv hs hrefuse hgroup hg hfree uid gid
  -- a state in which the inode is still marked is not the one before
  have hnot : ∀ s', ibit v s' g j = true → ¬ Undone v s s' n dir rows := by
    intro s' hset hundone
    rw [hundone.inode_bits g j hg hj.1, hj.2.1] at hset
    cases hset
  rcases htaken with ⟨hunused, hnone, hnew⟩ | ⟨hroom, i, t, hw, hnew⟩
  · refine iff_of_false ?_ ?_
    · intro hrolls
      obtain ⟨s', r, hrun, hundone⟩ := hrolls
      rw [hnew] at hrun
      cases hbit : freeInodeBit v (markInode v s g j (sIsDir mode)) (inoOf v g j)
          (sIsDir mode) with
      | error e =>
        rw [hbit] at hrun
        cases hrun
      | ok u =>
        rw [hbit] at hrun
        cases hrun
        refine hnot s' ?_ (hundone _ rfl)
        rw [freeInodeBit_keeps_bit hj.1 hbit, ibit_markInode hv.toInodeGeom hg hg,
          if_pos ⟨rfl, rfl⟩]
    · intro hfits
      rcases hfits.slot with h | ⟨j', i, hj', hi⟩
      · exact h hunused
      · rw [hj'.unique hj] at hi
        exact hnone i hi
  · have hslot : s.unused ≠ [] ∨ ∃ j i, FirstFree v s g j ∧ Cached s (inoOf v g j) i := by
      refine hroom.imp_right fun h => ?_
      obtain ⟨i, hi⟩ := h
      exact ⟨j, i, hj, hi⟩
    rcases hw.enter hv hbe hg hj.1 env name mode with ⟨hfull, e, henter⟩ | ⟨⟨hname, hspace⟩, u,
      henter⟩
    · refine iff_of_false ?_ fun hfits => hfull ⟨hfits.length_le, hfits.room⟩
      intro hrolls
      obtain ⟨s', r, hrun, hundone⟩ := hrolls
      rw [hnew] at hrun
      obtain ⟨⟨rfl, hset⟩, -⟩ := hw.late hv hg hj.1 henter hrun
      exact hnot s' hset (hundone e rfl)
    · refine iff_of_true ⟨u, .ok i, ?_, fun e he => by cases he⟩ ⟨hfree, hslot, hname, hspace⟩
      rw [hnew, enterNew, bind_of_ok henter]
      rfl

/-- `new_inode` leaves nothing behind when it fails, and does not panic, if and only if it
turns the name down, finds no group, or nothing can go wrong with the inode it takes. -/
theorem newInode_rollsBack_iff (hv : Layout v) (hbe : v.beCpu = false)
    (hs : ParentOk v s dirs held n dir rows) (env : Env) (name : List UInt8)
    (mode uid gid : UInt16) :
    RollsBack v env s n dir rows name mode uid gid ↔
      TurnedDown v s dir rows name mode ∨
        ∀ g, findFreeInodeGroup v env s n mode = .ok (some g) → Fits v s dir rows name g := by
  obtain ⟨r, hrefuse, hdown⟩ := hs.parent.refuseName_iff hv.log_le hbe name mode
  cases r with
  | some e =>
    refine iff_of_true ⟨s, .error e, ?_, fun _ _ => hs.parent.undone⟩ (.inl (hdown.mp nofun))
    rw [newInode, bind_of_ok hrefuse]
    rfl
  | none =>
    rw [or_iff_right fun h => hdown.mpr h rfl]
    obtain ⟨r, hgroup, hlt⟩ := findFreeInodeGroup_ok hv env s hs.parent.on_volume mode
    cases r with
    | none =>
      refine iff_of_true ⟨s, .error .enospc, ?_, fun _ _ => hs.parent.undone⟩ fun g hg => ?_
      · rw [newInode, bind_of_ok hrefuse]
        dsimp only
        rw [allocInode, hs.parent.found.ino, bind_of_ok hgroup]
        rfl
      · rw [hgroup] at hg
        cases hg
    | some g =>
      rw [newInode_late hv hbe hs hrefuse hgroup (hlt g rfl)]
      constructor
      · intro hfits g' hg'
        rw [hgroup] at hg'
        cases hg'
        exact hfits
      · intro hfits
        exact hfits g hgroup

/-! ### The root directory of the small volume -/

theorem sampleDirFs_lists : ListsOk sampleDirFs [0] := by
  have hload := loadState_lists (v := sampleVolume) (initInodeCache_lists sampleFs) (n := rootIno)
    (i := 0) (by decide) (fun _ hj => nomatch hj.2) rfl
  refine hload.congr rfl rfl (fun i => ?_) fun i => ?_
  · rw [loadState_slot]
    show (if i = 0 then _ else emptySlot).ino = _
    split <;> rfl
  · rw [loadState_slot]
    show (if i = 0 then _ else emptySlot).count = _
    split <;> rfl

theorem sampleDirFs_parentOk :
    ParentOk sampleVolume sampleDirFs (fun n => n == rootIno) [0] 2 0 sampleRows where
  inodes :=
    have h := sampleFs_inodeConsistent
    ⟨h.free_count, h.free_sum, h.dirs_count, h.dirs_sum, h.dirs_set, h.reserved, h.past⟩
  lists := sampleDirFs_lists
  held_dir := List.mem_singleton_self 0
  parent := sampleDirFs_good
  marked := ⟨0, 1, by decide, by decide, by decide, by decide⟩

/-- `newInode_rollsBack_iff` at the root directory: it has the name. -/
theorem newInode_rollsBack_sample :
    RollsBack sampleVolume sampleEnv sampleDirFs 2 0 sampleRows [0x2E] 0x81A4 0 0 :=
  (newInode_rollsBack_iff sampleVolume_layout rfl sampleDirFs_parentOk sampleEnv [0x2E] 0x81A4
    0 0).mpr (.inl (.inr (.inr
      ⟨2, ⟨0, 12, 2, [0x2E]⟩, ⟨0, by decide, by decide⟩, by decide, rfl, rfl⟩)))

/-! ### A full root directory -/

/-- The blocks of the small volume with a file of two names, inode 11, in its root
directory; what is left in the block is too little for a name of 255 bytes. -/
def sampleCrowdedBlk (b : Nat) : Buf :=
  match b with
  | 6 => fun i => match i with
    | 256 => 0xA4 | 257 => 0x81 | 282 => 2 | _ => 0
  | 9 => fun i =>
    if 32 ≤ i ∧ i < 287 then 0x61
    else if 532 ≤ i ∧ i < 787 then 0x62
    else match i with
      | 0 => 2 | 4 => 12 | 6 => 1 | 7 => 2 | 8 => 0x2E
      | 12 => 2 | 16 => 12 | 18 => 2 | 19 => 2 | 20 => 0x2E | 21 => 0x2E
      | 24 => 11 | 28 => 0xF4 | 29 => 0x01 | 30 => 255 | 31 => 1
      | 524 => 11 | 528 => 0xF4 | 529 => 0x01 | 530 => 255 | 531 => 1 | _ => 0
  | b => sampleBlk b

/-- The small volume with that root directory in slot 0 of the cache. -/
def sampleCrowdedFs : Fs :=
  markInode sampleVolume { sampleDirFs with blk := sampleCrowdedBlk } 0 10 false

/-- The entries of the root directory. -/
def sampleCrowdedRows (_ : Nat) : List Entry :=
  [⟨0, 12, 2, [0x2E]⟩, ⟨12, 12, 2, [0x2E, 0x2E]⟩, ⟨24, 500, 11, List.replicate 255 0x61⟩,
    ⟨524, 500, 11, List.replicate 255 0x62⟩]

theorem sampleCrowdedFs_good : GoodDir sampleVolume sampleCrowdedFs 2 0 sampleCrowdedRows := by
  have hgd : ∀ g, (sampleCrowdedFs.gd g).freeBlocksCount = (sampleFs.gd g).freeBlocksCount := by
    intro g
    by_cases hg : g = 0
    · rw [hg]
      rfl
    · exact congrArg GroupDesc.freeBlocksCount (Function.update_of_ne hg ..)
  have hblock : OneBlock sampleVolume sampleCrowdedFs (· = 2) 2 9 := by
    rintro m rfl
    decide
  have hfiles : FilesOk sampleVolume sampleCrowdedFs (· = 2) :=
    filesOk_single (fun m hm => hm ▸ ⟨by decide, by decide⟩)
      (sampleFs_blockConsistent.congr hgd rfl fun _ _ => rfl) hblock
      ⟨by decide, by decide, by decide⟩ ⟨0, 8, by decide, by decide, by decide, by decide⟩
  have hfirst : ∀ k, k * sampleVolume.blockSize < (sampleCrowdedFs.slot 0).odi.size.toNat →
      k = 0 := by
    intro k hk
    rw [show sampleVolume.blockSize = 1024 by decide,
      show (sampleCrowdedFs.slot 0).odi.size.toNat = 1024 by decide] at hk
    omega
  have hentry : ∀ e ∈ sampleCrowdedRows 0,
      EntryAt (blockBytes sampleVolume (contentAt sampleVolume sampleCrowdedFs 2) 0) e := by
    refine List.forall_mem_cons.mpr ⟨⟨?_, ?_, ?_, ?_⟩, List.forall_mem_cons.mpr ⟨⟨?_, ?_, ?_, ?_⟩,
      List.forall_mem_cons.mpr ⟨⟨?_, ?_, ?_, ?_⟩, List.forall_mem_singleton.mpr
        ⟨?_, ?_, ?_, ?_⟩⟩⟩⟩
    all_goals decide +kernel
  refine ⟨rfl, ⟨by decide, by decide⟩, hfiles.map, fun k hk => ?_, ?_, ?_, ?_⟩
  · rw [hfirst k hk]
    refine ⟨⟨rfl, by decide, rfl, by decide, rfl, by decide, rfl, by decide, ?_⟩, hentry, ?_⟩
    · show (1024 : Nat) = sampleVolume.blockSize
      decide
    · refine List.forall_mem_cons.mpr ⟨⟨by decide, by decide⟩, List.forall_mem_cons.mpr
        ⟨⟨by decide, by decide⟩, List.forall_mem_cons.mpr ⟨⟨?_, ?_⟩,
          List.forall_mem_singleton.mpr ⟨?_, ?_⟩⟩⟩⟩
      all_goals decide +kernel
  · rintro e ⟨k, -, he⟩ -
    have hnames : ∀ e ∈ sampleCrowdedRows 0, e.name ≠ [] := by decide +kernel
    exact hnames e he
  · intro j k x y hj hk hx hy _ _ hname
    have hnames : ∀ x ∈ sampleCrowdedRows 0, ∀ y ∈ sampleCrowdedRows 0, x.name = y.name → x = y := by
      decide +kernel
    exact ⟨(hfirst j hj).trans (hfirst k hk).symm, hnames x hx y hy hname⟩
  · intro k _ e he h0
    have hlive : ∀ e ∈ sampleCrowdedRows 0, e.ino ≠ 0 := by decide +kernel
    exact absurd h0 (hlive e he)

theorem sampleCrowdedFs_parentOk :
    ParentOk sampleVolume sampleCrowdedFs
      (Function.update (fun n => n == rootIno) (inoOf sampleVolume 0 10) false) [0] 2 0
      sampleCrowdedRows where
  inodes :=
    have h := sampleFs_inodeConsistent
    have h' : InodeConsistent sampleVolume { sampleDirFs with blk := sampleCrowdedBlk }
        fun n => n == rootIno :=
      ⟨h.free_count, h.free_sum, h.dirs_count, h.dirs_sum, h.dirs_set, h.reserved, h.past⟩
    markInode_consistent sampleVolume_inodeGeom h' (by decide) (by decide) (by decide) nofun
  lists := sampleDirFs_lists.congr rfl rfl (fun _ => rfl) fun _ => rfl
  held_dir := List.mem_singleton_self 0
  parent := sampleCrowdedFs_good
  marked := ⟨0, 1, by decide, by decide, by decide, by decide⟩

/-- Without room for a name, `new_inode` takes inode 12, and `free_inode_bit (12)` asks
`clear_bit` for the bit of inode 13, which is clear. -/
theorem newInode_crowded :
    ParentOk sampleVolume sampleCrowdedFs
        (Function.update (fun n => n == rootIno) (inoOf sampleVolume 0 10) false) [0] 2 0
        sampleCrowdedRows ∧
      ¬ RollsBack sampleVolume sampleEnv sampleCrowdedFs 2 0 sampleCrowdedRows
        (List.replicate 255 0x63) 0x81A4 0 0 := by
  refine ⟨sampleCrowdedFs_parentOk, ?_⟩
  intro ⟨s', r, hrun, _⟩
  have hfault : faultOf (newInode (inodeCalls sampleVolume sampleEnv) sampleVolume sampleEnv
      sampleCrowdedFs 0 (List.replicate 255 0x63) 0x81A4 0 0) =
        some (.panic "Tried to free unused inode %d") := by decide +kernel
  rw [hrun] at hfault
  cases hfault

end Call

end Cheviot.Ext2
