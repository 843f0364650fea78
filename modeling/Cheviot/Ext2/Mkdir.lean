import Cheviot.Ext2.Refused

/-!
# What `ext2_mkdir` leaves behind

`ext2_mkdir` enters "." and ".." with `dirent_enter` in a directory that has no block yet.
Neither can go in, so the name is taken out of the parent again, the new inode goes back,
and the reply says that all is well.

* `newInode_empties` — the inode that `new_inode` gives has no size.
* `ext2Mkdir_empty` — nor has it when the reply is sent.
* `mkdirOk_iff` — the reply is right exactly when the request is turned down before an
  inode is taken.
-/

namespace Cheviot.Ext2

open Cheviot.Bytes Cheviot.Rows Cheviot.Run

/-! ## What stays -/

section Stays

variable {v : Volume} {env : Env} {s s' : Fs} {held : List Nat} {n i : Nat}

/-- Whatever `put_inode` does, it changes no size. -/
theorem PutInode.size (h : PutInode v env s i s') (j : Nat) :
    (s'.slot j).odi.size = (s.slot j).odi.size := by
  by_cases hj : j = i
  · subst hj
    have htimed : ∀ x : Inode, (timed v env x).odi.size = x.odi.size := fun x => by
      have hsize := congrArg OndiskInode.size (untimed_timed v env x)
      exact hsize
    cases h with
    | keep _ _ =>
      rw [dropRef_odi]
      unfold flushedInode
      split
      · rw [wroteInode_slot, if_pos rfl]
        exact htimed _
      · rfl
    | release _ _ _ _ =>
      rw [releasedState_slot, if_pos rfl]
      refine (htimed _).trans ?_
      rw [freedInode_slot, if_pos rfl]
  · rw [h.slot_ne hj]

/-- Nor does it in the table, when the inode is released. -/
theorem PutInode.node_size (hv : Layout v) (hc : ListsOk s held) (hi : i ∈ held)
    (h : PutInode v env s i s') :
    (nodeAt v s' (s.slot i).ino).size = (s.slot i).odi.size := by
  obtain ⟨hlt, hne⟩ := hc.held_mem i hi
  have hl' := h.lists hc hi
  cases h with
  | keep _ _ =>
    have hcached : Cached (dropRef (flushedInode v env s i) i) (s.slot i).ino i := by
      refine ⟨hlt, ?_⟩
      rw [dropRef_ino, flushedInode_ino]
    rw [hl'.nodeAt_cached hne hcached, dropRef_odi]
    unfold flushedInode
    split
    · rw [wroteInode_slot, if_pos rfl]
      have hsize := congrArg OndiskInode.size (untimed_timed v env (s.slot i))
      exact hsize
    · rfl
  | release _ _ _ hgroup =>
    have hvol := onVolume_of_group hv hne hgroup
    have hnone : ∀ j, ¬ Cached (releasedState v env s i) (s.slot i).ino j := by
      rintro j ⟨hj, hjn⟩
      rw [releasedState_ino] at hjn
      by_cases hji : j = i
      · rw [if_pos hji] at hjn
        exact hne hjn.symm
      · rw [if_neg hji] at hjn
        exact hji (hc.ino_inj j i hj hlt hjn (by rw [hjn]; exact hne))
    rw [hl'.nodeAt_uncached hne hnone, diskInode_releasedState hv env hvol hvol, if_pos rfl]
    have hsize := congrArg OndiskInode.size (untimed_timed v env ((freedInode v s i).slot i))
    refine Eq.trans hsize ?_
    show ((freedInode v s i).slot i).odi.size = _
    rw [freedInode_slot, if_pos rfl]

/-- `dirent_delete` changes no size. -/
theorem direntDelete_size (s : Fs) (i : Nat) (name : List UInt8) (j : Nat) :
    Ends (direntDelete v env s i name) fun r => (r.1.slot j).odi.size = (s.slot j).odi.size := by
  unfold direntDelete
  split
  · exact .ok rfl
  refine Ends.bind (Ends.self _) fun r _ => ?_
  cases r with
  | none => exact .pure rfl
  | some found =>
    refine Ends.bind (P := fun t : Fs => (t.slot j).odi.size = (s.slot j).odi.size) ?_
      fun t ht => .pure ht
    unfold deleteDirEntry
    refine (writeInode_size _ i j).mono fun t ht => ht.trans ?_
    by_cases hj : j = i
    · subst hj
      simp [Fs.setSlot, Fs.writeBlk, Fs.setBlk]
    · simp [Fs.setSlot, Fs.writeBlk, Fs.setBlk, hj]

/-- A directory without a block has no entry. -/
theorem lookupDir_empty {blk : Nat → Buf} {odi : OndiskInode} (hsize : odi.size = 0)
    {name : List UInt8} (hname : name.length ≤ nameMax) :
    lookupDir v blk odi name = .ok (.error .enoent) := by
  have hwalk : walkBlocks v blk odi "lookup_dir found a hole in a directory"
      (fun block => lookupDirBlock v (blk block) name) = .ok none := by
    have hpos : ¬ 0 < odi.size.toNat := by
      rw [hsize]
      decide
    rw [walkBlocks, walkDir, if_neg hpos]
  rw [lookupDir, if_neg (Nat.not_lt.mpr hname), bind_of_ok hwalk]
  rfl

end Stays

/-! ## The new directory -/

/-- Directory `m` has been made in directory `n`, under the name. -/
structure MadeDir (v : Volume) (s s' : Fs) (n : Nat) (name : List UInt8) (m : Nat) : Prop where
  named : lookupDir v s'.blk (nodeAt v s' n) name = .ok (.ok m)
  marked : Marked v s' m
  dir : sIsDir (nodeAt v s' m).mode = true
  links : (nodeAt v s' m).linksCount = 2
  self : lookupDir v s'.blk (nodeAt v s' m) [0x2E] = .ok (.ok m)
  parent : lookupDir v s'.blk (nodeAt v s' m) [0x2E, 0x2E] = .ok (.ok n)
  grown : (nodeAt v s' n).linksCount = (nodeAt v s n).linksCount + 1

/-- The reply to `ext2_mkdir` is right: the directory has been made, or the request is turned
down and has changed nothing. -/
def MkdirOk (v : Volume) (env : Env) (s : Fs) (n : Nat) (name : List UInt8)
    (mode uid gid : UInt16) : Prop :=
  ∃ s' reply, ext2Mkdir (inodeCalls v env) v env s n name mode uid gid = .ok (s', reply) ∧
    ((∃ r, reply = .inode r ∧ MadeDir v s s' n name r.ino) ∨
      ∃ e, reply = .err e ∧ Unchanged v s s')

section Mkdir

variable {v : Volume} {env : Env} {s s₁ : Fs} {counted : Nat → Bool} {n dir i : Nat}
  {rows : Nat → List Entry} {name : List UInt8} {mode uid gid : UInt16}

/-- `ext2_mkdir`, with the parent in slot `dir`, once it has an empty inode for the directory:
the inode is still empty when the reply is sent. -/
theorem mkdirRest_empty {u : Fs} (hv : Layout v) (hl : ListsOk u [i, dir])
    (hsize : (u.slot i).odi.size = 0) :
    Ends (linkDots v env u dir i name false >>= fun w =>
      putInode v env (inodeMarkdirty w i) dir >>= fun y =>
        putInode v env y i >>= fun z => pure (z, Reply.inode (inodeReply (y.slot i)))) fun r =>
      ∃ m, r.2 = .inode m ∧ (nodeAt v r.1 m.ino).size = 0 := by
  -- the new directory gets no block: the two names could not be entered
  have hlink : Ends (linkDots v env u dir i name false) fun w =>
      ListsSame u (inodeMarkdirty w i) ∧ ((inodeMarkdirty w i).slot i).odi.size = 0 := by
    rw [linkDots, if_neg Bool.false_ne_true]
    intro w hw
    obtain ⟨r, hdelete, hw⟩ := ok_of_bind hw
    obtain ⟨t, sc⟩ := r
    cases sc with
    | error e => cases hw
    | ok _ =>
      cases hw
      have hsame := direntDelete_keepsLists u dir name _ hdelete
      have hkept := direntDelete_size u dir name i _ hdelete
      have hmark : inodeMarkdirty (t.setLinks i ((t.slot i).odi.linksCount - 1)) i =
          t.setSlot i { t.slot i with
            odi := { (t.slot i).odi with linksCount := (t.slot i).odi.linksCount - 1 }
            dirty := true } := by
        simp [inodeMarkdirty, Fs.setLinks, Fs.modOdi, Fs.setSlot]
      rw [hmark]
      refine ⟨ListsSame.trans hsame (.setSlot t rfl rfl), ?_⟩
      simpa [Fs.setSlot] using hkept.trans hsize
  refine .bind hlink fun w hw => ?_
  obtain ⟨hsame, hempty⟩ := hw
  refine .bind (Ends.self _) fun y hput => ?_
  have hlw : ListsOk (inodeMarkdirty w i) [i, dir] := hl.same hsame
  have hput := putInode_ok hlw (List.mem_cons_of_mem i List.mem_cons_self) hput
  have hly : ListsOk y [i] :=
    (hput.lists hlw (List.mem_cons_of_mem i List.mem_cons_self)).perm
      (((List.Perm.swap dir i []).erase dir).trans (by rw [List.erase_cons_head]))
  refine .bind (Ends.self _) fun z hput' => .pure ⟨_, rfl, ?_⟩
  have hput' := putInode_ok hly List.mem_cons_self hput'
  refine (hput'.node_size hv hly List.mem_cons_self).trans ?_
  exact (hput.size i).trans hempty

/-- The parent as `new_inode` finds it. -/
theorem Took.parentOk (hv : Layout v) (hs : GoodFs v s counted) (h : Took v s s₁ [dir] [n])
    (hn : InodeInUse v s n) (hdir : sIsDir (nodeAt v s n).mode = true)
    (hrows : DirRows v (contentAt v s n) (nodeAt v s n).size.toNat rows) :
    ParentOk v s₁ counted [dir] n dir rows where
  inodes := h.same.inodes hs.inodes
  lists := h.cache.toListsOk
  held_dir := List.mem_singleton_self dir
  parent := h.goodDir hv hs hn hdir hrows
  marked := by
    obtain ⟨g, j, hg, hj, hnum, hset⟩ := hs.marked n hn
    exact ⟨g, j, hg, hj, hnum, by rwa [h.same.ibit hg]⟩

/-- Once there is a group for the new directory, the reply of `ext2_mkdir` is wrong. -/
theorem mkdir_late (hv : Layout v) (hbe : v.beCpu = false) (hs : GoodFs v s counted)
    (hn : InodeInUse v s n) (hdir : sIsDir (nodeAt v s n).mode = true)
    (hrows : DirRows v (contentAt v s n) (nodeAt v s n).size.toNat rows)
    (hmode : sIsDir mode = true) (hget : getInode v s n = .ok (s₁, some dir))
    (htook : Took v s s₁ [dir] [n]) (hrefuse : refuseName v s₁ dir name mode = .ok none) {g : Nat}
    (hgroup : findFreeInodeDirGroup v env s n = some g) : ¬ MkdirOk v env s n name mode uid gid := by
  rintro ⟨s', reply, hrun, hcase⟩
  have hget : (inodeCalls v env).get s n = .ok (s₁, some dir) := hget
  rw [ext2Mkdir, bind_of_ok hget] at hrun
  dsimp only at hrun
  obtain ⟨r, hnew, hrun⟩ := ok_of_bind hrun
  obtain ⟨u, res⟩ := r
  -- `new_inode` finds a group, so it takes an inode of it
  have hpar := htook.parentOk hv hs hn hdir hrows
  have hgroup₁ : findFreeInodeGroup v env s₁ n mode = .ok (some g) := by
    rw [findFreeInodeGroup, if_pos hmode, findFreeInodeDirGroup_congr htook.same.gd htook.same.counters.1, hgroup]
  obtain ⟨r, hfound, hlt⟩ := findFreeInodeGroup_ok hv env s₁ hn.1 mode
  rw [hgroup₁] at hfound
  cases hfound
  have hg := hlt g rfl
  have hfree : (s₁.gd g).freeInodesCount ≠ 0 := by
    rw [htook.same.gd]
    exact (findFreeInodeDirGroup_some hgroup).2
  have hargs : ArgsOk ⟨(· = n), fun _ _ => True⟩ := fun m hm =>
    hm ▸ ⟨hn.1.ne_noEntry, by have := hn.1.lt hv; omega⟩
  have hcalls := (inodeCalls_agrees v env).from (fun m hm => (hargs m hm).1) hs.cache.toListsOk
  obtain ⟨-, d, hd, hhere⟩ := (Here.start hs.cache.toListsOk).get hcalls hargs (by decide) rfl _
    hget
  cases hd
  obtain ⟨-, hfollows⟩ := newInode_follows hhere hcalls hargs (by decide : 1 < nrInodes)
    List.mem_cons_self (fun _ _ _ => trivial) uid gid _ hnew
  cases res with
  | ok i =>
    -- the reply tells of a directory, but it has no entries
    obtain ⟨hempty, hu⟩ := hfollows
    dsimp only at hrun
    rw [bind_of_ok (enterDots_empty hempty dir)] at hrun
    obtain ⟨m, hreply, hsize⟩ := mkdirRest_empty hv hu.lists hempty _ hrun
    dsimp only at hreply hsize
    subst hreply
    rcases hcase with ⟨m', hm', hmade⟩ | ⟨e, he, -⟩
    · cases hm'
      have hself := hmade.self
      rw [lookupDir_empty hsize (by decide)] at hself
      cases hself
    · cases he
  | error e =>
    -- the reply tells of an error, but the inode is taken
    obtain ⟨w, hput, hrun⟩ := ok_of_bind hrun
    cases hrun
    rcases hcase with ⟨m, hm, -⟩ | ⟨-, -, hsame⟩
    · cases hm
    obtain ⟨j, hj, htaken⟩ := newInode_taken hv hpar hrefuse hgroup₁ hg hfree uid gid
    rcases htaken with ⟨hnone, -⟩ | ⟨-, i, t, hw, hlate⟩
    · exact hpar.lists.unused_ne_nil (by decide : 1 < nrInodes) hnone
    rw [hlate] at hnew
    rcases hw.enter hv hbe hg hj.1 env name mode with ⟨-, e', henter⟩ | ⟨-, u', henter⟩
    · obtain ⟨⟨-, hset⟩, hslots⟩ := hw.late hv hg hj.1 henter hnew
      have hlists : ListsOk u [dir] := hfollows.lists
      -- no name could be entered: the bit of the inode stays set after the error
      have hne : dir ≠ i := by
        intro heq
        obtain ⟨g', j', -, hj', hnum, hmarked⟩ := hpar.marked
        have hino : n = inoOf v g j := by
          rw [← hw.parent.found.ino, heq, hw.ino]
        obtain ⟨rfl, rfl⟩ := inoOf_inj hj' hj.1 (hnum.symm.trans hino)
        rw [hj.2.1] at hmarked
        cases hmarked
      have hslot := hslots dir hne
      have hino : (u.slot dir).ino = n := by rw [hslot, hw.parent.found.ino]
      have hlinks : (u.slot dir).odi.linksCount ≠ 0 := by
        rw [hslot, hw.odi, htook.head.2.2, htook.same.links hn.1]
        exact hn.2
      have hput := putInode_ok hlists List.mem_cons_self hput
      have htable : v.inodeBitmap g ≠ v.inodeTableBlock (u.slot dir).ino := by
        rw [hino]
        exact inodeTableBlock_ne_inode_bitmap hv hn.1 hg
      have hclear := hj.2.1
      rw [htook.same.ibit hg, ← hsame.ibit hg, ibit, hput.blk_ne hlinks htable] at hclear
      rw [ibit, hclear] at hset
      cases hset
    · rw [enterNew, bind_of_ok henter] at hnew
      cases hnew

/-- What `new_inode` turns down. -/
theorem Took.refuse (hv : Layout v) (hbe : v.beCpu = false) (hs : GoodFs v s counted)
    (h : Took v s s₁ [dir] [n]) (hn : InodeInUse v s n) (hdir : sIsDir (nodeAt v s n).mode = true)
    (hrows : DirRows v (contentAt v s n) (nodeAt v s n).size.toNat rows)
    (name : List UInt8) {mode : UInt16}
    (hmode : sIsDir mode = true) :
    ∃ r, refuseName v s₁ dir name mode = .ok r ∧
      (r ≠ none ↔ v.linkMax ≤ (nodeAt v s n).linksCount.toNat ∨
        ∃ m, Names v (nodeAt v s n).size.toNat rows name m) := by
  obtain ⟨r, hrefuse, hdown⟩ :=
    (h.goodDir hv hs hn hdir hrows).refuseName_iff hv.log_le hbe name mode
  have hlinks : (s₁.slot dir).odi.linksCount = (nodeAt v s n).linksCount := by
    rw [h.head.2.2, h.same.links hn.1]
  have hsize : (s₁.slot dir).odi.size = (nodeAt v s n).size := by
    rw [h.head.2.2, h.same.size hn.1]
  refine ⟨r, hrefuse, ?_⟩
  rw [hdown, TurnedDown, hlinks, hsize, or_iff_right hn.2, and_iff_right hmode]

/-- `new_inode` has turned the name down, before it has done anything. -/
theorem mkdir_refused (hv : Layout v) (hn : InodeInUse v s n)
    (hget : getInode v s n = .ok (s₁, some dir)) (htook : Took v s s₁ [dir] [n]) {e : Errno}
    (hnew : newInode (inodeCalls v env) v env s₁ dir name mode uid gid = .ok (s₁, .error e)) :
    MkdirOk v env s n name mode uid gid := by
  obtain ⟨s₂, hput, hdone⟩ := htook.put hv hn.2 env
  have hget : (inodeCalls v env).get s n = .ok (s₁, some dir) := hget
  have hput : (inodeCalls v env).put s₁ dir = .ok s₂ := hput
  refine ⟨s₂, .err e, ?_, .inr ⟨e, rfl, hdone.same⟩⟩
  rw [ext2Mkdir, bind_of_ok hget]
  dsimp only
  rw [bind_of_ok hnew]
  dsimp only
  rw [bind_of_ok hput]
  rfl

/-- `ext2_mkdir` replies with what has become of the request exactly when `new_inode` turns it down
before it takes an inode: the parent has too many links, or has the name, or there is no group. -/
theorem mkdirOk_iff (hv : Layout v) (hbe : v.beCpu = false) (hs : GoodFs v s counted)
    (hn : InodeInUse v s n) (hdir : sIsDir (nodeAt v s n).mode = true)
    (hrows : DirRows v (contentAt v s n) (nodeAt v s n).size.toNat rows)
    (hmode : sIsDir mode = true) (env : Env) (name : List UInt8) (uid gid : UInt16) :
    MkdirOk v env s n name mode uid gid ↔
      v.linkMax ≤ (nodeAt v s n).linksCount.toNat ∨
      (∃ m, Names v (nodeAt v s n).size.toNat rows name m) ∨
      findFreeInodeDirGroup v env s n = none := by
  obtain ⟨dir, s₁, hget, htook, -⟩ := (Took.start hs.cache).get hv (by decide) hn.1
  obtain ⟨r, hrefuse, hturned⟩ := htook.refuse hv hbe hs hn hdir hrows name hmode
  rw [← or_assoc, ← hturned]
  cases r with
  | some e =>
    refine iff_of_true (mkdir_refused hv hn hget htook (e := e) ?_) (.inl (Option.some_ne_none e))
    rw [newInode, bind_of_ok hrefuse]
    rfl
  | none =>
    rw [or_iff_right fun h => h rfl]
    cases hgroup : findFreeInodeDirGroup v env s n with
    | none =>
      refine iff_of_true (mkdir_refused hv hn hget htook (e := .enospc) ?_) rfl
      have hgroup₁ : findFreeInodeGroup v env s₁ n mode = .ok none := by
        rw [findFreeInodeGroup, if_pos hmode, findFreeInodeDirGroup_congr htook.same.gd htook.same.counters.1, hgroup]
      rw [newInode, bind_of_ok hrefuse]
      dsimp only
      rw [allocInode, htook.head.2.1.ino, bind_of_ok hgroup₁]
      rfl
    | some g =>
      refine iff_of_false ?_ (Option.some_ne_none g)
      exact mkdir_late hv hbe hs hn hdir hrows hmode hget htook hrefuse hgroup

/-- The root directory has the name. -/
theorem mkdirOk_sample :
    MkdirOk sampleVolume sampleEnv (initInodeCache sampleFs) 2 [0x2E] 0x41ED 0 0 :=
  (mkdirOk_iff sampleVolume_layout rfl sampleFs_good sampleFs_root.1 sampleFs_root.2
    sampleFs_rows (by decide) sampleEnv [0x2E] 0 0).mpr (.inr (.inl
      ⟨2, ⟨0, 12, 2, [0x2E]⟩, ⟨0, by decide, by decide⟩, by decide, rfl, rfl⟩))

/-- A directory of another name is not made in it, and there is no reply: `put_inode` panics. -/
theorem mkdir_not_ok :
    GoodFs sampleVolume (initInodeCache sampleFs) (fun n => n == rootIno) ∧
      ¬ MkdirOk sampleVolume sampleEnv (initInodeCache sampleFs) 2 [0x61] 0x41ED 0 0 := by
  refine ⟨sampleFs_good, ?_⟩
  have huse : InodeInUse sampleVolume (initInodeCache sampleFs) 2 := (sampleFs_inodeInUse 2).mpr rfl
  obtain ⟨dir, s₁, hget, htook, -⟩ := (Took.start sampleFs_good.cache).get sampleVolume_layout
    (by decide) huse.1
  obtain ⟨r, hrefuse, hturned⟩ := htook.refuse sampleVolume_layout rfl
    sampleFs_good huse (by decide) sampleFs_rows [0x61]
    (show sIsDir 0x41ED = true by decide)
  cases r with
  | some e =>
    rcases hturned.mp (Option.some_ne_none e) with hmany | ⟨m, hm⟩
    · exact absurd hmany (by decide)
    · exact absurd (sampleRows_names hm).2 (by decide)
  | none =>
    exact mkdir_late sampleVolume_layout rfl sampleFs_good huse (by decide) sampleFs_rows
      (by decide) hget htook hrefuse (g := 0) (by decide)

end Mkdir

end Cheviot.Ext2
