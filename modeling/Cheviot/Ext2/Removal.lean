import Cheviot.Ext2.Refused

/-!
# What `ext2_rmdir` and `ext2_unlink` remove

Neither handler looks at the type of the inode that goes. `ext2_rmdir` asks
`is_dir_empty`, which takes the data of any inode for records, and does not mind that the
name is "." of the directory itself; `ext2_unlink` asks nothing.

* `locate` — how both begin: the directory, the name in it, the inode of the name.
* `rmdirOk_iff`, `unlinkOk_iff` — when each of them removes only what it may, and leaves
  everything as it was otherwise.
-/

namespace Cheviot.Ext2

open Cheviot.Bytes Cheviot.Rows Cheviot.Run

section Locate

variable {v : Volume} {env : Env} {s s₁ s₂ : Fs} {counted : Nat → Bool} {n dir i m : Nat}
  {rows : Nat → List Entry} {name : List UInt8}

/-- `lookup_dir` in a directory that is held. -/
theorem Took.lookup (hv : Layout v) (hbe : v.beCpu = false) (hs : GoodFs v s counted)
    (h : Took v s s₁ [dir] [n]) (hn : InodeInUse v s n) (hdir : sIsDir (nodeAt v s n).mode = true)
    (hrows : DirRows v (contentAt v s n) (nodeAt v s n).size.toNat rows) (name : List UInt8) :
    (∃ e, lookupDir v s₁.blk (s₁.slot dir).odi name = .ok (.error e) ∧
        ∀ m, ¬ Names v (nodeAt v s n).size.toNat rows name m) ∨
      ∃ m, lookupDir v s₁.blk (s₁.slot dir).odi name = .ok (.ok m) ∧
        Names v (nodeAt v s n).size.toNat rows name m ∧ InodeInUse v s m := by
  have hgood := h.goodDir hv hs hn hdir hrows
  obtain ⟨hvol, hf, hodi⟩ := h.head
  have hsize : (s₁.slot dir).odi.size.toNat = (nodeAt v s n).size.toNat := by
    rw [hodi, h.same.size hvol]
  by_cases hname : name.length ≤ nameMax
  · rcases hgood.lookup hv.log_le hbe hname with ⟨hrun, hnone⟩ | ⟨m, hrun, hm⟩
    · rw [hsize] at hnone
      exact .inl ⟨_, hrun, hnone⟩
    · rw [hsize] at hm
      refine .inr ⟨m, hrun, hm, ?_⟩
      -- the records that the filesystem has for the directory are the ones read
      obtain ⟨rows', hrows', huse⟩ := hs.dirs n hn hdir
      have hgood' := h.goodDir hv hs hn hdir hrows'
      rcases hgood'.lookup hv.log_le hbe hname with ⟨hrun', -⟩ | ⟨m', hrun', hm'⟩
      · rw [hrun] at hrun'
        cases hrun'
      · rw [hrun] at hrun'
        cases hrun'
        obtain ⟨e, he, hne, -, rfl⟩ := hm'
        rw [hsize] at he
        exact huse e he hne
  · refine .inl ⟨.enametoolong, ?_, fun m hm => ?_⟩
    · rw [lookupDir, if_pos (by omega)]
    · obtain ⟨e, ⟨k, hk, he⟩, -, hen, -⟩ := hm
      have hle := ((hrows k hk).entry e he).name_le
      rw [hen] at hle
      exact hname hle

/-- How both handlers begin: the directory, the name in it, and the inode of the name. -/
theorem locate (hv : Layout v) (hbe : v.beCpu = false) (hs : GoodFs v s counted)
    (hn : InodeInUse v s n) (hdir : sIsDir (nodeAt v s n).mode = true)
    (hrows : DirRows v (contentAt v s n) (nodeAt v s n).size.toNat rows) (name : List UInt8) :
    ∃ dir s₁, getInode v s n = .ok (s₁, some dir) ∧ Took v s s₁ [dir] [n] ∧
      ((∃ e, lookupDir v s₁.blk (s₁.slot dir).odi name = .ok (.error e) ∧
          ∀ m, ¬ Names v (nodeAt v s n).size.toNat rows name m) ∨
        ∃ m i s₂, lookupDir v s₁.blk (s₁.slot dir).odi name = .ok (.ok m) ∧
          Names v (nodeAt v s n).size.toNat rows name m ∧ InodeInUse v s m ∧
          getInode v s₁ m = .ok (s₂, some i) ∧ Took v s s₂ [i, dir] [m, n] ∧ s₂.blk = s.blk) := by
  obtain ⟨dir, s₁, hget, htook, hblk⟩ := (Took.start hs.cache).get hv (by decide) hn.1
  refine ⟨dir, s₁, hget, htook, ?_⟩
  rcases htook.lookup hv hbe hs hn hdir hrows name with hnone | ⟨m, hrun, hm, huse⟩
  · exact .inl hnone
  · obtain ⟨i, s₂, hget', htook', hblk'⟩ := htook.get hv (by decide : 1 < nrInodes) huse.1
    exact .inr ⟨m, i, s₂, hrun, hm, huse, hget', htook', hblk'.trans hblk⟩

/-- A name that is in the directory can be deleted. -/
theorem Took.delete (hv : Layout v) (hbe : v.beCpu = false) (hsize : 4 ≤ v.sizeofIno)
    (hs : GoodFs v s counted) (h : Took v s s₂ [i, dir] [m, n]) (hn : InodeInUse v s n)
    (hdir : sIsDir (nodeAt v s n).mode = true)
    (hrows : DirRows v (contentAt v s n) (nodeAt v s n).size.toNat rows)
    (hm : Names v (nodeAt v s n).size.toNat rows name m) (env : Env) :
    ∃ s₃, direntDelete v env s₂ dir name = .ok (s₃, .ok ()) := by
  have hgood := h.second.goodDir hv hs hn hdir hrows
  obtain ⟨hvol, hf, hodi⟩ := h.second.head
  have hend : (s₂.slot dir).odi.size.toNat = (nodeAt v s n).size.toNat := by
    rw [hodi, h.same.size hvol]
  obtain ⟨e, he, hne, hen, -⟩ := hm
  have hname : name.length ≤ nameMax := by
    obtain ⟨k, hk, hek⟩ := he
    have hle := ((hrows k hk).entry e hek).name_le
    rwa [hen] at hle
  have hlive : ∀ j, j = n → OnVolume v j := fun j hj => hj ▸ hvol
  rcases direntDelete_rows hv hbe hsize hlive hgood.map rfl hf hgood.tiled hname env with
    ⟨-, hnone⟩ | ⟨s₃, k, es, hrun, -⟩
  · rw [hend] at hnone
    exact absurd ⟨hne, .inr hen⟩ (hnone e he)
  · exact ⟨s₃, hrun⟩

end Locate

/-! ## What may be removed -/

/-- Inode `m` is a directory, not directory `n` itself, and has no live record but "." and
"..". -/
def RemovableDir (v : Volume) (s : Fs) (n m : Nat) : Prop :=
  sIsDir (nodeAt v s m).mode = true ∧ m ≠ n ∧
    ∃ rows, DirRows v (contentAt v s m) (nodeAt v s m).size.toNat rows ∧
      ∀ e, Holds v (nodeAt v s m).size.toNat rows e → e.ino ≠ 0 →
        e.name = [0x2E] ∨ e.name = [0x2E, 0x2E]

/-- The request is answered with an error, and has changed nothing. -/
def TurnsDown (v : Volume) (s : Fs) (run : Except Fault (Fs × Reply)) : Prop :=
  ∃ s' e, run = .ok (s', .err e) ∧ Unchanged v s s'

/-- `ext2_rmdir` removes a name of directory `n` only if it is that of such a directory. -/
def RmdirOk (v : Volume) (env : Env) (s : Fs) (n : Nat) (rows : Nat → List Entry)
    (name : List UInt8) : Prop :=
  (∃ m, Names v (nodeAt v s n).size.toNat rows name m ∧ RemovableDir v s n m) ∨
    TurnsDown v s (ext2Rmdir (inodeCalls v env) v env s n name)

/-- `ext2_unlink` removes a name of directory `n` only if it is not that of a directory. -/
def UnlinkOk (v : Volume) (env : Env) (s : Fs) (n : Nat) (rows : Nat → List Entry)
    (name : List UInt8) : Prop :=
  (∃ m, Names v (nodeAt v s n).size.toNat rows name m ∧ sIsDir (nodeAt v s m).mode = false) ∨
    TurnsDown v s (ext2Unlink (inodeCalls v env) v env s n name)

section Removal

variable {v : Volume} {env : Env} {s : Fs} {counted : Nat → Bool} {n m : Nat}
  {rows : Nat → List Entry} {name : List UInt8}

/-- A reply that the request was done is not one that it was turned down. -/
theorem not_turnsDown {run : Except Fault (Fs × Reply)}
    (h : Ends run fun r => r.2 = .status (.ok ())) : ¬ TurnsDown v s run := by
  rintro ⟨s', e, hrun, -⟩
  have hreply := h _ hrun
  cases hreply

/-- A handler gives both of its references back. -/
theorem Took.put_both (hv : Layout v) {s₂ : Fs} {i dir : Nat} (h : Took v s s₂ [i, dir] [m, n])
    (hm : InodeInUse v s m) (hn : InodeInUse v s n) (env : Env) :
    ∃ s₃ s₄, putInode v env s₂ i = .ok s₃ ∧ putInode v env s₃ dir = .ok s₄ ∧ Unchanged v s s₄ := by
  obtain ⟨s₃, hput, h₃⟩ := h.put hv hm.2 env
  obtain ⟨s₄, hput', h₄⟩ := h₃.put hv hn.2 env
  exact ⟨s₃, s₄, hput, hput', h₄.same⟩

/-- `ext2_rmdir` once it has both inodes. -/
theorem ext2Rmdir_located {s₁ s₂ : Fs} {dir i : Nat} (hget : getInode v s n = .ok (s₁, some dir))
    (hlook : lookupDir v s₁.blk (s₁.slot dir).odi name = .ok (.ok m))
    (hget' : getInode v s₁ m = .ok (s₂, some i)) :
    ext2Rmdir (inodeCalls v env) v env s n name =
      isDirEmpty v s₂.blk (s₂.slot i).odi >>= fun empty =>
        if empty = true then
          direntDelete v env s₂ dir name >>= fun r =>
            putInode v env
              (if r.2.isOk then
                changeInode
                  (changeInode r.1 dir fun odi => { odi with linksCount := odi.linksCount - 1 }) i
                  fun odi => { odi with linksCount := odi.linksCount - 1 }
              else r.1) i >>= fun t => putInode v env t dir >>= fun t => pure (t, .status r.2)
        else
          putInode v env s₂ i >>= fun t => putInode v env t dir >>= fun t =>
            pure (t, .err .enotempty) := by
  have hget : (inodeCalls v env).get s n = .ok (s₁, some dir) := hget
  have hget' : (inodeCalls v env).get s₁ m = .ok (s₂, some i) := hget'
  rw [ext2Rmdir, bind_of_ok hget]
  dsimp only
  rw [bind_of_ok hlook]
  dsimp only
  rw [bind_of_ok hget']
  rfl

/-- `ext2_rmdir`, exactly where it does not remove what it may not: there is no such name, or
it is that of another directory, or `is_dir_empty` finds a record in its data. -/
theorem rmdirOk_iff (hv : Layout v) (hbe : v.beCpu = false) (hsize : 4 ≤ v.sizeofIno)
    (hs : GoodFs v s counted) (hn : InodeInUse v s n) (hdir : sIsDir (nodeAt v s n).mode = true)
    (hrows : DirRows v (contentAt v s n) (nodeAt v s n).size.toNat rows) (env : Env)
    (name : List UInt8) :
    RmdirOk v env s n rows name ↔
      (∀ m, ¬ Names v (nodeAt v s n).size.toNat rows name m) ∨
      ∃ m, Names v (nodeAt v s n).size.toNat rows name m ∧
        (sIsDir (nodeAt v s m).mode = true ∧ m ≠ n ∨
          isDirEmpty v s.blk (nodeAt v s m) = .ok false) := by
  obtain ⟨dir, s₁, hget, htook, hcase⟩ := locate hv hbe hs hn hdir hrows name
  rcases hcase with ⟨e, hlook, hnone⟩ | ⟨m, i, s₂, hlook, hm, huse, hget', htook', hblk⟩
  · -- there is no such name
    refine iff_of_true (.inr ?_) (.inl hnone)
    obtain ⟨s₂, hput, htook'⟩ := htook.put hv hn.2 env
    have hget : (inodeCalls v env).get s n = .ok (s₁, some dir) := hget
    have hput : (inodeCalls v env).put s₁ dir = .ok s₂ := hput
    refine ⟨s₂, .eio, ?_, htook'.same⟩
    rw [ext2Rmdir, bind_of_ok hget]
    dsimp only
    rw [bind_of_ok hlook]
    dsimp only
    rw [bind_of_ok hput]
    rfl
  have hsame : isDirEmpty v s₂.blk (s₂.slot i).odi = isDirEmpty v s.blk (nodeAt v s m) := by
    obtain ⟨hvol, -, hodi⟩ := htook'.head
    rw [hodi, hblk]
    exact isDirEmpty_congr (htook'.same.size hvol) (htook'.same.block hvol)
  have honly : ∀ {P : Nat → Prop},
      (∃ m', Names v (nodeAt v s n).size.toNat rows name m' ∧ P m') ↔ P m := by
    intro P
    refine ⟨fun h => ?_, fun h => ⟨m, hm, h⟩⟩
    obtain ⟨m', hm', hP⟩ := h
    rwa [← (hs.wf n rows hn hdir hrows).names_inj hm' hm]
  rw [or_iff_right fun hnone => hnone m hm, honly]
  unfold RmdirOk
  rw [honly, ext2Rmdir_located hget hlook hget', hsame]
  have hother : sIsDir (nodeAt v s m).mode = true → ∃ rows',
      DirRows v (contentAt v s m) (nodeAt v s m).size.toNat rows' ∧
        ((isDirEmpty v s.blk (nodeAt v s m) = .ok true ∧
            ∀ e, Holds v (nodeAt v s m).size.toNat rows' e → ¬ e.Other) ∨
          isDirEmpty v s.blk (nodeAt v s m) = .ok false) := by
    intro hmdir
    obtain ⟨rows', hrows', -⟩ := hs.dirs m huse hmdir
    exact ⟨rows', hrows', (isDirEmpty_rows hv.log_le hbe hrows').imp_right And.left⟩
  by_cases hfull : isDirEmpty v s.blk (nodeAt v s m) = .ok false
  · -- `-ENOTEMPTY`
    refine iff_of_true (.inr ?_) (.inr hfull)
    obtain ⟨s₃, s₄, hput, hput', hunchanged⟩ := htook'.put_both hv huse hn env
    refine ⟨s₄, .enotempty, ?_, hunchanged⟩
    rw [bind_of_ok hfull, if_neg Bool.false_ne_true, bind_of_ok hput, bind_of_ok hput']
    rfl
  rw [or_iff_left hfull]
  by_cases hgone : sIsDir (nodeAt v s m).mode = true ∧ m ≠ n
  · -- another directory, with nothing in it
    refine iff_of_true (.inl ⟨hgone.1, hgone.2, ?_⟩) hgone
    obtain ⟨rows', hrows', hempty⟩ := hother hgone.1
    obtain ⟨-, hnone⟩ := hempty.resolve_right hfull
    refine ⟨rows', hrows', fun e he hlive => ?_⟩
    have hnamed := (hs.wf m rows' huse hgone.1 hrows').named e he hlive
    by_contra hdots
    obtain ⟨hdot, hdotdot⟩ := not_or.mp hdots
    exact hnone e he ⟨hlive, hnamed, hdot, hdotdot⟩
  · -- the name goes, whatever it is the name of
    refine iff_of_false (not_or.mpr ⟨fun h => hgone ⟨h.1, h.2.1⟩, ?_⟩) hgone
    refine not_turnsDown (.bind (Ends.self _) fun empty hrun => ?_)
    have hempty : empty = true := by
      cases empty with
      | false => exact absurd hrun hfull
      | true => rfl
    rw [if_pos hempty]
    obtain ⟨s₃, hdelete⟩ := htook'.delete hv hbe hsize hs hn hdir hrows hm env
    rw [bind_of_ok hdelete]
    exact .bind (Ends.self _) fun _ _ => .bind (Ends.self _) fun _ _ => .pure rfl

/-- `ext2_unlink` once it has both inodes. -/
theorem ext2Unlink_located {s₁ s₂ : Fs} {dir i : Nat} (hget : getInode v s n = .ok (s₁, some dir))
    (hlook : lookupDir v s₁.blk (s₁.slot dir).odi name = .ok (.ok m))
    (hget' : getInode v s₁ m = .ok (s₂, some i)) :
    ext2Unlink (inodeCalls v env) v env s n name =
      direntDelete v env s₂ dir name >>= fun r =>
        putInode v env
          (if r.2.isOk then
            changeInode r.1 i fun odi => { odi with linksCount := odi.linksCount - 1 }
          else r.1) i >>= fun t => putInode v env t dir >>= fun t => pure (t, .status r.2) := by
  have hget : (inodeCalls v env).get s n = .ok (s₁, some dir) := hget
  have hget' : (inodeCalls v env).get s₁ m = .ok (s₂, some i) := hget'
  rw [ext2Unlink, bind_of_ok hget]
  dsimp only
  rw [bind_of_ok hlook]
  dsimp only
  rw [bind_of_ok hget']
  rfl

/-- `ext2_unlink`, exactly where it does not remove what it may not: there is no such name, or
it is not that of a directory. -/
theorem unlinkOk_iff (hv : Layout v) (hbe : v.beCpu = false) (hsize : 4 ≤ v.sizeofIno)
    (hs : GoodFs v s counted) (hn : InodeInUse v s n) (hdir : sIsDir (nodeAt v s n).mode = true)
    (hrows : DirRows v (contentAt v s n) (nodeAt v s n).size.toNat rows) (env : Env)
    (name : List UInt8) :
    UnlinkOk v env s n rows name ↔
      (∀ m, ¬ Names v (nodeAt v s n).size.toNat rows name m) ∨
      ∃ m, Names v (nodeAt v s n).size.toNat rows name m ∧
        sIsDir (nodeAt v s m).mode = false := by
  obtain ⟨dir, s₁, hget, htook, hcase⟩ := locate hv hbe hs hn hdir hrows name
  rcases hcase with ⟨e, hlook, hnone⟩ | ⟨m, i, s₂, hlook, hm, huse, hget', htook', -⟩
  · -- there is no such name
    refine iff_of_true (.inr ?_) (.inl hnone)
    obtain ⟨s₂, hput, htook'⟩ := htook.put hv hn.2 env
    have hget : (inodeCalls v env).get s n = .ok (s₁, some dir) := hget
    have hput : (inodeCalls v env).put s₁ dir = .ok s₂ := hput
    refine ⟨s₂, .eio, ?_, htook'.same⟩
    rw [ext2Unlink, bind_of_ok hget]
    dsimp only
    rw [bind_of_ok hlook]
    dsimp only
    rw [bind_of_ok hput]
    rfl
  · -- the name goes, whatever it is the name of
    refine Iff.trans (or_iff_left ?_) (or_iff_right fun hnone => hnone m hm).symm
    rw [ext2Unlink_located hget hlook hget']
    obtain ⟨s₃, hdelete⟩ := htook'.delete hv hbe hsize hs hn hdir hrows hm env
    rw [bind_of_ok hdelete]
    exact not_turnsDown (.bind (Ends.self _) fun _ _ => .bind (Ends.self _) fun _ _ => .pure rfl)

/-- When `ext2_rmdir` and `ext2_unlink` remove only what they may, and leave everything as it was
otherwise. -/
theorem removals_ok_iff (hv : Layout v) (hbe : v.beCpu = false) (hsize : 4 ≤ v.sizeofIno)
    (hs : GoodFs v s counted) (hn : InodeInUse v s n) (hdir : sIsDir (nodeAt v s n).mode = true)
    (hrows : DirRows v (contentAt v s n) (nodeAt v s n).size.toNat rows) (env : Env)
    (name : List UInt8) :
    (RmdirOk v env s n rows name ↔
      (∀ m, ¬ Names v (nodeAt v s n).size.toNat rows name m) ∨
      ∃ m, Names v (nodeAt v s n).size.toNat rows name m ∧
        (sIsDir (nodeAt v s m).mode = true ∧ m ≠ n ∨
          isDirEmpty v s.blk (nodeAt v s m) = .ok false)) ∧
    (UnlinkOk v env s n rows name ↔
      (∀ m, ¬ Names v (nodeAt v s n).size.toNat rows name m) ∨
      ∃ m, Names v (nodeAt v s n).size.toNat rows name m ∧
        sIsDir (nodeAt v s m).mode = false) :=
  ⟨rmdirOk_iff hv hbe hsize hs hn hdir hrows env name,
    unlinkOk_iff hv hbe hsize hs hn hdir hrows env name⟩

end Removal

/-! ### A root directory with a file in it -/

section Crowded

/-- The root directory, and the file that has two names in it. -/
theorem sampleCrowdedFs_inodeInUse (n : Nat) :
    InodeInUse sampleVolume (initInodeCache sampleCrowdedFs) n ↔ n = 2 ∨ n = 11 := by
  have hlinks : ∀ m, m < 33 → 0 < m →
      (nodeAt sampleVolume (initInodeCache sampleCrowdedFs) m).linksCount ≠ 0 →
      m = 2 ∨ m = 11 := by
    decide +kernel
  constructor
  · intro ⟨hvol, hne⟩
    have hlast : n ≤ 32 := hvol.2
    exact hlinks n (by omega) hvol.1 hne
  · intro h
    rcases h with rfl | rfl
    · exact ⟨⟨by decide, by decide⟩, by decide⟩
    · exact ⟨⟨by decide, by decide⟩, by decide⟩

/-- Of the two only the root directory is one. -/
theorem sampleCrowdedFs_root {n : Nat}
    (hn : InodeInUse sampleVolume (initInodeCache sampleCrowdedFs) n)
    (hdir : sIsDir (nodeAt sampleVolume (initInodeCache sampleCrowdedFs) n).mode = true) :
    n = 2 := by
  rcases (sampleCrowdedFs_inodeInUse n).mp hn with rfl | rfl
  · rfl
  · have hfile : sIsDir (nodeAt sampleVolume (initInodeCache sampleCrowdedFs) 11).mode = false := by
      decide
    rw [hfile] at hdir
    cases hdir

theorem sampleCrowdedFs_rows :
    DirRows sampleVolume (contentAt sampleVolume (initInodeCache sampleCrowdedFs) 2)
      (nodeAt sampleVolume (initInodeCache sampleCrowdedFs) 2).size.toNat sampleCrowdedRows := by
  have hnode : nodeAt sampleVolume (initInodeCache sampleCrowdedFs) 2 =
      nodeAt sampleVolume sampleCrowdedFs 2 := rfl
  have hbytes : contentAt sampleVolume (initInodeCache sampleCrowdedFs) 2 =
      contentAt sampleVolume sampleCrowdedFs 2 := by
    funext q
    rw [contentAt, contentAt, hnode]
    rfl
  rw [hbytes]
  exact sampleCrowdedFs_good.tiled

/-- The one block of the two files is the root directory's. -/
theorem sampleCrowdedFs_filesOk :
    FilesOk sampleVolume (initInodeCache sampleCrowdedFs)
      (InodeInUse sampleVolume (initInodeCache sampleCrowdedFs)) := by
  have hgd : ∀ g, ((initInodeCache sampleCrowdedFs).gd g).freeBlocksCount =
      (sampleFs.gd g).freeBlocksCount := by
    intro g
    by_cases hg : g = 0
    · rw [hg]
      rfl
    · exact congrArg GroupDesc.freeBlocksCount (Function.update_of_ne hg ..)
  have hblock : OneBlock sampleVolume (initInodeCache sampleCrowdedFs)
      (InodeInUse sampleVolume (initInodeCache sampleCrowdedFs)) 2 9 := by
    intro m hm
    rcases (sampleCrowdedFs_inodeInUse m).mp hm with rfl | rfl
    · decide
    · decide
  exact filesOk_single (fun m hm => hm.1)
    (sampleFs_blockConsistent.congr hgd rfl fun _ _ => rfl) hblock
    ⟨by decide, by decide, by decide⟩ ⟨0, 8, by decide, by decide, by decide, by decide⟩

theorem sampleCrowdedFs_goodFs :
    GoodFs sampleVolume (initInodeCache sampleCrowdedFs)
      (Function.update (fun n => n == rootIno) (inoOf sampleVolume 0 10) false) where
  files := sampleCrowdedFs_filesOk
  dirs n hn hdir := by
    rw [sampleCrowdedFs_root hn hdir]
    refine ⟨sampleCrowdedRows, sampleCrowdedFs_rows, ?_⟩
    rintro e ⟨k, -, he⟩ -
    have hinos : ∀ e ∈ sampleCrowdedRows 0, e.ino = 2 ∨ e.ino = 11 := by decide +kernel
    exact (sampleCrowdedFs_inodeInUse e.ino).mpr (hinos e he)
  inodes :=
    have h := sampleCrowdedFs_parentOk.inodes
    ⟨h.free_count, h.free_sum, h.dirs_count, h.dirs_sum, h.dirs_set, h.reserved, h.past⟩
  marked n hn := by
    rcases (sampleCrowdedFs_inodeInUse n).mp hn with rfl | rfl
    · exact ⟨0, 1, by decide, by decide, by decide, by decide⟩
    · exact ⟨0, 10, by decide, by decide, by decide, by decide⟩
  cache := initInodeCache_ok sampleVolume Synced sampleCrowdedFs
  wf n rows hn hdir hrows := by
    rw [sampleCrowdedFs_root hn hdir] at hrows ⊢
    exact WellFormed.of_rows sampleCrowdedFs_good.wf sampleCrowdedFs_rows hrows

/-- `ext2_rmdir` turns down the directory, which has the file in it, and `ext2_unlink` removes
one of the names of the file. -/
theorem removals_ok_sample :
    RmdirOk sampleVolume sampleEnv (initInodeCache sampleCrowdedFs) 2 sampleCrowdedRows [0x2E] ∧
      UnlinkOk sampleVolume sampleEnv (initInodeCache sampleCrowdedFs) 2 sampleCrowdedRows
        (List.replicate 255 0x61) := by
  have hiff := removals_ok_iff sampleVolume_layout rfl (by decide) sampleCrowdedFs_goodFs
    ((sampleCrowdedFs_inodeInUse 2).mpr (.inl rfl)) (by decide) sampleCrowdedFs_rows sampleEnv
  refine ⟨(hiff [0x2E]).1.mpr (.inr ⟨2, ?_, .inr ?_⟩),
    (hiff (List.replicate 255 0x61)).2.mpr (.inr ⟨11, ?_, by decide⟩)⟩
  · exact ⟨⟨0, 12, 2, [0x2E]⟩, ⟨0, by decide, List.mem_cons_self⟩, by decide, rfl, rfl⟩
  · -- the records of the file are found
    decide +kernel
  · exact ⟨⟨24, 500, 11, List.replicate 255 0x61⟩,
      ⟨0, by decide, List.mem_cons_of_mem _ (List.mem_cons_of_mem _ List.mem_cons_self)⟩,
      by decide, rfl, rfl⟩

end Crowded

/-! ### The root directory of the small volume -/

section Root

/-- "." is removed from the directory by `ext2_rmdir`, and ".." by `ext2_unlink`. -/
theorem removals_not_ok :
    GoodFs sampleVolume (initInodeCache sampleFs) (fun n => n == rootIno) ∧
      ¬ RmdirOk sampleVolume sampleEnv (initInodeCache sampleFs) 2 sampleRows [0x2E] ∧
      ¬ UnlinkOk sampleVolume sampleEnv (initInodeCache sampleFs) 2 sampleRows [0x2E, 0x2E] := by
  refine ⟨sampleFs_good, fun h => ?_, fun h => ?_⟩
  · have hiff := rmdirOk_iff sampleVolume_layout rfl (by decide) sampleFs_good sampleFs_root.1
      sampleFs_root.2 sampleFs_rows sampleEnv [0x2E]
    rcases hiff.mp h with hnone | ⟨m, hm, hok⟩
    · exact hnone 2 ⟨⟨0, 12, 2, [0x2E]⟩, ⟨0, by decide, by decide⟩, by decide, rfl, rfl⟩
    · obtain ⟨rfl, -⟩ := sampleRows_names hm
      rcases hok with ⟨-, hother⟩ | hfull
      · exact hother rfl
      · have hempty : isDirEmpty sampleVolume (initInodeCache sampleFs).blk
            (nodeAt sampleVolume (initInodeCache sampleFs) 2) = .ok true := by decide
        rw [hempty] at hfull
        cases hfull
  · have hiff := unlinkOk_iff sampleVolume_layout rfl (by decide) sampleFs_good sampleFs_root.1
      sampleFs_root.2 sampleFs_rows sampleEnv [0x2E, 0x2E]
    rcases hiff.mp h with hnone | ⟨m, hm, hfile⟩
    · exact hnone 2 ⟨⟨12, 1012, 2, [0x2E, 0x2E]⟩, ⟨0, by decide, by decide⟩, by decide, rfl, rfl⟩
    · obtain ⟨rfl, -⟩ := sampleRows_names hm
      rw [sampleFs_root.2] at hfile
      cases hfile

end Root

end Cheviot.Ext2
