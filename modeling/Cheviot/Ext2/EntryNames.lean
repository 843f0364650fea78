import Cheviot.Ext2.OwnedRun
import Cheviot.Ext2.ReadOnly
import Cheviot.Ext2.Refused

/-!
# Whose name a lookup finds

`strcmp_nz` returns 0 for a record whose name has no bytes, whatever the name asked for,
and nothing keeps a request from entering the empty name.

That no entry is without a name is a property of entries as any other: `Owned` keeps it over the
calls of a request, if the request enters no name without it (`KeepsEntries`). Where it holds,
`strcmp_nz` is right.

* `EntersNames` — what a request is like, in the state it finds, that enters no empty name.
* `lookups_byName` — while all requests are like that, what is found has the name.
* `mknod_answersAll` — one that is not, after which every name is found.
-/

namespace Cheviot.Ext2

open Cheviot.Run

/-! ## Requests for an empty name -/

section Refused

variable {v : Volume} {env : Env} {arg : Args} {s₀ s s' : Fs} {held ds : List Nat} {n i : Nat}

/-- The next step takes a reference to an inode of the message, and shows the inode. -/
theorem Here.load (hh : Here v env arg s₀ s held ds) (hl : ListsOk s₀ []) (harg : ArgsOk arg)
    (hlen : held.length < nrInodes) (hn : arg.ino n) :
    Ends ((inodeCalls v env).get s n) fun r =>
      ∃ i, r.2 = some i ∧ Loaded v s held n i r.1 ∧ Here v env arg s₀ r.1 (i :: held) (i :: ds) := by
  intro r hrun
  have hcalls := (inodeCalls_agrees v env).from (fun n hn => (harg n hn).1) hl
  obtain ⟨-, i, hi, hhere⟩ := hh.get hcalls harg hlen hn r hrun
  obtain ⟨-, j, hj, hgot⟩ := hh.got hcalls hlen (harg n hn).1 (harg n hn).2 r hrun
  rw [hi] at hj
  cases hj
  obtain ⟨t, o⟩ := r
  cases hi
  exact ⟨i, rfl, ⟨hrun, gotInode_odi hgot hh.lists (harg n hn).1, (hgot.cached hh.lists).2,
    fun j hj => hgot.slot_held hh.lists hj, hgot.blk, hgot.calm⟩, hhere⟩

/-- The last step gives the only reference back. -/
theorem Here.putLast (hh : Here v env arg s₀ s [i] ds) (hl : ListsOk s₀ []) (harg : ArgsOk arg)
    {reply : Reply} :
    Ends (do return (← (inodeCalls v env).put s i, reply)) fun r : Fs × Reply =>
      Here v env arg s₀ r.1 [] [] := by
  have hcalls := (inodeCalls_agrees v env).from (fun n hn => (harg n hn).1) hl
  exact Ends.bind (hh.put hcalls harg (.refl _)).ends fun z hz => .pure hz

variable {d d' : Nat} {name name' : List UInt8} {mode : UInt16}

theorem ext2Create_refused (hl : ListsOk s []) (harg : ArgsOk arg) (hd : arg.ino d)
    (uid gid : UInt16) (href : Refused v s env d name (0x8000 ||| (mode &&& 0x1FF))) :
    Ends (ext2Create (inodeCalls v env) v env s d name mode uid gid) fun r =>
      Here v env arg s r.1 [] [] := by
  refine Ends.bind ((Here.start hl).load hl harg (by decide) hd) fun r hr => ?_
  obtain ⟨t, inode⟩ := r
  obtain ⟨dir, rfl, hload, ht⟩ := hr
  refine Ends.bind (newInode_refused hload href) fun r hr => ?_
  obtain ⟨u, inode⟩ := r
  obtain ⟨rfl, e, rfl⟩ := hr
  exact ht.putLast hl harg

theorem ext2Mkdir_refused (hl : ListsOk s []) (harg : ArgsOk arg) (hd : arg.ino d)
    (uid gid : UInt16) (href : Refused v s env d name mode) :
    Ends (ext2Mkdir (inodeCalls v env) v env s d name mode uid gid) fun r =>
      Here v env arg s r.1 [] [] := by
  refine Ends.bind ((Here.start hl).load hl harg (by decide) hd) fun r hr => ?_
  obtain ⟨t, inode⟩ := r
  obtain ⟨dir, rfl, hload, ht⟩ := hr
  refine Ends.bind (newInode_refused hload href) fun r hr => ?_
  obtain ⟨u, inode⟩ := r
  obtain ⟨rfl, e, rfl⟩ := hr
  exact ht.putLast hl harg

theorem ext2Mknod_refused (hl : ListsOk s []) (harg : ArgsOk arg) (hd : arg.ino d)
    (uid gid : UInt16) (href : Refused v s env d name mode) :
    Ends (ext2Mknod (inodeCalls v env) v env s d name mode uid gid) fun r =>
      Here v env arg s r.1 [] [] := by
  refine Ends.bind ((Here.start hl).load hl harg (by decide) hd) fun r hr => ?_
  obtain ⟨t, inode⟩ := r
  obtain ⟨dir, rfl, hload, ht⟩ := hr
  refine Ends.bind (newInode_refused hload href) fun r hr => ?_
  obtain ⟨u, inode⟩ := r
  obtain ⟨rfl, e, rfl⟩ := hr
  exact ht.putLast hl harg

/-- A name that is not there, or that there is no room for in the other directory. -/
theorem ext2Rename_refused (hl : ListsOk s []) (harg : ArgsOk arg) (hd : arg.ino d)
    (hd' : arg.ino d') (href : ∀ n, Finds v s d name n → NoRoom v s [d] d' name') :
    Ends (ext2Rename (inodeCalls v env) v env s d name d' name') fun r =>
      Here v env arg s r.1 [] [] := by
  have hcalls := (inodeCalls_agrees v env).from (fun n hn => (harg n hn).1) hl
  refine Ends.bind ((Here.start hl).load hl harg (by decide) hd) fun r hr => ?_
  obtain ⟨t, inode⟩ := r
  obtain ⟨dir, rfl, hload, ht⟩ := hr
  refine Ends.bind (ht.load hl harg (by decide : 1 < nrInodes) hd') fun r hr => ?_
  obtain ⟨u, inode⟩ := r
  obtain ⟨dir', rfl, hload', hu⟩ := hr
  refine Ends.bind (Ends.self _) fun r hfound => ?_
  cases r with
  | error e =>
    -- the name is not there: both directories are put back
    refine Ends.bind (hu.put hcalls harg (.swap dir dir' [])).ends fun w hw => ?_
    exact hw.putLast hl harg
  | ok n =>
    have hmem : dir ∈ [dir', dir] := List.mem_cons_of_mem dir' List.mem_cons_self
    have hget := hu.entry hcalls harg (by decide : 2 < nrInodes) hmem hfound
    refine Ends.bind (Ends.self _) fun r hrun => ?_
    obtain ⟨-, i, hi, hino, hw⟩ := hget r hrun
    obtain ⟨-, i', hi', hgot⟩ := hu.got hcalls (by decide : 2 < nrInodes)
      (lookupDir_ends _ hfound n rfl).1 (lookupDir_ends _ hfound n rfl).2 r hrun
    rw [hi] at hi'
    cases hi'
    obtain ⟨w, inode⟩ := r
    cases hi
    rw [hload'.kept dir List.mem_cons_self, hload.odi, hload'.blk, hload.blk] at hfound
    -- it is there, but the other directory has no room for the new one
    have hroom := href n hfound
    rw [NoRoom, hload.cons] at hroom
    have hblk : w.blk = s.blk := hgot.blk.trans (hload'.blk.trans hload.blk)
    have hodi : (w.slot dir').odi = nodeAt v (loaded v t []) d' :=
      (hgot.slot_held hu.lists List.mem_cons_self).trans hload'.odi
    rw [← hblk, ← hodi] at hroom
    obtain ⟨e, he⟩ := direntEnter_noRoom hroom env n (w.slot i).odi.mode
    refine Ends.bind (P := fun r => r.1 = w) ?_ fun r hr => ?_
    · rw [moveEntry, bind_of_ok he]
      exact .pure rfl
    · obtain ⟨x, sc⟩ := r
      subst hr
      -- nothing has been entered, and all three are put back
      refine Ends.bind (hw.put hcalls harg (.refl _)).ends fun y hy => ?_
      refine Ends.bind (hy.put hcalls harg (.refl _)).ends fun y hy => ?_
      exact hy.putLast hl harg

end Refused

/-! ## Runs -/

/-- The requests that enter and delete names. -/
def Request.changesNames : Request → Bool
  | .create _ _ _ _ _ | .mknod _ _ _ _ _ | .mkdir _ _ _ _ _ | .unlink _ _ | .rmdir _ _
  | .rename _ _ _ _ => true
  | _ => false

/-- The request enters no empty name: one that asks for it is refused before. -/
def EntersNames (v : Volume) (s : Fs) (env : Env) : Request → Prop
  | .create d name mode _ _ => name = [] → Refused v s env d name (0x8000 ||| (mode &&& 0x1FF))
  | .mkdir d name mode _ _ | .mknod d name mode _ _ => name = [] → Refused v s env d name mode
  | .rename d name d' name' => name' = [] → ∀ n, Finds v s d name n → NoRoom v s [d] d' name'
  | _ => True

/-- A request to enter or delete names, in directories in use, that enters no empty name. -/
structure NamesRequest (v : Volume) (s : Fs) (env : Env) (req : Request) : Prop
    extends ProperRequest v s env req where
  changes : req.changesNames = true
  enters : EntersNames v s env req

/-- What `lookup_dir` finds in a directory has the name: a live record of the directory
with the inode number that is returned. -/
def AnswersByName (v : Volume) (s : Fs) : Prop :=
  ∀ n name m, InodeInUse v s n → sIsDir (nodeAt v s n).mode = true →
    lookupDir v s.blk (nodeAt v s n) name = .ok (.ok m) →
    ∃ rows, DirRows v (contentAt v s n) (nodeAt v s n).size.toNat rows ∧
      Names v (nodeAt v s n).size.toNat rows name m

section Run

variable {v : Volume} {env : Env} {s s' s₀ : Fs} {req : Request}

/-- A request that enters no empty name, as a sequence of calls none of which does. -/
theorem NamesRequest.calls (hreq : NamesRequest v s env req) (hl : ListsOk s []) (hv : Layout v) :
    Ends (handle (inodeCalls v env) v env s req) fun r =>
      Acts v env ⟨fun n => n ∈ req.dirs, fun _ name => name ≠ []⟩ (s, []) (r.1, []) := by
  have hdirs : req.inos = req.dirs := by
    have hchanges := hreq.changes
    cases req <;> first | rfl | cases hchanges
  have htransfer : req.isTransfer = false := by
    have hchanges := hreq.changes
    cases req <;> first | rfl | cases hchanges
  by_cases hempty : [] ∈ req.newNames
  · have harg : ArgsOk ⟨fun n => n ∈ req.dirs, fun _ name => name ≠ []⟩ := fun n hn =>
      deviceArgs_ok (inodesCount_lt hv) n (hreq.inos n (hdirs ▸ hn))
    have henters := hreq.enters
    cases req with
    | create d name mode uid gid =>
      exact Ends.mono (ext2Create_refused hl harg List.mem_cons_self uid gid
        (henters (List.mem_singleton.mp hempty).symm)) fun r hr => hr.acts
    | mkdir d name mode uid gid =>
      exact Ends.mono (ext2Mkdir_refused hl harg List.mem_cons_self uid gid
        (henters (List.mem_singleton.mp hempty).symm)) fun r hr => hr.acts
    | mknod d name mode uid gid =>
      exact Ends.mono (ext2Mknod_refused hl harg List.mem_cons_self uid gid
        (henters (List.mem_singleton.mp hempty).symm)) fun r hr => hr.acts
    | rename d name d' name' =>
      exact Ends.mono (ext2Rename_refused hl harg List.mem_cons_self
        (List.mem_cons_of_mem d List.mem_cons_self) (henters (List.mem_singleton.mp hempty).symm))
        fun r hr => hr.acts
    | _ => cases hempty
  · exact handle_calls hl hv hreq.toProperRequest hdirs htransfer fun name hname heq =>
      hempty (heq ▸ hname)

/-- Every live record of a directory has a name, whatever requests there were. -/
theorem Reached.named (hv : Layout v) (hbe : v.beCpu = false) (hsize : 4 ≤ v.sizeofIno)
    (h₀ : Consistent v (initInodeCache s₀))
    (hnames : ∀ n, InodeInUse v (initInodeCache s₀) n →
      sIsDir (nodeAt v (initInodeCache s₀) n).mode = true →
      DirWith v (initInodeCache s₀) (fun _ name => name ≠ []) n)
    (h : Reached v (NamesRequest v) (initInodeCache s₀) s) :
    ∃ live, Owned v Behind s [] live noArg ∧ DirsWith v s (fun _ name => name ≠ []) live noArg := by
  induction h with
  | start => exact ⟨_, h₀.owned Behind, fun n hn hd => hnames n hn (hd.resolve_right id)⟩
  | step _ hok hrun ih =>
    obtain ⟨live, hs, hdirs⟩ := ih
    have hacts := hok.calls hs.cache.toListsOk hv _ hrun
    obtain ⟨live', hs', hkeep⟩ := hs.acts hv Behind.lagOk hbe hsize hok.dirs hacts
    exact ⟨live', hs', hkeep _ (fun _ _ hname => hname) hdirs⟩

/-- In every run of requests none of which enters the empty name, a lookup finds no record of
another name. -/
theorem lookups_byName (hv : Layout v) (hbe : v.beCpu = false) (hsize : 4 ≤ v.sizeofIno)
    (h₀ : Consistent v (initInodeCache s₀))
    (hnames : ∀ n, InodeInUse v (initInodeCache s₀) n →
      sIsDir (nodeAt v (initInodeCache s₀) n).mode = true →
      DirWith v (initInodeCache s₀) (fun _ name => name ≠ []) n)
    (h : Reached v (NamesRequest v) (initInodeCache s₀) s) : AnswersByName v s := by
  obtain ⟨live, hs, hdirs⟩ := h.named hv hbe hsize h₀ hnames
  intro n name m hn hdir hfound
  obtain ⟨rows, hrows, hnamed⟩ := hdirs n (hs.inodeInUse hn) (.inl hdir)
  refine ⟨rows, hrows, ?_⟩
  by_cases hname : name.length ≤ nameMax
  · have hbytes : contentAt v s n = byteAt v s.blk (nodeAt v s n) := rfl
    rw [hbytes] at hrows
    rcases lookupDir_rows hv.log_le hbe hrows hname with ⟨hnone, -⟩ | ⟨e, hdone, he, ha⟩
    · rw [hnone] at hfound
      cases hfound
    · rw [hdone] at hfound
      cases hfound
      exact ⟨e, he, ha.1, ha.2.resolve_left (hnamed e he ha.1), rfl⟩
  · rw [lookupDir, if_pos (by omega)] at hfound
    cases hfound

/-! ### Requests to the small volume -/

theorem sampleFs_named (n : Nat) (hn : InodeInUse sampleVolume (initInodeCache sampleFs) n)
    (_ : sIsDir (nodeAt sampleVolume (initInodeCache sampleFs) n).mode = true) :
    DirWith sampleVolume (initInodeCache sampleFs) (fun _ name => name ≠ []) n := by
  rw [(sampleFs_inodeInUse n).mp hn]
  refine ⟨sampleRows, sampleFs_rows, ?_⟩
  rintro e ⟨k, -, he⟩ -
  have hnames : ∀ e ∈ sampleRows 0, e.name ≠ [] := by decide
  exact hnames e he

/-- Making a node with a name, after which lookups are by name. -/
theorem lookups_byName_sample :
    ∃ s reply, handle (inodeCalls sampleVolume sampleEnv) sampleVolume sampleEnv
        (initInodeCache sampleFs) (.mknod rootIno [0x61] 0x81A4 0 0) = .ok (s, reply) ∧
      AnswersByName sampleVolume s := by
  have hok : (handle (inodeCalls sampleVolume sampleEnv) sampleVolume sampleEnv
      (initInodeCache sampleFs) (.mknod rootIno [0x61] 0x81A4 0 0)).isOk = true := by decide
  generalize hrun : handle (inodeCalls sampleVolume sampleEnv) sampleVolume sampleEnv
    (initInodeCache sampleFs) (.mknod rootIno [0x61] 0x81A4 0 0) = r at hok
  cases r with
  | error e => cases hok
  | ok r =>
    have hreq : NamesRequest sampleVolume (initInodeCache sampleFs) sampleEnv
        (.mknod rootIno [0x61] 0x81A4 0 0) := ⟨sampleFs_mknod [0x61], rfl, fun h => by cases h⟩
    exact ⟨r.1, r.2, rfl, lookups_byName sampleVolume_layout rfl (by decide) sampleFs_consistent
      sampleFs_named (.step .start hreq hrun)⟩

/-- Making one without, after which a name that is not there is found. -/
theorem mknod_answersAll :
    ∃ s reply, handle (inodeCalls sampleVolume sampleEnv) sampleVolume sampleEnv
        (initInodeCache sampleFs) (.mknod rootIno [] 0x81A4 0 0) = .ok (s, reply) ∧
      lookupDir sampleVolume s.blk (nodeAt sampleVolume s 2) [0x61] = .ok (.ok 11) ∧
      ¬ AnswersByName sampleVolume s := by
  have hok : (handle (inodeCalls sampleVolume sampleEnv) sampleVolume sampleEnv
      (initInodeCache sampleFs) (.mknod rootIno [] 0x81A4 0 0)).toOption.map (fun r =>
        ((lookupDir sampleVolume r.1.blk (nodeAt sampleVolume r.1 2) [0x61]).toOption.map
          Except.toOption, (nodeAt sampleVolume r.1 2).linksCount,
          sIsDir (nodeAt sampleVolume r.1 2).mode)) = some (some (some 11), 2, true) := by
    decide
  generalize hrun : handle (inodeCalls sampleVolume sampleEnv) sampleVolume sampleEnv
    (initInodeCache sampleFs) (.mknod rootIno [] 0x81A4 0 0) = r at hok
  cases r with
  | error e => cases hok
  | ok r =>
    simp only [Except.toOption, Option.map_some, Option.some.injEq, Prod.mk.injEq] at hok
    obtain ⟨hlookup, hlinks, hdir⟩ := hok
    have hfound : lookupDir sampleVolume r.1.blk (nodeAt sampleVolume r.1 2) [0x61] = .ok (.ok 11) := by
      generalize lookupDir sampleVolume r.1.blk (nodeAt sampleVolume r.1 2) [0x61] = x at hlookup
      cases x with
      | error e => cases hlookup
      | ok x =>
        cases x with
        | error e => cases hlookup
        | ok m =>
          cases hlookup
          rfl
    refine ⟨r.1, r.2, rfl, hfound, fun hby => ?_⟩
    -- every record is that of inode 2, or has the empty name
    have hroot : DirsWith sampleVolume (initInodeCache sampleFs) (fun m name => m = 2 ∨ name = [])
        (InodeInUse sampleVolume (initInodeCache sampleFs)) noArg := by
      intro n hn _
      rw [(sampleFs_inodeInUse n).mp hn]
      refine ⟨sampleRows, sampleFs_rows, ?_⟩
      rintro e ⟨k, -, he⟩ -
      have hinos : ∀ e ∈ sampleRows 0, e.ino = 2 := by decide
      exact .inl (hinos e he)
    have hs := sampleFs_consistent.owned Behind
    have hproper := sampleFs_mknod []
    have hacts := handle_calls hs.cache.toListsOk sampleVolume_layout hproper rfl rfl
      (P := fun name => name = []) (fun name hname => List.mem_singleton.mp hname) r hrun
    obtain ⟨live, hs', hkeep⟩ := hs.acts sampleVolume_layout Behind.lagOk rfl (by decide)
      hproper.dirs hacts
    have huse : InodeInUse sampleVolume r.1 2 := ⟨⟨by decide, by decide⟩, by rw [hlinks]; decide⟩
    obtain ⟨rows, hrows, hentries⟩ := hkeep _ (fun _ _ hname => .inr hname) hroot 2
      (hs'.inodeInUse huse) (.inl hdir)
    obtain ⟨rows', hrows', e, ⟨k, hk, he⟩, hne, hname, hino⟩ := hby 2 [0x61] 11 huse hdir hfound
    rw [(hrows' k hk).unique (hrows k hk)] at he
    rcases hentries e ⟨k, hk, he⟩ hne with htwo | hempty
    · rw [hino] at htwo
      cases htwo
    · rw [hname] at hempty
      cases hempty

end Run

end Cheviot.Ext2
