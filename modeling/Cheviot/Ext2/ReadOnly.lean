import Cheviot.Ext2.CacheRun

/-!
# A volume mounted read-only

`config.read_only` is looked at in `write_inode` and in `update_times` only.
Everything else that stores something goes on as on any other mount.

Each handler is followed along its calls: `Quiet` keeps it from those that would not be calm,
and the calm ones compose. A state that is calm shows the disk as it was mounted, as
`write_inode` is the only one that may still write, and does not.

* `Calm` — nothing is marked dirty, no counter changes, and no block outside the
  inode tables: what a request does that only takes and gives back references and
  changes inodes in the cache.
* `Quiet` — when a request is one of these, by the state it finds.
* `readOnly_run` — a run of such requests leaves the disk image as it was.
-/

namespace Cheviot.Ext2

open Cheviot.Run

/-! ## What may change -/

/-- Nothing has been marked dirty, counted, or stored outside the inode tables. -/
structure Calm (v : Volume) (s s' : Fs) : Prop where
  dirty : s'.dirtyBlk = s.dirtyBlk
  free_blocks : s'.freeBlocksCount = s.freeBlocksCount
  free_inodes : s'.freeInodesCount = s.freeInodesCount
  dirs : s'.dirsCounter = s.dirsCounter
  gd : s'.gd = s.gd
  blk : ∀ b, (∀ n, OnVolume v n → b ≠ v.inodeTableBlock n) → s'.blk b = s.blk b

variable {v : Volume} {env : Env} {s₀ s s' s'' : Fs} {held rest : List Nat}

theorem Calm.refl (v : Volume) (s : Fs) : Calm v s s := ⟨rfl, rfl, rfl, rfl, rfl, fun _ _ => rfl⟩

theorem Calm.trans (h : Calm v s s') (h' : Calm v s' s'') : Calm v s s'' :=
  ⟨h'.dirty.trans h.dirty, h'.free_blocks.trans h.free_blocks,
    h'.free_inodes.trans h.free_inodes, h'.dirs.trans h.dirs, h'.gd.trans h.gd,
    fun b hb => (h'.blk b hb).trans (h.blk b hb)⟩

theorem Calm.setSlot (s : Fs) (i : Nat) (x : Inode) : Calm v s (s.setSlot i x) :=
  ⟨rfl, rfl, rfl, rfl, rfl, fun _ _ => rfl⟩

theorem GotInode.calm {n i : Nat} (h : GotInode v s n i s') : Calm v s s' := by
  cases h <;> exact ⟨rfl, rfl, rfl, rfl, rfl, fun _ _ => rfl⟩

/-- Writing an inode on a read-only mount marks nothing. -/
theorem wroteInode_calm (hro : v.readOnly = true) {i : Nat} (hvol : OnVolume v (s.slot i).ino) :
    Calm v s (wroteInode v env s i) := by
  refine ⟨?_, rfl, rfl, rfl, rfl, fun b hb => wroteInode_blk_ne (hb _ hvol)⟩
  show (if v.readOnly = true then s.dirtyBlk else _) = _
  rw [if_pos hro]

/-! ## Taking and giving back references -/

/-- The slot `get_inode` returns has the inode behind the number. -/
theorem gotInode_odi {n i : Nat} (h : GotInode v s n i s') (hl : ListsOk s held)
    (hn : n ≠ noEntry) : (s'.slot i).odi = nodeAt v s n := by
  cases h with
  | hit hi => rw [hitState_odi, hl.nodeAt_cached hn hi]
  | load hnone _ _ => rw [loadState_slot, if_pos rfl, hl.nodeAt_uncached hn hnone]

/-- The slots that are held already keep their inodes. -/
theorem GotInode.slot_held {n i j : Nat} (h : GotInode v s n i s') (hl : ListsOk s held)
    (hj : j ∈ held) : (s'.slot j).odi = (s.slot j).odi := by
  cases h with
  | hit hi => exact hitState_odi i j
  | load _ hhead _ =>
    have hne : j ≠ i := fun he => (hl.head_free hhead).2.2 (he ▸ hj)
    rw [loadState_slot, if_neg hne]

/-- There is no inode 0 to be had. -/
theorem getInode_zero (hv : Layout v) (hl : ListsOk s held) (hlen : held.length < nrInodes) :
    ∃ e, getInode v s 0 = .error e := by
  have hnone : searchBucket s 0 0 = none := by
    refine List.find?_eq_none.mpr fun i hi => ?_
    have hne : (s.slot i).ino ≠ 0 := ((hl.hash_mem 0 i).mp hi).2.1
    simpa using hne
  obtain ⟨i, rest, hun⟩ := List.exists_cons_of_ne_nil (hl.unused_ne_nil hlen)
  have hgroup : v.groupsCount ≤ v.inodeGroup 0 := by
    rw [Volume.inodeGroup, pred32, if_pos rfl, Nat.le_div_iff_mul_le hv.ipg_pos]
    have := hv.inos_lt
    omega
  refine ⟨.panic "can't get group_desc to read inode", ?_⟩
  rw [getInode, bind_of_ok (bucketOf_eq (by decide))]
  simp only [show (0 : Nat) % inodeHashSize = 0 from rfl, hnone, hun]
  have hread : ∀ t : Fs, (t.slot i).ino = 0 →
      readInode v t i = .error (.panic "can't get group_desc to read inode") := by
    intro t ht
    rw [readInode]
    simp only [ht]
    rw [if_pos hgroup]
  rw [hread _ (by simp [Fs.setSlot])]
  rfl

/-- `get_inode` with any 32-bit number: if it ends well there is such an inode. -/
theorem getInode_any (hv : Layout v) (hl : ListsOk s held) (hlen : held.length < nrInodes)
    {n : Nat} (hlt : n < 2 ^ 32) {r : Option Nat} (h : getInode v s n = .ok (s', r)) :
    n ≠ noEntry ∧ ∃ i, r = some i ∧ GotInode v s n i s' := by
  have hn : n ≠ noEntry := by
    intro h0
    subst h0
    obtain ⟨e, he⟩ := getInode_zero hv hl hlen
    rw [he] at h
    cases h
  exact ⟨hn, getInode_ok hl hlen hn hlt h⟩

/-- Giving back a reference to an inode with links leaves the links of the slots alone. -/
theorem PutInode.calm (hro : v.readOnly = true) (hv : Layout v) (hl : ListsOk s held) {i : Nat}
    (hi : i ∈ held) (hlinks : (s.slot i).odi.linksCount ≠ 0) (h : PutInode v env s i s') :
    Calm v s s' ∧ ∀ j, (s'.slot j).odi.linksCount = (s.slot j).odi.linksCount := by
  cases h with
  | keep _ hgroup =>
    constructor
    · have hflush : Calm v s (flushedInode v env s i) := by
        unfold flushedInode
        split
        next hd => exact wroteInode_calm hro (onVolume_of_group hv (hl.held_mem i hi).2 (hgroup hd))
        next => exact Calm.refl v s
      exact hflush.trans ⟨rfl, rfl, rfl, rfl, rfl, fun _ _ => rfl⟩
    · intro j
      rw [dropRef_odi]
      show ((flushedInode v env s i).slot j).odi.untimed.linksCount = _
      rw [flushedInode_untimed]
      rfl
  | release _ h0 _ _ => exact absurd h0 hlinks

/-- Where a request stands that began in `s₀`, has done nothing but calm steps, and
holds references to inodes with links only. -/
structure CalmAt (v : Volume) (s₀ s : Fs) (held : List Nat) : Prop where
  lists : ListsOk s held
  calm : Calm v s₀ s
  linked : ∀ i ∈ held, (s.slot i).odi.linksCount ≠ 0

/-- What `get_inode n` has done, with the slots of `held` held before. -/
structure Loaded (v : Volume) (s : Fs) (held : List Nat) (n i : Nat) (s' : Fs) : Prop where
  run : getInode v s n = .ok (s', some i)
  odi : (s'.slot i).odi = nodeAt v s n
  ino : (s'.slot i).ino = n
  kept : ∀ j ∈ held, (s'.slot j).odi = (s.slot j).odi
  blk : s'.blk = s.blk
  calm : Calm v s s'

theorem CalmAt.get (hh : CalmAt v s₀ s held) (hv : Layout v) (hlen : held.length < nrInodes)
    {n : Nat} (hlt : n < 2 ^ 32) (hlinks : (nodeAt v s n).linksCount ≠ 0) :
    Ends (getInode v s n) fun r => ∃ i, r.2 = some i ∧ Loaded v s held n i r.1 ∧
      CalmAt v s₀ r.1 (i :: held) := by
  intro r h
  obtain ⟨t, o⟩ := r
  obtain ⟨hn, i, rfl, hgot⟩ := getInode_any hv hh.lists hlen hlt h
  have hodi := gotInode_odi hgot hh.lists hn
  have hkeep : ∀ j ∈ held, (t.slot j).odi = (s.slot j).odi := fun j hj =>
    hgot.slot_held hh.lists hj
  refine ⟨i, rfl, ⟨h, hodi, (hgot.cached hh.lists).2, hkeep, hgot.blk, hgot.calm⟩,
    hgot.lists hh.lists hn, hh.calm.trans hgot.calm, fun j hj => ?_⟩
  rcases List.mem_cons.mp hj with rfl | hj
  · rw [hodi]
    exact hlinks
  · rw [hkeep j hj]
    exact hh.linked j hj

theorem CalmAt.put (hh : CalmAt v s₀ s held) (hro : v.readOnly = true) (hv : Layout v) {i : Nat}
    (hp : held.Perm (i :: rest)) : Ends (putInode v env s i) fun t => CalmAt v s₀ t rest := by
  intro t h
  have hi : i ∈ held := hp.mem_iff.mpr List.mem_cons_self
  have hput := putInode_ok hh.lists hi h
  obtain ⟨hcalm, hlinks⟩ := hput.calm hro hv hh.lists hi (hh.linked i hi)
  have hrest : (held.erase i).Perm rest := ((List.perm_cons_erase hi).symm.trans hp).cons_inv
  refine ⟨(hput.lists hh.lists hi).perm hrest, hh.calm.trans hcalm, fun j hj => ?_⟩
  rw [hlinks]
  exact hh.linked j (hp.mem_iff.mpr (List.mem_cons_of_mem i hj))

/-- A change of a slot that leaves its links alone. -/
theorem CalmAt.setSlot (hh : CalmAt v s₀ s held) {i : Nat} {x : Inode}
    (hino : x.ino = (s.slot i).ino) (hcount : x.count = (s.slot i).count)
    (hlinks : x.odi.linksCount = (s.slot i).odi.linksCount) :
    CalmAt v s₀ (s.setSlot i x) held := by
  refine ⟨hh.lists.same (.setSlot s hino hcount), hh.calm.trans (.setSlot s i x), fun j hj => ?_⟩
  by_cases hji : j = i
  · subst hji
    simp only [Fs.setSlot, Function.update_self, hlinks]
    exact hh.linked j hj
  · simp only [Fs.setSlot, Function.update_of_ne hji]
    exact hh.linked j hj

/-! ## Quiet requests -/

/-- The state once the inodes of the list have been loaded, one after another. -/
def loaded (v : Volume) (s : Fs) : List Nat → Fs
  | [] => s
  | n :: ns =>
    match getInode v s n with
    | .ok (s', _) => loaded v s' ns
    | .error _ => s

/-- Inode `n`, as it shows once the inodes of the list have been loaded, has links. -/
def Linked (v : Volume) (s : Fs) (ns : List Nat) (n : Nat) : Prop :=
  (nodeAt v (loaded v s ns) n).linksCount ≠ 0

/-- Directory `d` has an entry of that name, with inode `n`. -/
def Finds (v : Volume) (s : Fs) (d : Nat) (name : List UInt8) (n : Nat) : Prop :=
  lookupDir v s.blk (nodeAt v s d) name = .ok (.ok n)

/-- Directory `d` gets no new entry: it has too many links for another directory,
it has the name, or there is no group with a free inode. -/
def Refused (v : Volume) (s : Fs) (env : Env) (d : Nat) (name : List UInt8) (mode : UInt16) :
    Prop :=
  (sIsDir mode = true ∧ v.linkMax ≤ (nodeAt v s d).linksCount.toNat) ∨
    (∃ n, Finds v s d name n) ∨ findFreeInodeGroup v env s d mode = .ok none

/-- No group has a free block, by its descriptor or by the superblock. -/
def NoFreeBlock (v : Volume) (s : Fs) : Prop :=
  s.freeBlocksCount = 0 ∨ ∀ g, g < v.groupsCount → (s.gd g).freeBlocksCount = 0

/-- A write does nothing to the blocks: the inode is not in the cache, the end is past
`MAX_FILE_POS`, there are no bytes, or the first one is in a hole and no block is free. -/
def QuietWrite (v : Volume) (s : Fs) (ino count offset : Nat) : Prop :=
  findInode s ino = .ok none ∨ offT ((maxFilePos + 2 ^ 32 - count) % 2 ^ 32) < offset ∨ count = 0 ∨
    ∀ i, findInode s ino = .ok (some i) →
      readMapEntry v s.blk (s.slot i).odi offset = noBlock ∧ NoFreeBlock v s

/-- There is no room for the name in directory `d`, once `ns` have been loaded. -/
def NoRoom (v : Volume) (s : Fs) (ns : List Nat) (d : Nat) (name : List UInt8) : Prop :=
  nameMax < name.length ∨
    findSpace v s.blk (nodeAt v (loaded v s ns) d) (dirEntrySize name.length) = .ok none

/-- A request that stores nothing and allocates nothing, by the state it finds. -/
def Quiet (v : Volume) (s : Fs) (env : Env) : Request → Prop
  | .read _ _ _ _ | .close | .truncate _ _ | .other => True
  | .write ino count offset _ => QuietWrite v s ino count offset
  | .readdir ino _ _ | .chmod ino _ | .chown ino _ _ => Linked v s [] ino
  | .lookup d name => Linked v s [] d ∧ ∀ n, Finds v s d name n → Linked v s [d] n
  | .create d name mode _ _ =>
    Linked v s [] d ∧ Refused v s env d name (0x8000 ||| (mode &&& 0x1FF))
  | .mkdir d name mode _ _ | .mknod d name mode _ _ =>
    Linked v s [] d ∧ Refused v s env d name mode
  | .unlink d name => Linked v s [] d ∧ ∀ n, ¬ Finds v s d name n
  | .rmdir d name => Linked v s [] d ∧ ∀ n, Finds v s d name n →
      Linked v s [d] n ∧ isDirEmpty v s.blk (nodeAt v (loaded v s [d]) n) ≠ .ok true
  | .rename d name d' name' => Linked v s [] d ∧ Linked v s [d] d' ∧ ∀ n, Finds v s d name n →
      Linked v s [d, d'] n ∧ NoRoom v s [d] d' name'

theorem Loaded.cons {n i : Nat} (h : Loaded v s held n i s') (ns : List Nat) :
    loaded v s (n :: ns) = loaded v s' ns := by
  rw [loaded, h.run]

theorem CalmAt.start (hl : ListsOk s []) : CalmAt v s s [] :=
  ⟨hl, .refl v s, fun _ h => nomatch h⟩

/-! ## The handlers -/

section Handlers

variable (hro : v.readOnly = true) (hv : Layout v)

include hro hv

/-- Giving back the only reference. -/
theorem CalmAt.putLast {i : Nat} {reply : Reply} (hh : CalmAt v s₀ s [i]) :
    Ends (do return (← putInode v env s i, reply)) fun r : Fs × Reply => CalmAt v s₀ r.1 [] :=
  Ends.bind (hh.put hro hv (.refl _)) fun _ ht => .pure ht

/-- Giving back two references. -/
theorem CalmAt.putBoth {i j : Nat} {reply : Reply} (hh : CalmAt v s₀ s held)
    (hp : held.Perm [i, j]) :
    Ends (do
      let s ← putInode v env s i
      let s ← putInode v env s j
      return (s, reply)) fun r : Fs × Reply => CalmAt v s₀ r.1 [] :=
  Ends.bind (hh.put hro hv hp) fun _ ht => ht.putLast hro hv

theorem ext2Readdir_calm (hl : ListsOk s []) {ino : Nat} (hlt : ino < 2 ^ 32)
    (hlinks : Linked v s [] ino) (offset sz : Nat) :
    Ends (ext2Readdir (inodeCalls v env) v s ino offset sz) fun r => CalmAt v s r.1 [] := by
  refine Ends.bind ((CalmAt.start hl).get hv (by decide) hlt hlinks) fun r hr => ?_
  obtain ⟨t, inode⟩ := r
  obtain ⟨dir, rfl, -, ht⟩ := hr
  refine Ends.bind (Ends.self _) fun r _ => ?_
  match r with
  | .error e => exact ht.putLast hro hv
  | .ok (cookie, entries) =>
    have hmark : CalmAt v s (markAtime t dir) [dir] := ht.setSlot rfl rfl rfl
    exact hmark.putLast hro hv

theorem changeHandler_calm (hl : ListsOk s []) {ino : Nat} (hlt : ino < 2 ^ 32)
    (hlinks : Linked v s [] ino) {f : OndiskInode → OndiskInode}
    (hf : ∀ x, (f x).linksCount = x.linksCount) :
    Ends (changeHandler (inodeCalls v env) s ino f) fun r => CalmAt v s r.1 [] := by
  refine Ends.bind ((CalmAt.start hl).get hv (by decide) hlt hlinks) fun r hr => ?_
  obtain ⟨t, inode⟩ := r
  obtain ⟨i, rfl, -, ht⟩ := hr
  have hchange : CalmAt v s (changeInode t i f) [i] := ht.setSlot rfl rfl (hf _)
  exact hchange.putLast hro hv

theorem ext2Lookup_calm (hl : ListsOk s []) {d : Nat} (hlt : d < 2 ^ 32) {name : List UInt8}
    (hlinks : Linked v s [] d) (hfinds : ∀ n, Finds v s d name n → Linked v s [d] n) :
    Ends (ext2Lookup (inodeCalls v env) v s d name) fun r => CalmAt v s r.1 [] := by
  refine Ends.bind ((CalmAt.start hl).get hv (by decide) hlt hlinks) fun r hr => ?_
  obtain ⟨t, inode⟩ := r
  obtain ⟨dir, rfl, hd, ht⟩ := hr
  refine Ends.bind (Ends.self _) fun r hfound => ?_
  match r with
  | .error e => exact ht.putLast hro hv
  | .ok n =>
    rw [hd.odi, hd.blk] at hfound
    have hn := hfinds n hfound
    rw [Linked, hd.cons] at hn
    refine Ends.bind (ht.get hv (by decide : 1 < nrInodes) (lookupDir_ends _ hfound n rfl).2 hn)
      fun r hr => ?_
    obtain ⟨u, inode⟩ := r
    obtain ⟨i, rfl, -, hu⟩ := hr
    exact hu.putBoth hro hv (.refl _)

theorem ext2Unlink_calm (hl : ListsOk s []) {d : Nat} (hlt : d < 2 ^ 32) {name : List UInt8}
    (hlinks : Linked v s [] d) (hfinds : ∀ n, ¬ Finds v s d name n) :
    Ends (ext2Unlink (inodeCalls v env) v env s d name) fun r => CalmAt v s r.1 [] := by
  refine Ends.bind ((CalmAt.start hl).get hv (by decide) hlt hlinks) fun r hr => ?_
  obtain ⟨t, inode⟩ := r
  obtain ⟨dir, rfl, hd, ht⟩ := hr
  refine Ends.bind (Ends.self _) fun r hfound => ?_
  match r with
  | .error e => exact ht.putLast hro hv
  | .ok n =>
    rw [hd.odi, hd.blk] at hfound
    exact absurd hfound (hfinds n)

theorem ext2Rmdir_calm (hl : ListsOk s []) {d : Nat} (hlt : d < 2 ^ 32) {name : List UInt8}
    (hlinks : Linked v s [] d) (hfinds : ∀ n, Finds v s d name n → Linked v s [d] n ∧
      isDirEmpty v s.blk (nodeAt v (loaded v s [d]) n) ≠ .ok true) :
    Ends (ext2Rmdir (inodeCalls v env) v env s d name) fun r => CalmAt v s r.1 [] := by
  refine Ends.bind ((CalmAt.start hl).get hv (by decide) hlt hlinks) fun r hr => ?_
  obtain ⟨t, inode⟩ := r
  obtain ⟨dir, rfl, hd, ht⟩ := hr
  refine Ends.bind (Ends.self _) fun r hfound => ?_
  match r with
  | .error e => exact ht.putLast hro hv
  | .ok n =>
    rw [hd.odi, hd.blk] at hfound
    obtain ⟨hn, hempty⟩ := hfinds n hfound
    rw [Linked, hd.cons] at hn
    rw [hd.cons] at hempty
    refine Ends.bind (ht.get hv (by decide : 1 < nrInodes) (lookupDir_ends _ hfound n rfl).2 hn)
      fun r hr => ?_
    obtain ⟨u, inode⟩ := r
    obtain ⟨i, rfl, hi, hu⟩ := hr
    refine Ends.bind (Ends.self _) fun empty he => ?_
    rw [hi.odi, hi.blk, hd.blk] at he
    match empty with
    | true => exact absurd he hempty
    | false => exact hu.putBoth hro hv (.refl _)

omit hro hv in
/-- A name for which there is no room is not entered. -/
theorem direntEnter_noRoom {name : List UInt8} {i : Nat}
    (h : nameMax < name.length ∨
      findSpace v s.blk (s.slot i).odi (dirEntrySize name.length) = .ok none)
    (env : Env) (ino : Nat) (mode : UInt16) :
    ∃ e, direntEnter v env s i name ino mode = .ok (s, .error e) := by
  unfold direntEnter
  split
  next hlong => exact ⟨.enametoolong, rfl⟩
  next hshort =>
    rcases h with h | h
    · exact absurd h hshort
    · exact ⟨.enoent, by rw [bind_of_ok h]; rfl⟩

theorem ext2Rename_calm (hl : ListsOk s []) {d d' : Nat} (hlt : d < 2 ^ 32) (hlt' : d' < 2 ^ 32)
    {name name' : List UInt8} (hlinks : Linked v s [] d) (hlinks' : Linked v s [d] d')
    (hfinds : ∀ n, Finds v s d name n → Linked v s [d, d'] n ∧ NoRoom v s [d] d' name') :
    Ends (ext2Rename (inodeCalls v env) v env s d name d' name') fun r => CalmAt v s r.1 [] := by
  refine Ends.bind ((CalmAt.start hl).get hv (by decide) hlt hlinks) fun r hr => ?_
  obtain ⟨t, inode⟩ := r
  obtain ⟨dir, rfl, hd, ht⟩ := hr
  rw [Linked, hd.cons] at hlinks'
  refine Ends.bind (ht.get hv (by decide : 1 < nrInodes) hlt' hlinks') fun r hr => ?_
  obtain ⟨u, inode⟩ := r
  obtain ⟨dir', rfl, hd', hu⟩ := hr
  refine Ends.bind (Ends.self _) fun r hfound => ?_
  match r with
  | .error e => exact hu.putBoth hro hv (.swap _ _ _)
  | .ok n =>
    rw [hd'.kept dir List.mem_cons_self, hd.odi, hd'.blk, hd.blk] at hfound
    obtain ⟨hn, hroom⟩ := hfinds n hfound
    rw [Linked, hd.cons, hd'.cons] at hn
    rw [NoRoom, hd.cons] at hroom
    refine Ends.bind (hu.get hv (by decide : 2 < nrInodes) (lookupDir_ends _ hfound n rfl).2 hn)
      fun r hr => ?_
    obtain ⟨w, inode⟩ := r
    obtain ⟨i, rfl, hi, hw⟩ := hr
    have hblk : w.blk = s.blk := hi.blk.trans (hd'.blk.trans hd.blk)
    have hodi : (w.slot dir').odi = nodeAt v (loaded v t []) d' :=
      (hi.kept dir' List.mem_cons_self).trans hd'.odi
    rw [← hblk, ← hodi] at hroom
    obtain ⟨e, he⟩ := direntEnter_noRoom hroom env n (w.slot i).odi.mode
    refine Ends.bind (P := fun r => r.1 = w) ?_ fun r hr => ?_
    · rw [moveEntry, bind_of_ok he]
      exact .pure rfl
    · obtain ⟨x, sc⟩ := r
      subst hr
      exact Ends.bind (hw.put hro hv (.refl _)) fun y hy => hy.putBoth hro hv (.refl _)

omit hro hv in
/-- A directory that gets no new entry: `new_inode` fails before it does anything. -/
theorem newInode_refused {c : InodeCalls} {t : Fs} {d dir : Nat} {name : List UInt8}
    {mode uid gid : UInt16} (hd : Loaded v s [] d dir t)
    (href : Refused v s env d name mode) :
    Ends (newInode c v env t dir name mode uid gid) fun r => r.1 = t ∧ ∃ e, r.2 = .error e := by
  unfold newInode
  refine Ends.bind (Ends.self _) fun r hr => ?_
  match r with
  | some e => exact .pure ⟨rfl, e, rfl⟩
  | none =>
    rw [refuseName] at hr
    simp only [hd.odi, hd.blk] at hr
    split at hr
    · cases hr
    split at hr
    · cases hr
    next hmlink =>
      obtain ⟨found, hfound, hr⟩ := ok_of_bind hr
      match found with
      | .ok n => cases hr
      | .error e =>
        -- what is left is that no group has a free inode
        have hnone : findFreeInodeGroup v env s d mode = .ok none := by
          rcases href with h | ⟨n, hn⟩ | h
          · exact absurd h hmlink
          · rw [Finds, hfound] at hn
            cases hn
          · exact h
        rw [← findFreeInodeGroup_congr hd.calm.gd hd.calm.free_inodes env, ← hd.ino] at hnone
        have halloc : allocInode c v env t dir mode uid gid = .ok (t, .error .enospc) := by
          rw [allocInode, bind_of_ok hnone]
          rfl
        refine Ends.bind (Ends.self _) fun r hr => ?_
        rw [halloc] at hr
        cases hr
        exact .pure ⟨rfl, .enospc, rfl⟩

theorem ext2Create_calm (hl : ListsOk s []) {d : Nat} (hlt : d < 2 ^ 32) {name : List UInt8}
    {mode : UInt16} (uid gid : UInt16) (hlinks : Linked v s [] d)
    (href : Refused v s env d name (0x8000 ||| (mode &&& 0x1FF))) :
    Ends (ext2Create (inodeCalls v env) v env s d name mode uid gid) fun r => CalmAt v s r.1 [] := by
  refine Ends.bind ((CalmAt.start hl).get hv (by decide) hlt hlinks) fun r hr => ?_
  obtain ⟨t, inode⟩ := r
  obtain ⟨dir, rfl, hd, ht⟩ := hr
  refine Ends.bind (newInode_refused hd href) fun r hr => ?_
  obtain ⟨u, inode⟩ := r
  obtain ⟨rfl, e, rfl⟩ := hr
  exact ht.putLast hro hv

theorem ext2Mkdir_calm (hl : ListsOk s []) {d : Nat} (hlt : d < 2 ^ 32) {name : List UInt8}
    {mode : UInt16} (uid gid : UInt16) (hlinks : Linked v s [] d)
    (href : Refused v s env d name mode) :
    Ends (ext2Mkdir (inodeCalls v env) v env s d name mode uid gid) fun r => CalmAt v s r.1 [] := by
  refine Ends.bind ((CalmAt.start hl).get hv (by decide) hlt hlinks) fun r hr => ?_
  obtain ⟨t, inode⟩ := r
  obtain ⟨dir, rfl, hd, ht⟩ := hr
  refine Ends.bind (newInode_refused hd href) fun r hr => ?_
  obtain ⟨u, inode⟩ := r
  obtain ⟨rfl, e, rfl⟩ := hr
  exact ht.putLast hro hv

theorem ext2Mknod_calm (hl : ListsOk s []) {d : Nat} (hlt : d < 2 ^ 32) {name : List UInt8}
    {mode : UInt16} (uid gid : UInt16) (hlinks : Linked v s [] d)
    (href : Refused v s env d name mode) :
    Ends (ext2Mknod (inodeCalls v env) v env s d name mode uid gid) fun r => CalmAt v s r.1 [] := by
  refine Ends.bind ((CalmAt.start hl).get hv (by decide) hlt hlinks) fun r hr => ?_
  obtain ⟨t, inode⟩ := r
  obtain ⟨dir, rfl, hd, ht⟩ := hr
  refine Ends.bind (newInode_refused hd href) fun r hr => ?_
  obtain ⟨u, inode⟩ := r
  obtain ⟨rfl, e, rfl⟩ := hr
  exact ht.putLast hro hv

/-! ## Writes -/

omit hro hv in
/-- Without a free block `alloc_block` does nothing. -/
theorem allocBlock_none (hfree : NoFreeBlock v s) (ino goal : Nat) :
    Ends (allocBlock v env s ino goal) fun r => r = (s, noBlock) := by
  unfold allocBlock
  split
  · exact .ok rfl
  next hcount =>
    have hall : ∀ g, g < v.groupsCount → (s.gd g).freeBlocksCount = 0 := by
      rcases hfree with h | h
      · exact absurd h hcount
      · exact h
    have hloop : ∀ (n i word : Nat),
        Ends (allocBlockLoop v s n i word) fun r => r = (s, noBlock) := by
      intro n
      induction n with
      | zero => exact fun i word => .ok rfl
      | succ n ih =>
        intro i word
        unfold allocBlockLoop
        simp only
        split
        · exact .error _
        next hg =>
          rw [if_pos (hall _ (by omega))]
          exact ih _ _
    exact hloop _ _ _

omit hro hv in
/-- The first chunk of a write into a hole, without a free block. -/
theorem writeChunk_noBlock {i position off chunkSize msgOff : Nat} {msg : List UInt8}
    (hnull : readMapEntry v s.blk (s.slot i).odi position = noBlock) (hfree : NoFreeBlock v s) :
    Ends (writeChunk v env s i position off chunkSize msg msgOff) fun r =>
      r = (s, .error .eio) := by
  unfold writeChunk chunkBuffer newBlock
  simp only [hnull, if_true]
  refine Ends.bind (P := fun r => r = (s, none)) ?_ fun r hr => ?_
  · refine Ends.bind (allocBlock_none hfree _ _) fun r hr => ?_
    subst hr
    exact .pure rfl
  · subst hr
    exact .pure rfl

theorem writeInode_calm {i : Nat} (hne : (s.slot i).ino ≠ noEntry) :
    Ends (writeInode v env s i) (Calm v s) := by
  rw [writeInode_def]
  split
  · exact .error _
  next hg => exact .ok (wroteInode_calm hro (onVolume_of_group hv hne (by omega)))

theorem writeFile_calm {ino count offset : Nat} {msg : List UInt8} (hl : ListsOk s [])
    (hquiet : QuietWrite v s ino count offset) :
    Ends (writeFile v env s ino count offset msg) fun r => CalmAt v s r.1 [] := by
  suffices h : Ends (writeFile v env s ino count offset msg) fun r => Calm v s r.1 from
    fun r hr => ⟨hl.same (writeFile_keepsLists s _ _ _ _ r hr), h r hr,
      fun _ hi => absurd hi List.not_mem_nil⟩
  unfold writeFile
  refine Ends.bind (Ends.self _) fun r hfind => ?_
  cases r with
  | none => exact .pure (Calm.refl v s)
  | some i =>
    simp only
    split
    · exact .pure (Calm.refl v s)
    next hbig =>
      refine Ends.bind (P := fun r => r.1 = s ∧ (count = 0 ∨ r.2.2.2 = .error .eio)) ?_
        fun r hr => ?_
      · unfold writeLoop
        split
        next h0 => exact .ok ⟨rfl, .inl h0⟩
        next hpos =>
          -- a quiet write stops at once, or for want of a block
          have hnull : readMapEntry v s.blk (s.slot i).odi offset = noBlock ∧ NoFreeBlock v s := by
            rcases hquiet with h | h | h | h
            · rw [hfind] at h
              cases h
            · exact absurd h hbig
            · exact absurd h hpos
            · exact h i hfind
          refine Ends.bind (writeChunk_noBlock hnull.1 hnull.2) fun r hr => ?_
          subst hr
          exact .pure ⟨rfl, .inr rfl⟩
      · obtain ⟨t, position, total, sc⟩ := r
        obtain ⟨rfl, hsc⟩ := hr
        -- what comes after the loop is in the slot alone, until the inode is written
        have hgrow : Calm v t (growInode t i (t.slot i).odi.size.toNat position) ∧
            ((growInode t i (t.slot i).odi.size.toNat position).slot i).ino = (t.slot i).ino := by
          unfold growInode
          split
          · exact ⟨.setSlot t i _, (ListsSame.modOdi t i _).ino i⟩
          · exact ⟨.refl v t, rfl⟩
        cases sc with
        | error e => exact .pure hgrow.1
        | ok _ =>
          have hino' : ((inodeMarkdirty (touchInode (growInode t i (t.slot i).odi.size.toNat position)
              i) i).slot i).ino = (t.slot i).ino := by
            rw [← hgrow.2]
            simp [inodeMarkdirty, touchInode, Fs.setSlot]
          refine Ends.bind (writeInode_calm hro hv ?_) fun u hu => .pure ?_
          · rw [hino', (hl.find_cached hfind).1.2]
            exact (hl.find_cached hfind).2
          · exact hgrow.1.trans (((Calm.setSlot _ i _).trans (.setSlot _ i _)).trans hu)

/-- A quiet request is handled calmly. -/
theorem handle_calm (hl : ListsOk s []) {req : Request} (hlt : ∀ n ∈ req.inos, n < 2 ^ 32)
    (hquiet : Quiet v s env req) :
    Ends (handle (inodeCalls v env) v env s req) fun r => CalmAt v s r.1 [] := by
  have hfirst : ∀ {n : Nat} {ns : List Nat}, req.inos = n :: ns → n < 2 ^ 32 := fun h =>
    hlt _ (h ▸ List.mem_cons_self)
  cases req with
  | read ino count offset room =>
    -- a read takes an inode and puts it back: nothing else of the state changes
    have hread : Ends (readFile v s ino count offset room) fun r => CalmAt v s r.1 [] := by
      unfold readFile
      refine Ends.bind (Ends.self _) fun r _ => ?_
      match r with
      | none => exact .pure (.start hl)
      | some i =>
        refine Ends.bind (Ends.self _) fun r _ => ?_
        match r with
        | .error e => exact .pure (.start hl)
        | .ok bytes => exact .pure (.setSlot (.start hl) rfl rfl rfl)
    refine Ends.bind hread fun r hr => ?_
    obtain ⟨t, nbytesRead⟩ := r
    cases nbytesRead <;> exact .pure hr
  | write ino count offset msg =>
    refine Ends.bind (writeFile_calm hro hv hl hquiet) fun r hr => ?_
    obtain ⟨t, nbytesWritten⟩ := r
    cases nbytesWritten <;> exact .pure hr
  -- the other requests end with an error, or look at directories only
  | lookup d name => exact ext2Lookup_calm hro hv hl (hfirst rfl) hquiet.1 hquiet.2
  | close => exact .ok (.start hl)
  | create d name mode uid gid =>
    exact ext2Create_calm hro hv hl (hfirst rfl) uid gid hquiet.1 hquiet.2
  | readdir ino offset sz => exact ext2Readdir_calm hro hv hl (hfirst rfl) hquiet offset sz
  | unlink d name => exact ext2Unlink_calm hro hv hl (hfirst rfl) hquiet.1 hquiet.2
  | rmdir d name => exact ext2Rmdir_calm hro hv hl (hfirst rfl) hquiet.1 hquiet.2
  | mkdir d name mode uid gid =>
    exact ext2Mkdir_calm hro hv hl (hfirst rfl) uid gid hquiet.1 hquiet.2
  | mknod d name mode uid gid =>
    exact ext2Mknod_calm hro hv hl (hfirst rfl) uid gid hquiet.1 hquiet.2
  | rename d name d' name' =>
    exact ext2Rename_calm hro hv hl (hfirst rfl)
      (hlt d' (List.mem_cons_of_mem _ List.mem_cons_self)) hquiet.1 hquiet.2.1 hquiet.2.2
  | chmod ino mode => exact changeHandler_calm hro hv hl (hfirst rfl) hquiet fun _ => rfl
  | chown ino uid gid => exact changeHandler_calm hro hv hl (hfirst rfl) hquiet fun _ => rfl
  | truncate ino size => exact .ok (.start hl)
  | other => exact .ok (.start hl)

end Handlers

/-! ## A run -/

/-- What is on the disk once every buffer marked dirty has been written, with `disk`
what was there before. -/
def diskImage (disk : Nat → Bytes.Buf) (s : Fs) (b : Nat) : Bytes.Buf :=
  if s.dirtyBlk b then s.blk b else disk b

/-- The volume is as it was mounted: nothing is marked dirty, counters and bitmaps are
the same, and so is the disk. -/
structure Unwritten (v : Volume) (s₀ s : Fs) : Prop where
  clean : ∀ b, s.dirtyBlk b = false
  free_blocks : s.freeBlocksCount = s₀.freeBlocksCount
  free_inodes : s.freeInodesCount = s₀.freeInodesCount
  dirs : s.dirsCounter = s₀.dirsCounter
  gd : s.gd = s₀.gd
  block_bitmap : ∀ g, g < v.groupsCount → s.blk (v.blockBitmap g) = s₀.blk (v.blockBitmap g)
  inode_bitmap : ∀ g, g < v.groupsCount → s.blk (v.inodeBitmap g) = s₀.blk (v.inodeBitmap g)
  image : diskImage s₀.blk s = s₀.blk

/-- What has been done calmly to a clean volume leaves it unwritten. -/
theorem Calm.unwritten (hv : Layout v) (hclean : ∀ b, s₀.dirtyBlk b = false)
    (h : Calm v s₀ s) : Unwritten v s₀ s where
  clean b := by rw [h.dirty, hclean]
  free_blocks := h.free_blocks
  free_inodes := h.free_inodes
  dirs := h.dirs
  gd := h.gd
  block_bitmap _ hg := h.blk _ fun _ hn => inodeTableBlock_ne_block_bitmap hv hn hg
  inode_bitmap _ hg := h.blk _ fun _ hn => inodeTableBlock_ne_inode_bitmap hv hn hg
  image := by
    funext b
    rw [diskImage, h.dirty, hclean, if_neg Bool.false_ne_true]

/-- The requests of a run that leaves a read-only volume alone. -/
def QuietRequest (v : Volume) (s : Fs) (env : Env) (req : Request) : Prop :=
  (∀ n ∈ req.inos, n < 2 ^ 32) ∧ Quiet v s env req

theorem Reached.calm (hro : v.readOnly = true) (hv : Layout v) (hl : ListsOk s₀ [])
    (h : Reached v (QuietRequest v) s₀ s) : CalmAt v s₀ s [] := by
  induction h with
  | start => exact .start hl
  | @step s s' env req reply _ hok hrun ih =>
    have hstep := handle_calm hro hv ih.lists hok.1 hok.2 _ hrun
    exact ⟨hstep.lists, ih.calm.trans hstep.calm, hstep.linked⟩

/-- A run of quiet requests on a volume mounted read-only leaves it unwritten. -/
theorem readOnly_run (hro : v.readOnly = true) (hv : Layout v)
    (hclean : ∀ b, s₀.dirtyBlk b = false)
    (h : Reached v (QuietRequest v) (initInodeCache s₀) s) : Unwritten v s₀ s := by
  have hcalm := (h.calm hro hv (initInodeCache_lists s₀)).calm
  have hstart : Calm v s₀ (initInodeCache s₀) := ⟨rfl, rfl, rfl, rfl, rfl, fun _ _ => rfl⟩
  exact (hstart.trans hcalm).unwritten hv hclean

/-! ## The small volume, read-only -/

/-- The layout does not depend on how the volume is mounted. -/
theorem Layout.remount (hv : Layout v) (ro : Bool) : Layout { v with readOnly := ro } where
  log_le := hv.log_le
  bpg_pos := hv.bpg_pos
  bpg_le := hv.bpg_le
  bpg_lt := hv.bpg_lt
  first_lt := hv.first_lt
  blocks_lt := hv.blocks_lt
  block_bitmap_inj := hv.block_bitmap_inj
  ipg_pos := hv.ipg_pos
  ipg_le := hv.ipg_le
  inodes_lt := hv.inodes_lt
  inode_bitmap_inj := hv.inode_bitmap_inj
  inodeSize_ge := hv.inodeSize_ge
  inodeSize_dvd := hv.inodeSize_dvd
  ipb_dvd := hv.ipb_dvd
  inodesCount_eq := hv.inodesCount_eq
  inos_lt := hv.inos_lt
  table_lt := hv.table_lt
  table_end := hv.table_end
  table_inj := hv.table_inj
  table_ne_block_bitmap := hv.table_ne_block_bitmap
  table_ne_inode_bitmap := hv.table_ne_inode_bitmap
  bitmaps_ne := hv.bitmaps_ne

/-- The small volume, mounted read-only. -/
def readOnlyVolume : Volume := { sampleVolume with readOnly := true }

theorem readOnlyVolume_layout : Layout readOnlyVolume := sampleVolume_layout.remount true

/-- Making a node on a read-only mount takes an inode and marks its bitmap dirty. -/
theorem readOnly_mknod : Layout readOnlyVolume ∧ readOnlyVolume.readOnly = true ∧
    (∀ b, sampleFs.dirtyBlk b = false) ∧
    ∃ s, Reached readOnlyVolume (fun _ _ _ => True) (initInodeCache sampleFs) s ∧
      ¬ Unwritten readOnlyVolume sampleFs s := by
  refine ⟨readOnlyVolume_layout, rfl, fun _ => rfl, ?_⟩
  have hdirty : (match handle (inodeCalls readOnlyVolume sampleEnv) readOnlyVolume sampleEnv
      (initInodeCache sampleFs) (.mknod rootIno [0x61] 0x81A4 0 0) with
    | .ok (s, _) => s.dirtyBlk 4
    | .error _ => false) = true := by decide
  generalize hrun : handle (inodeCalls readOnlyVolume sampleEnv) readOnlyVolume sampleEnv
    (initInodeCache sampleFs) (.mknod rootIno [0x61] 0x81A4 0 0) = r at hdirty
  match r with
  | .error e => cases hdirty
  | .ok (s, reply) =>
    refine ⟨s, .step .start trivial hrun, fun h => ?_⟩
    have hclean : s.dirtyBlk 4 = false := h.clean 4
    rw [show s.dirtyBlk 4 = true from hdirty] at hclean
    cases hclean

/-- Changing the mode of the root directory on a read-only mount. -/
theorem readOnly_run_sample :
    ∃ s reply, handle (inodeCalls readOnlyVolume sampleEnv) readOnlyVolume sampleEnv
        (initInodeCache sampleFs) (.chmod rootIno 0x1C0) = .ok (s, reply) ∧
      Unwritten readOnlyVolume sampleFs s := by
  have hok : (handle (inodeCalls readOnlyVolume sampleEnv) readOnlyVolume sampleEnv
      (initInodeCache sampleFs) (.chmod rootIno 0x1C0)).isOk = true := by decide
  generalize hrun : handle (inodeCalls readOnlyVolume sampleEnv) readOnlyVolume sampleEnv
    (initInodeCache sampleFs) (.chmod rootIno 0x1C0) = r at hok
  match r with
  | .error e => cases hok
  | .ok (s, reply) =>
    have hlinks : (nodeAt readOnlyVolume (initInodeCache sampleFs) rootIno).linksCount ≠ 0 := by
      decide
    have hquiet : QuietRequest readOnlyVolume (initInodeCache sampleFs) sampleEnv
        (.chmod rootIno 0x1C0) := by
      refine ⟨fun n hn => ?_, hlinks⟩
      rw [List.mem_singleton.mp hn]
      decide
    exact ⟨s, reply, rfl, readOnly_run rfl readOnlyVolume_layout (fun _ => rfl)
      (.step .start hquiet hrun)⟩

end Cheviot.Ext2
