import Cheviot.Ext2.InodeLists

/-!
# The inodes behind the cache

What the handlers see of the inodes goes through the cache: a number stands for
the inode in its slot, or else for the one in the table (`nodeAt`).

* `CacheOk` — the lists are in order, and the disk is never further behind a slot
  nobody holds than a relation `R` allows: equality for a cache that loses nothing
  when a slot is recycled. `LagAt` says so of one inode.
* `GotInode.ok`, `PutInode.ok` — `get_inode` and `put_inode` keep it so.
* `GotInode.nodeAt`, `PutInode.nodeAt_untimed` — what they do to the inodes: nothing
  but what the disk is behind by, the times `write_inode` fills in, and the end of an
  inode without links.
-/

namespace Cheviot.Ext2

open Cheviot.Bytes Cheviot.Bits

/-- The inode behind a number: in its slot, or else in the table. -/
def nodeAt (v : Volume) (s : Fs) (n : Nat) : OndiskInode :=
  match searchBucket s (n % inodeHashSize) n with
  | some i => (s.slot i).odi
  | none => diskInode v s n

/-- The cache in order: the disk is behind a slot by no more than `R`, unless the
slot is dirty and held. -/
structure CacheOk (v : Volume) (R : OndiskInode → OndiskInode → Prop) (s : Fs)
    (held : List Nat) : Prop extends ListsOk s held where
  on_volume : ∀ i, i < nrInodes → (s.slot i).ino ≠ noEntry → OnVolume v (s.slot i).ino
  synced : ∀ i, i < nrInodes → (s.slot i).ino ≠ noEntry →
    R (diskInode v s (s.slot i).ino) (s.slot i).odi ∨
      ((s.slot i).dirty = true ∧ 0 < (s.slot i).count)

/-- The disk is behind the slot of inode `n` by no more than `R`, unless the slot is
dirty and held. -/
def LagAt (v : Volume) (R : OndiskInode → OndiskInode → Prop) (s : Fs) (n : Nat) : Prop :=
  ∀ i, i < nrInodes → (s.slot i).ino = n →
    R (diskInode v s n) (s.slot i).odi ∨ ((s.slot i).dirty = true ∧ 0 < (s.slot i).count)

/-- The two inodes differ in their times at most. -/
def Synced (x y : OndiskInode) : Prop := x.untimed = y.untimed

theorem Synced.refl (x : OndiskInode) : Synced x x := rfl

section Cache

variable {v : Volume} {R : OndiskInode → OndiskInode → Prop} {s s' : Fs} {held : List Nat}

theorem CacheOk.lagAt (hc : CacheOk v R s held) {n : Nat} (hn : n ≠ noEntry) : LagAt v R s n := by
  intro i hi hin
  have hsynced := hc.synced i hi (hin ▸ hn)
  rwa [hin] at hsynced

theorem OnVolume.ne_noEntry {n : Nat} (h : OnVolume v n) : n ≠ noEntry := Nat.pos_iff_ne_zero.mp h.1

/-- A number other than 0 that belongs to a group is one of the volume. -/
theorem onVolume_of_group (hv : Layout v) {n : Nat} (hn : n ≠ noEntry)
    (hg : v.inodeGroup n < v.groupsCount) : OnVolume v n := by
  have hpos : 0 < n := Nat.pos_of_ne_zero hn
  refine ⟨hpos, ?_⟩
  rw [Volume.inodeGroup, pred32_of_pos hpos, Nat.div_lt_iff_lt_mul hv.ipg_pos] at hg
  omega

theorem ListsOk.nodeAt_cached (hc : ListsOk s held) {n i : Nat} (hn : n ≠ noEntry)
    (hi : Cached s n i) : nodeAt v s n = (s.slot i).odi := by
  rw [nodeAt, (hc.search_iff hn).mpr hi]

theorem ListsOk.nodeAt_uncached (hc : ListsOk s held) {n : Nat} (hn : n ≠ noEntry)
    (h : ∀ i, ¬ Cached s n i) : nodeAt v s n = diskInode v s n := by
  rw [nodeAt, (hc.search_none_iff hn).mpr h]

/-- Two states whose slots hold the same inodes, and agree on inode `n` in its
slot and in the table, show the same inode `n`. -/
theorem nodeAt_congr {held' : List Nat} (hc : ListsOk s held) (hc' : ListsOk s' held') {n : Nat}
    (hn : n ≠ noEntry) (hcached : ∀ i, Cached s' n i ↔ Cached s n i)
    (hslot : ∀ i, Cached s n i → (s'.slot i).odi = (s.slot i).odi)
    (hdisk : (∀ i, ¬ Cached s n i) → diskInode v s' n = diskInode v s n) :
    nodeAt v s' n = nodeAt v s n := by
  by_cases h : ∃ i, Cached s n i
  · obtain ⟨i, hi⟩ := h
    rw [hc.nodeAt_cached hn hi, hc'.nodeAt_cached hn ((hcached i).mpr hi), hslot i hi]
  · have hnone : ∀ i, ¬ Cached s n i := fun i hi => h ⟨i, hi⟩
    rw [hc.nodeAt_uncached hn hnone, hc'.nodeAt_uncached hn fun i hi => hnone i ((hcached i).mp hi),
      hdisk hnone]

/-- A slot changed and marked, that is held. -/
theorem LagAt.setSlot {m i : Nat} (h : LagAt v R s m) {x : Inode}
    (hcount : x.count = (s.slot i).count) (hpos : 0 < (s.slot i).count) (hdirty : x.dirty = true) :
    LagAt v R (s.setSlot i x) m := by
  intro j hj hjm
  by_cases hji : j = i
  · have hx : (s.setSlot i x).slot j = x := hji ▸ Function.update_self ..
    rw [hx, hcount]
    exact .inr ⟨hdirty, hpos⟩
  · have hother : (s.setSlot i x).slot j = s.slot j := Function.update_of_ne hji _ _
    rw [hother] at hjm ⊢
    exact h j hj hjm

/-- The inode of a slot that is held and marked. -/
theorem ListsOk.lagAt_marked (hl : ListsOk s held) {i : Nat} (hi : i ∈ held) {x : Inode}
    (hcount : x.count = (s.slot i).count) (hdirty : x.dirty = true) :
    LagAt v R (s.setSlot i x) (s.slot i).ino := by
  obtain ⟨hlt, hne⟩ := hl.held_mem i hi
  intro j hj hjm
  have hji : j = i := by
    by_contra hji
    have hother : (s.setSlot i x).slot j = s.slot j := Function.update_of_ne hji _ _
    rw [hother] at hjm
    exact hji (hl.ino_inj j i hj hlt hjm (hjm ▸ hne))
  have hx : (s.setSlot i x).slot j = x := hji ▸ Function.update_self ..
  rw [hx, hcount]
  exact .inr ⟨hdirty, hl.count_pos hi⟩

theorem LagAt.of_slots {n : Nat} (h : LagAt v R s n)
    (hino : ∀ i, (s'.slot i).ino = (s.slot i).ino)
    (hcount : ∀ i, (s'.slot i).count = (s.slot i).count)
    (hdisk : diskInode v s' n = diskInode v s n)
    (hslot : ∀ i, i < nrInodes → (s.slot i).ino = n →
      ((s'.slot i).odi = (s.slot i).odi ∧ ((s.slot i).dirty = true → (s'.slot i).dirty = true)) ∨
        R (diskInode v s n) (s'.slot i).odi ∨
        ((s'.slot i).dirty = true ∧ 0 < (s.slot i).count)) : LagAt v R s' n := by
  intro i hi hin
  rw [hino] at hin
  rw [hdisk, hcount]
  rcases hslot i hi hin with ⟨hodi, hdirty⟩ | hnew
  · rw [hodi]
    exact (h i hi hin).imp id fun hheld => ⟨hdirty hheld.1, hheld.2⟩
  · exact hnew

/-- A step that leaves the lists, the numbers and counts of the slots and the inode
tables alone keeps the cache in order, if it marks what it changes. -/
theorem CacheOk.of_slots (hc : CacheOk v R s held) (hhash : s'.hash = s.hash)
    (hunused : s'.unused = s.unused) (hino : ∀ i, (s'.slot i).ino = (s.slot i).ino)
    (hcount : ∀ i, (s'.slot i).count = (s.slot i).count)
    (hdisk : ∀ n, OnVolume v n → diskInode v s' n = diskInode v s n)
    (hsynced : ∀ i, i < nrInodes → (s.slot i).ino ≠ noEntry →
      ((s'.slot i).odi = (s.slot i).odi ∧ ((s.slot i).dirty = true → (s'.slot i).dirty = true)) ∨
        R (diskInode v s (s.slot i).ino) (s'.slot i).odi ∨
        ((s'.slot i).dirty = true ∧ 0 < (s.slot i).count)) :
    CacheOk v R s' held := by
  refine ⟨hc.toListsOk.congr hhash hunused hino hcount, fun i hi => ?_, fun i hi hne => ?_⟩
  · rw [hino]
    exact hc.on_volume i hi
  · have hold : (s.slot i).ino ≠ noEntry := by rwa [hino] at hne
    refine (hc.lagAt hne).of_slots hino hcount (hdisk _ ?_) (fun j hj hjn => ?_) i hi rfl
    · rw [hino]
      exact hc.on_volume i hi hold
    · rw [← hjn]
      exact hsynced j hj (hjn ▸ hne)

/-! ## `get_inode` -/

theorem LagAt.hit {m : Nat} (h : LagAt v R s m) (i : Nat) : LagAt v R (hitState s i) m := by
  intro j hj hjm
  rw [hitState_ino] at hjm
  rw [hitState_odi, hitState_slot]
  refine (h j hj hjm).imp id fun ⟨hd, hpos⟩ => ?_
  split
  next he =>
    subst he
    exact ⟨hd, Nat.succ_pos _⟩
  next => exact ⟨hd, hpos⟩

theorem hitState_ok (hc : CacheOk v R s held) {n i : Nat} (hn : n ≠ noEntry)
    (hi : Cached s n i) : CacheOk v R (hitState s i) (i :: held) := by
  refine ⟨hitState_lists hc.toListsOk hn hi, fun j hj => ?_, fun j hj hne => ?_⟩
  · rw [hitState_ino]
    exact hc.on_volume j hj
  · exact (hc.lagAt hne).hit i j hj rfl

theorem nodeAt_hitState (hc : ListsOk s held) {n i : Nat} (hn : n ≠ noEntry)
    (hi : Cached s n i) {m : Nat} (hm : m ≠ noEntry) :
    nodeAt v (hitState s i) m = nodeAt v s m := by
  refine nodeAt_congr hc (hitState_lists hc hn hi) hm (fun j => ?_) (fun j _ => hitState_odi i j)
    fun _ => rfl
  rw [Cached, Cached, hitState_ino]

theorem LagAt.load {m : Nat} (h : LagAt v R s m) (hR : ∀ x, R x x) (n i : Nat) :
    LagAt v R (loadState v s n i) m := by
  intro j hj
  rw [loadState_ino, loadState_slot]
  by_cases hji : j = i
  · rw [if_pos hji, if_pos hji]
    rintro rfl
    exact .inl (hR _)
  · rw [if_neg hji, if_neg hji]
    exact h j hj

theorem loadState_ok (hc : CacheOk v R s held) (hR : ∀ x, R x x) {n i : Nat} (hn : OnVolume v n)
    (hnone : ∀ j, ¬ Cached s n j) (hhead : s.unused.head? = some i) :
    CacheOk v R (loadState v s n i) (i :: held) := by
  refine ⟨loadState_lists hc.toListsOk hn.ne_noEntry hnone hhead, fun j hj => ?_, fun j hj => ?_⟩
  · rw [loadState_ino]
    by_cases hji : j = i
    · rw [if_pos hji]
      exact fun _ => hn
    · rw [if_neg hji]
      exact hc.on_volume j hj
  · exact fun hne => (hc.lagAt hne).load hR n i j hj rfl

/-- Recycling a slot hides what the disk is behind by, and no more. -/
theorem LagAt.node_load {m : Nat} (h : LagAt v R s m) (hl : ListsOk s held) (hR : ∀ x, R x x)
    {n i : Nat} (hn : n ≠ noEntry) (hnone : ∀ j, ¬ Cached s n j)
    (hhead : s.unused.head? = some i) (hm : m ≠ noEntry) :
    R (nodeAt v (loadState v s n i) m) (nodeAt v s m) := by
  have hl' := loadState_lists hl hn hnone hhead (v := v)
  obtain ⟨hi, h0, -⟩ := hl.head_free hhead
  by_cases hmn : m = n
  · subst hmn
    have hcached : Cached (loadState v s m i) m i := ⟨hi, by rw [loadState_slot, if_pos rfl]⟩
    rw [hl'.nodeAt_cached hm hcached, hl.nodeAt_uncached hm hnone, loadState_slot, if_pos rfl]
    exact hR _
  · have hcached : ∀ j, Cached (loadState v s n i) m j ↔ Cached s m j ∧ j ≠ i := by
      intro j
      rw [Cached, Cached, loadState_slot]
      by_cases hj : j = i
      · simp [hj, Ne.symm hmn]
      · simp [hj]
    by_cases hold : Cached s m i
    · -- the recycled inode is now seen on the disk
      have hnone' : ∀ j, ¬ Cached (loadState v s n i) m j := by
        intro j hj
        obtain ⟨hj, hji⟩ := (hcached j).mp hj
        exact hji (hl.ino_inj j i hj.1 hi (hj.2.trans hold.2.symm) (by rw [hj.2]; exact hm))
      rw [hl'.nodeAt_uncached hm hnone', hl.nodeAt_cached hm hold]
      rcases h i hi hold.2 with hlag | ⟨-, hheld⟩
      · exact hlag
      · omega
    · have heq : nodeAt v (loadState v s n i) m = nodeAt v s m := by
        refine nodeAt_congr hl hl' hm (fun j => ?_) (fun j hj => ?_) fun _ => rfl
        · rw [hcached]
          exact ⟨fun h => h.1, fun h => ⟨h, fun he => hold (he ▸ h)⟩⟩
        · have hji : j ≠ i := fun he => hold (he ▸ hj)
          rw [loadState_slot, if_neg hji]
      rw [heq]
      exact hR _

theorem GotInode.onVolume {n i : Nat} (h : GotInode v s n i s') (hv : Layout v)
    (hc : CacheOk v R s held) (hn : n ≠ noEntry) : OnVolume v n := by
  cases h with
  | hit hi =>
    have hvol := hc.on_volume i hi.1 (by rw [hi.2]; exact hn)
    rwa [hi.2] at hvol
  | load _ _ hgroup => exact onVolume_of_group hv hn hgroup

theorem GotInode.ok {n i : Nat} (h : GotInode v s n i s') (hv : Layout v) (hR : ∀ x, R x x)
    (hc : CacheOk v R s held) (hn : n ≠ noEntry) : CacheOk v R s' (i :: held) := by
  have hvol := h.onVolume hv hc hn
  cases h with
  | hit hi => exact hitState_ok hc hn hi
  | load hnone hhead _ => exact loadState_ok hc hR hvol hnone hhead

theorem GotInode.nodeAt {n i : Nat} (h : GotInode v s n i s') (hv : Layout v) (hR : ∀ x, R x x)
    (hc : CacheOk v R s held) (hn : n ≠ noEntry) {m : Nat} (hm : m ≠ noEntry) :
    R (nodeAt v s' m) (nodeAt v s m) := by
  have hvol := h.onVolume hv hc hn
  cases h with
  | hit hi =>
    rw [nodeAt_hitState hc.toListsOk hn hi hm]
    exact hR _
  | load hnone hhead _ => exact (hc.lagAt hm).node_load hc.toListsOk hR hvol.ne_noEntry hnone hhead hm

theorem GotInode.lagAt {n i m : Nat} (h : GotInode v s n i s') (hlag : LagAt v R s m)
    (hR : ∀ x, R x x) : LagAt v R s' m := by
  cases h with
  | hit _ => exact hlag.hit i
  | load _ _ _ => exact hlag.load hR n i

/-- `get_inode` shows another inode no older than the disk is behind it. -/
theorem GotInode.node_lag {n i m : Nat} (h : GotInode v s n i s') (hlag : LagAt v R s m)
    (hR : ∀ x, R x x) (hl : ListsOk s held) (hn : n ≠ noEntry) (hm : m ≠ noEntry) :
    R (Ext2.nodeAt v s' m) (Ext2.nodeAt v s m) := by
  cases h with
  | hit hi =>
    rw [nodeAt_hitState hl hn hi hm]
    exact hR _
  | load hnone hhead _ => exact hlag.node_load hl hR hn hnone hhead hm

/-! ## `put_inode` -/

theorem LagAt.wrote {m i : Nat} (h : LagAt v R s m) (hv : Layout v) (hR : ∀ x, R x x)
    (hm : OnVolume v m) (hl : ListsOk s held) (hi : i < nrInodes) (hvol : OnVolume v (s.slot i).ino)
    (env : Env) : LagAt v R (wroteInode v env s i) m := by
  intro j hj hjm
  rw [wroteInode_ino] at hjm
  rw [diskInode_wroteInode hv env hvol hm, wroteInode_slot]
  by_cases hji : j = i
  · rw [if_pos (by rw [← hjm, hji]), if_pos hji]
    exact .inl (hR _)
  · have hino : m ≠ (s.slot i).ino := fun he =>
      hji (hl.ino_inj j i hj hi (hjm.trans he) (hjm ▸ hm.ne_noEntry))
    rw [if_neg hino, if_neg hji]
    exact h j hj hjm

/-- Writing a cached inode leaves the cache in order, and that inode on the disk. -/
theorem wroteInode_ok (hv : Layout v) (hR : ∀ x, R x x) (hc : CacheOk v R s held) {i : Nat}
    (hi : i < nrInodes) (hne : (s.slot i).ino ≠ noEntry) (env : Env) :
    CacheOk v R (wroteInode v env s i) held := by
  refine ⟨wroteInode_lists hc.toListsOk env i, fun j hj => ?_, fun j hj hjne => ?_⟩
  · rw [wroteInode_ino]
    exact hc.on_volume j hj
  · rw [wroteInode_ino] at hjne ⊢
    exact (hc.lagAt hjne).wrote hv hR (hc.on_volume j hj hjne) hc.toListsOk hi
      (hc.on_volume i hi hne) env j hj (wroteInode_ino env i j)

/-- Writing an inode shows in its times at most. -/
theorem nodeAt_wroteInode (hv : Layout v) (hc : CacheOk v R s held) {i : Nat}
    (hi : i < nrInodes) (hne : (s.slot i).ino ≠ noEntry) (env : Env) {n : Nat}
    (hn : OnVolume v n) :
    (nodeAt v (wroteInode v env s i) n).untimed = (nodeAt v s n).untimed := by
  have hl := hc.toListsOk
  have hl' := wroteInode_lists (v := v) hl env i
  have hn0 := hn.ne_noEntry
  by_cases hni : n = (s.slot i).ino
  · have hcached : Cached (wroteInode v env s i) n i := ⟨hi, by rw [wroteInode_ino, hni]⟩
    rw [hl'.nodeAt_cached hn0 hcached, hl.nodeAt_cached hn0 ⟨hi, hni.symm⟩, wroteInode_slot,
      if_pos rfl]
    exact untimed_timed v env _
  · refine congrArg _ (nodeAt_congr hl hl' hn0 (fun j => ?_) (fun j hj => ?_) fun _ => ?_)
    · rw [Cached, Cached, wroteInode_ino]
    · have hji : j ≠ i := fun he => hni (by rw [← he, hj.2])
      rw [wroteInode_slot, if_neg hji]
    · rw [diskInode_wroteInode hv env (hc.on_volume i hi hne) hn, if_neg hni]

theorem LagAt.drop {m i : Nat} (h : LagAt v R s m)
    (hclean : (s.slot i).dirty = false ∨ 1 < (s.slot i).count) : LagAt v R (dropRef s i) m := by
  intro j hj hjm
  rw [dropRef_ino] at hjm
  rw [dropRef_odi, dropRef_slot]
  refine (h j hj hjm).imp id fun ⟨hd, hpos⟩ => ?_
  split
  next he =>
    subst he
    refine ⟨hd, ?_⟩
    rcases hclean with hclean | hmore
    · rw [hd] at hclean
      cases hclean
    · show 0 < (s.slot j).count - 1
      omega
  next => exact ⟨hd, hpos⟩

/-- Giving back a reference keeps the cache in order, if the last one is given
back only when the inode has been written. -/
theorem dropRef_ok (hc : CacheOk v R s held) {i : Nat} (hi : i ∈ held)
    (hclean : (s.slot i).dirty = false ∨ 1 < (s.slot i).count) :
    CacheOk v R (dropRef s i) (held.erase i) := by
  refine ⟨dropRef_lists hc.toListsOk hi, fun j hj => ?_, fun j hj hne => ?_⟩
  · rw [dropRef_ino]
    exact hc.on_volume j hj
  · exact (hc.lagAt hne).drop hclean j hj rfl

theorem nodeAt_dropRef (hc : ListsOk s held) {i : Nat} (hi : i ∈ held) {n : Nat}
    (hn : n ≠ noEntry) : nodeAt v (dropRef s i) n = nodeAt v s n := by
  refine nodeAt_congr hc (dropRef_lists hc hi) hn (fun j => ?_) (fun j _ => dropRef_odi i j)
    fun _ => rfl
  rw [Cached, Cached, dropRef_ino]

theorem flushedInode_ok (hv : Layout v) (hR : ∀ x, R x x) (hc : CacheOk v R s held) {i : Nat}
    (hi : i < nrInodes) (hne : (s.slot i).ino ≠ noEntry) (env : Env) :
    CacheOk v R (flushedInode v env s i) held := by
  unfold flushedInode
  split
  · exact wroteInode_ok hv hR hc hi hne env
  · exact hc

theorem nodeAt_flushedInode (hv : Layout v) (hc : CacheOk v R s held) {i : Nat}
    (hi : i < nrInodes) (hne : (s.slot i).ino ≠ noEntry) (env : Env) {n : Nat}
    (hn : OnVolume v n) :
    (nodeAt v (flushedInode v env s i) n).untimed = (nodeAt v s n).untimed := by
  unfold flushedInode
  split
  · exact nodeAt_wroteInode hv hc hi hne env hn
  · rfl

/-! ### Releasing an inode -/

/-- The inode bitmaps are not in the inode tables. -/
theorem diskInode_unmarkInode (hv : Layout v) {g k : Nat} (isDir : Bool) (hg : g < v.groupsCount)
    {n : Nat} (hn : OnVolume v n) :
    diskInode v (unmarkInode v s g k isDir) n = diskInode v s n :=
  diskInode_congr (Function.update_of_ne (inodeTableBlock_ne_inode_bitmap hv hn hg).symm _ _)

/-- On the disk, a release changes the inode released. -/
theorem diskInode_releasedState (hv : Layout v) {i : Nat} (env : Env)
    (hvol : OnVolume v (s.slot i).ino) {n : Nat} (hn : OnVolume v n) :
    diskInode v (releasedState v env s i) n =
      if n = (s.slot i).ino then (timed v env ((freedInode v s i).slot i)).odi
      else diskInode v s n := by
  have hino : ((freedInode v s i).slot i).ino = (s.slot i).ino := by
    rw [freedInode_slot, if_pos rfl]
  have h := diskInode_wroteInode hv env (s := freedInode v s i) (i := i)
    (by rw [hino]; exact hvol) hn
  rw [hino] at h
  refine Eq.trans rfl (h.trans ?_)
  split
  · rfl
  · unfold freedInode
    split
    · rfl
    · exact diskInode_unmarkInode hv (sIsDir (s.slot i).odi.mode) (inodeGroup_lt hvol) hn

theorem freedMode_eq (hv : Layout v) {x : Inode} (hvol : OnVolume v x.ino) :
    freedMode v x = 0 := by
  have := hvol.2
  rw [freedMode, if_neg (by rw [hv.inodesCount_eq]; omega)]

theorem LagAt.release {m i : Nat} (h : LagAt v R s m) (hv : Layout v) (hm : OnVolume v m)
    (hl : ListsOk s held) (hi : i < nrInodes) (hvol : OnVolume v (s.slot i).ino) (env : Env) :
    LagAt v R (releasedState v env s i) m := by
  intro j hj
  rw [releasedState_ino]
  by_cases hji : j = i
  · rw [if_pos hji]
    exact fun he => absurd he.symm hm.ne_noEntry
  · rw [if_neg hji]
    intro hjm
    have hother : m ≠ (s.slot i).ino := fun he =>
      hji (hl.ino_inj j i hj hi (hjm.trans he) (hjm ▸ hm.ne_noEntry))
    rw [diskInode_releasedState hv env hvol hm, if_neg hother, releasedState_slot, if_neg hji]
    exact h j hj hjm

theorem releasedState_ok (hv : Layout v) (hc : CacheOk v R s held) {i : Nat} (hi : i ∈ held)
    (hcount : (s.slot i).count = 1) (env : Env) :
    CacheOk v R (releasedState v env s i) (held.erase i) := by
  obtain ⟨hlt, hne⟩ := hc.held_mem i hi
  have hvol := hc.on_volume i hlt hne
  refine ⟨releasedState_lists hc.toListsOk hi hcount env, fun j hj => ?_, fun j hj => ?_⟩
  · rw [releasedState_ino]
    by_cases hji : j = i
    · rw [if_pos hji]
      exact fun h => absurd rfl h
    · rw [if_neg hji]
      exact hc.on_volume j hj
  · intro hjne
    have hji : j ≠ i := by
      rintro rfl
      rw [releasedState_ino, if_pos rfl] at hjne
      exact hjne rfl
    have hold : ((releasedState v env s i).slot j).ino = (s.slot j).ino := by
      rw [releasedState_ino, if_neg hji]
    exact (hc.lagAt hjne).release hv (hold ▸ hc.on_volume j hj (hold ▸ hjne)) hc.toListsOk hlt hvol
      env j hj rfl

/-- A release leaves the other inodes alone, and an inode without a mode behind. -/
theorem nodeAt_releasedState (hv : Layout v) (hc : CacheOk v R s held) {i : Nat} (hi : i ∈ held)
    (hcount : (s.slot i).count = 1) (env : Env) {n : Nat} (hn : OnVolume v n) :
    (nodeAt v (releasedState v env s i) n).untimed =
      if n = (s.slot i).ino then { (s.slot i).odi with mode := 0 }.untimed
      else (nodeAt v s n).untimed := by
  obtain ⟨hlt, hne⟩ := hc.held_mem i hi
  have hvol := hc.on_volume i hlt hne
  have hl := hc.toListsOk
  have hl' := releasedState_lists (v := v) hl hi hcount env
  have hn0 := hn.ne_noEntry
  by_cases hni : n = (s.slot i).ino
  · have hnone : ∀ j, ¬ Cached (releasedState v env s i) n j := by
      rintro j ⟨hj, hjn⟩
      rw [releasedState_ino] at hjn
      by_cases hji : j = i
      · rw [if_pos hji] at hjn
        exact hn0 hjn.symm
      · rw [if_neg hji] at hjn
        exact hji (hc.ino_inj j i hj hlt (hjn.trans hni) (by rw [hjn]; exact hn0))
    rw [hl'.nodeAt_uncached hn0 hnone, diskInode_releasedState hv env hvol hn, if_pos hni,
      if_pos hni, untimed_timed, freedInode_slot, if_pos rfl, freedMode_eq hv hvol]
  · rw [if_neg hni]
    refine congrArg _ (nodeAt_congr hl hl' hn0 (fun j => ?_) (fun j hj => ?_) fun _ => ?_)
    · rw [Cached, Cached, releasedState_ino]
      by_cases hji : j = i
      · subst hji
        rw [if_pos rfl]
        exact ⟨fun h => absurd h.2.symm hn0, fun h => absurd h.2.symm hni⟩
      · rw [if_neg hji]
    · have hji : j ≠ i := fun he => hni (by rw [← he, hj.2])
      rw [releasedState_slot, if_neg hji]
    · rw [diskInode_releasedState hv env hvol hn, if_neg hni]

/-! ### Both ways -/

theorem PutInode.ok {env : Env} {i : Nat} (h : PutInode v env s i s') (hv : Layout v)
    (hR : ∀ x, R x x) (hc : CacheOk v R s held) (hi : i ∈ held) :
    CacheOk v R s' (held.erase i) := by
  obtain ⟨hlt, hne⟩ := hc.held_mem i hi
  cases h with
  | keep _ _ =>
    exact dropRef_ok (flushedInode_ok hv hR hc hlt hne env) hi (.inl (flushedInode_dirty env i))
  | release hcount _ _ _ => exact releasedState_ok hv hc hi hcount env

/-- Giving back a reference shows in the times of the inode at most, unless the
inode is released. -/
theorem PutInode.nodeAt_untimed {env : Env} {i : Nat} (h : PutInode v env s i s') (hv : Layout v)
    (hR : ∀ x, R x x) (hc : CacheOk v R s held) (hi : i ∈ held) {n : Nat} (hn : OnVolume v n) :
    (nodeAt v s' n).untimed =
      if n = (s.slot i).ino ∧ (s.slot i).odi.linksCount = 0 ∧ (s.slot i).count = 1 then
        { (s.slot i).odi with mode := 0 }.untimed
      else (nodeAt v s n).untimed := by
  obtain ⟨hlt, hne⟩ := hc.held_mem i hi
  cases h with
  | keep hkeep _ =>
    have hflush := flushedInode_ok hv hR hc hlt hne env
    rw [nodeAt_dropRef hflush.toListsOk hi hn.ne_noEntry, nodeAt_flushedInode hv hc hlt hne env hn,
      if_neg]
    rintro ⟨-, h0, h1⟩
    rcases hkeep with hk | hk
    · exact hk h0
    · omega
  | release hcount hlinks _ _ =>
    rw [nodeAt_releasedState hv hc hi hcount env hn]
    by_cases hni : n = (s.slot i).ino
    · rw [if_pos hni, if_pos ⟨hni, hlinks, hcount⟩]
    · rw [if_neg hni, if_neg fun h => hni h.1]

theorem PutInode.lagAt {env : Env} {i m : Nat} (h : PutInode v env s i s')
    (hlag : LagAt v R s m) (hv : Layout v) (hR : ∀ x, R x x) (hm : OnVolume v m)
    (hl : ListsOk s held) (hi : i < nrInodes) (hvol : OnVolume v (s.slot i).ino) :
    LagAt v R s' m := by
  cases h with
  | keep _ _ =>
    refine LagAt.drop ?_ (.inl (flushedInode_dirty env i))
    unfold flushedInode
    split
    · exact hlag.wrote hv hR hm hl hi hvol env
    · exact hlag
  | release _ _ _ _ => exact hlag.release hv hm hl hi hvol env

end Cache

end Cheviot.Ext2
